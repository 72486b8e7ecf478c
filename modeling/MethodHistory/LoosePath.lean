import MethodHistory.Folder

/-!
This module contains the loose texts that are given as paths of files. Some halves stand for single
bytes of a name; any other half bars a text from being a path.
-/

namespace MethodHistory
namespace LoosePath

def isHalf (point : Nat) : Bool :=
  Text.isHighHalf point || Text.isLowHalf point

def isBarred (point : Nat) : Bool :=
  isHalf point && !(0xDC80 ≤ point && point ≤ 0xDCFF)

def trouble? (points : List Nat) : Option FileTrouble :=
  (points.findIdx? isBarred).map fun place =>
    .barred place ((points.drop place).takeWhile isHalf)

def outputTroubles (path : Text.Loose) : Option FileTrouble × Option FileTrouble :=
  let (root, names) := Folder.split '/'.toNat '.'.toNat path.points
  let trouble? (names : List (List Nat)) : Option FileTrouble :=
    LoosePath.trouble? (root ++ List.intercalate ['/'.toNat] names)
  (trouble? names.dropLast, trouble? names)

def output (outputFile : String → Except OutputFault String) (path : Text.Loose)
    : Except OutputFault String :=
  let name := path.replaced
  match outputTroubles path, outputFile name with
  | (some trouble, _), _ => .error (.folder ⟨trouble, name⟩)
  | _, .error (.folder fault) => .error (.folder fault)
  | (none, some trouble), _ => .error (.file ⟨trouble, name⟩)
  | (none, none), content => content

end LoosePath
end MethodHistory
