import MethodHistory.Similarity
import MethodHistory.Syntax.Declaration

/-!
This module contains the matching of the methods of two versions of a file: by signature, then by a
name that is left once on both sides, then by similar bodies for methods that were renamed. Methods
are known by their places, as two of them can have the same signature.
-/

namespace MethodHistory

structure MethodMatch where
  new : Nat
  old : Nat
  deriving DecidableEq

structure Placed where
  method : Method
  place : Nat

def Placed.all (methods : List Method) : List Placed :=
  methods.zipIdx.map fun (method, place) => ⟨method, place⟩

namespace Matching

def freeOlds (matching : List MethodMatch) (olds : List Placed) : List Placed :=
  olds.filter fun old => matching.all (·.old ≠ old.place)

def freeNews (matching : List MethodMatch) (news : List Placed) : List Placed :=
  news.filter fun new => matching.all (·.new ≠ new.place)

/--
The first new method of a signature is matched with the last old one.
-/
def bySignature (olds news : List Placed) : List MethodMatch :=
  news.foldl (fun matching new =>
    match (olds.filter (·.method.signature = new.method.signature)).getLast? with
    | some old =>
      if matching.all (·.old ≠ old.place) then matching ++ [⟨new.place, old.place⟩] else matching
    | none => matching) []

def sameName (one other : Placed) : Bool :=
  one.method.owner = other.method.owner && one.method.name = other.method.name

def bySoleName (matching : List MethodMatch) (olds news : List Placed) : List MethodMatch :=
  let news := freeNews matching news
  let olds := freeOlds matching olds
  news.filterMap fun new =>
    match news.filter (sameName new), olds.filter (sameName new) with
    | [_], [old] => some ⟨new.place, old.place⟩
    | _, _ => none

def canRename (old new : Method) : Bool :=
  new.owner = old.owner && new.name ≠ old.name && new.isConstructor = old.isConstructor
    && new.parameterTypes = old.parameterTypes

def mostSimilar (threshold : Float) (old : Method) (news : List Placed) : Option Placed :=
  ((news.filter fun new => canRename old new.method).foldl (fun (best : Option Placed × Rat) new =>
    let s := similarity old.source new.method.source
    if Similarity.reaches threshold s && best.2 < s then (some new, s) else best) (none, 0)).1

/--
The matching continued by renamed methods: each free old method in turn takes the most similar free
new one.
-/
def byBody (threshold : Float) (matching : List MethodMatch) (olds news : List Placed)
    : List MethodMatch :=
  (freeOlds matching olds).foldl (fun matching old =>
    match mostSimilar threshold old.method (freeNews matching news) with
    | some new => matching ++ [⟨new.place, old.place⟩]
    | none => matching) matching

end Matching

def methodMatching (threshold : Float) (olds news : List Method) : List MethodMatch :=
  let olds := Placed.all olds
  let news := Placed.all news
  let matching := Matching.bySignature olds news
  Matching.byBody threshold (matching ++ Matching.bySoleName matching olds news) olds news

end MethodHistory
