import MethodHistory.Decimal.Nearest
import MethodHistory.Json.Basic
import MethodHistory.Table
import MethodHistory.Text.Numeral
import MethodHistory.Text.Surrogate

/-!
This module contains a reader for JSON texts, and why and where a text is not JSON.
-/

namespace MethodHistory
namespace Json

inductive Complaint where
  | byteOrderMark
  | value
  | propertyName
  | colon
  | comma
  | unterminated
  | control
  | escape
  | unicodeEscape
  | extraData
  | longNumeral (digits : Nat)
  | tooDeep
  deriving DecidableEq

def Complaint.reason : Complaint → String
  | byteOrderMark => "Unexpected UTF-8 BOM (decode using utf-8-sig)"
  | value => "Expecting value"
  | propertyName => "Expecting property name enclosed in double quotes"
  | colon => "Expecting ':' delimiter"
  | comma => "Expecting ',' delimiter"
  | unterminated => "Unterminated string starting at"
  | control => "Invalid control character at"
  | escape => "Invalid \\escape"
  | unicodeEscape => "Invalid \\uXXXX escape"
  | extraData => "Extra data"
  | longNumeral digits =>
    "Exceeds the limit (" ++ toString Text.longestNumeral
      ++ " digits) for integer string conversion: value has " ++ toString digits
      ++ " digits; use sys.set_int_max_str_digits() to increase the limit"
  | tooDeep => "maximum recursion depth exceeded while decoding a JSON object from a unicode string"

structure Fault where
  complaint : Complaint
  place : Nat
  deriving DecidableEq

namespace Fault

def message (source : List Char) (fault : Fault) : String :=
  match fault.complaint with
  | .longNumeral _ | .tooDeep => fault.complaint.reason
  | complaint =>
    let before := source.take fault.place
    let column := (before.reverse.takeWhile (· ≠ '\n')).length + 1
    complaint.reason ++ ": line " ++ toString (before.count '\n' + 1) ++ " column "
      ++ toString column ++ " (char " ++ toString fault.place ++ ")"

end Fault

def isSpace (c : Char) : Bool :=
  c = ' ' || c = '\n' || c = '\t' || c = '\r'

def skip (cs : List Char) : List Char :=
  cs.dropWhile isSpace

def hexValue? (c : Char) : Option Nat :=
  if c.isDigit then some (c.toNat - '0'.toNat)
  else if 'a' ≤ c ∧ c ≤ 'f' then some (c.toNat - 'a'.toNat + 10)
  else if 'A' ≤ c ∧ c ≤ 'F' then some (c.toNat - 'A'.toNat + 10)
  else none

def unit? : List Char → Option (Nat × List Char)
  | a :: b :: c :: d :: cs => do
    let a ← hexValue? a
    let b ← hexValue? b
    let c ← hexValue? c
    let d ← hexValue? d
    pure (((a * 16 + b) * 16 + c) * 16 + d, cs)
  | _ => none

/--
The low half behind a high one, if one follows that the text does not end with.
-/
def lowHalf? : List Char → Option (Nat × List Char)
  | '\\' :: 'u' :: cs => (unit? cs).filter fun (unit, rest) => Text.isLowHalf unit && !rest.isEmpty
  | _ => none

abbrev Stuck : Type :=
  Complaint × List Char

/--
The code point that an escape denotes, from the character behind the backslash on. A half can lack
its other half.
-/
def escaped (cs : List Char) : Except (Option Stuck) (Nat × List Char) :=
  match cs with
  | [] => .error none
  | 'u' :: rest =>
    match unit? rest with
    | none | some (_, []) => .error (some (.unicodeEscape, cs))
    | some (unit, rest) =>
      if Text.isHighHalf unit then
        match lowHalf? rest with
        | some (low, rest) => .ok (Text.joinHalves unit low, rest)
        | none => .ok (unit, rest)
      else .ok (unit, rest)
  | c :: rest =>
    match [('"', '"'), ('\\', '\\'), ('/', '/'), ('b', '\x08'), ('f', '\x0c'), ('n', '\n'),
        ('r', '\r'), ('t', '\t')].lookup c with
    | some value => .ok (value.toNat, rest)
    | none => .error (some (.escape, '\\' :: cs))

def readText (opened : List Char)
    : (fuel : Nat) → (before : List Char) → List Char → Except Stuck (Text.Loose × List Char)
  | 0, _, _ => .error (.unterminated, opened)
  | fuel + 1, before, cs =>
    match cs with
    | [] => .error (.unterminated, opened)
    | '"' :: rest => .ok (⟨.ofList before.reverse, []⟩, rest)
    | '\\' :: rest =>
      match escaped rest with
      | .ok (point, rest) =>
        if Text.isHighHalf point || Text.isLowHalf point then do
          let (behind, rest) ← readText opened fuel [] rest
          pure (⟨.ofList before.reverse, (point, behind.start) :: behind.rest⟩, rest)
        else
          readText opened fuel (Char.ofNat point :: before) rest
      | .error fault => .error (fault.getD (.unterminated, opened))
    | c :: rest =>
      if c.toNat < 0x20 then .error (.control, cs)
      else readText opened fuel (c :: before) rest

def decimalValue (digits : List Char) : Nat :=
  digits.foldl (fun n digit => n * 10 + (digit.toNat - '0'.toNat)) 0

def exponent (cs : List Char) : Option Int × List Char :=
  match cs with
  | e :: rest =>
    let negative := rest.head? = some '-'
    let digits := if negative ∨ rest.head? = some '+' then rest.drop 1 else rest
    let size := digits.takeWhile Char.isDigit
    if (e = 'e' ∨ e = 'E') ∧ !size.isEmpty then
      let value : Int := decimalValue size
      (some (if negative then -value else value), digits.drop size.length)
    else
      (none, cs)
  | [] => (none, cs)

def readNumber (cs : List Char) : Except Stuck (Json × List Char) :=
  let negative := cs.head? = some '-'
  let unsigned := if negative then cs.drop 1 else cs
  let digits := unsigned.takeWhile Char.isDigit
  let digits := if digits.head? = some '0' then ['0'] else digits
  let rest := unsigned.drop digits.length
  let fraction :=
    match rest with
    | '.' :: rest => rest.takeWhile Char.isDigit
    | _ => []
  let rest := if fraction.isEmpty then rest else rest.drop (fraction.length + 1)
  let (exponent, rest) := exponent rest
  if digits.isEmpty then
    .error (.value, cs)
  else if fraction.isEmpty ∧ exponent.isNone then
    if Text.longestNumeral < digits.length then
      .error (.longNumeral digits.length, cs)
    else
      let value : Int := decimalValue digits
      .ok (.whole (if negative then -value else value), rest)
  else
    let place := exponent.getD 0 - fraction.length
    .ok (.real (Decimal.ofDigits negative (decimalValue (digits ++ fraction)) place), rest)

def word? (cs : List Char) : Option (Json × List Char) :=
  [("null", null), ("true", bool true), ("false", bool false), ("NaN", real (0 / 0)),
    ("Infinity", real (1 / 0)), ("-Infinity", real (-1 / 0))].findSome? fun (name, value) =>
      if name.toList.isPrefixOf cs then some (value, cs.drop name.length) else none

def deepest : Nat :=
  990

structure Reader where
  size : Nat
  depth : Nat

namespace Reader

mutual

def value (reader : Reader) : (fuel : Nat) → List Char → Except Stuck (Json × List Char)
  | 0, cs => .error (.value, cs)
  | fuel + 1, cs =>
    let inner : Reader := { reader with depth := reader.depth + 1 }
    match cs with
    | '"' :: rest =>
      (readText cs (reader.size + 1) [] rest).map fun (read, rest) => (text read, rest)
    | '\x7b' :: rest =>
      if deepest ≤ reader.depth then
        .error (.tooDeep, cs)
      else
        match skip rest with
        | '\x7d' :: rest => .ok (object [], rest)
        | rest =>
          (members inner fuel rest).map fun (members, rest) =>
            (object (Table.latest (·.1) members), rest)
    | '[' :: rest =>
      if deepest ≤ reader.depth then
        .error (.tooDeep, cs)
      else
        match skip rest with
        | ']' :: rest => .ok (list [], rest)
        | rest => (items inner fuel rest).map fun (items, rest) => (list items, rest)
    | cs =>
      match word? cs with
      | some found => .ok found
      | none => readNumber cs

def items (reader : Reader) : (fuel : Nat) → List Char → Except Stuck (List Json × List Char)
  | 0, cs => .error (.value, cs)
  | fuel + 1, cs => do
    let (item, rest) ← value reader fuel cs
    match skip rest with
    | ']' :: rest => pure ([item], rest)
    | ',' :: rest =>
      let (more, rest) ← items reader fuel (skip rest)
      pure (item :: more, rest)
    | rest => throw (.comma, rest)

def members (reader : Reader) : (fuel : Nat) → List Char →
    Except Stuck (List (Text.Loose × Json) × List Char)
  | 0, cs => .error (.propertyName, cs)
  | fuel + 1, cs =>
    match cs with
    | '"' :: rest => do
      let (name, rest) ← readText cs (reader.size + 1) [] rest
      match skip rest with
      | ':' :: rest =>
        let (value, rest) ← value reader fuel (skip rest)
        match skip rest with
        | '\x7d' :: rest => pure ([(name, value)], rest)
        | ',' :: rest =>
          let (more, rest) ← members reader fuel (skip rest)
          pure ((name, value) :: more, rest)
        | rest => throw (.comma, rest)
      | rest => throw (.colon, rest)
    | cs => .error (.propertyName, cs)

end
end Reader

def read (source : List Char) : Except Fault Json :=
  let size := source.length
  let found : Except Stuck Json := do
    if source.head? = some '\uFEFF' then
      throw (.byteOrderMark, source)
    let (value, rest) ← Reader.value ⟨size, 0⟩ (2 * size + 2) (skip source)
    match skip rest with
    | [] => pure value
    | rest => throw (.extraData, rest)
  found.mapError fun (complaint, rest) => ⟨complaint, size - rest.length⟩

end Json
end MethodHistory
