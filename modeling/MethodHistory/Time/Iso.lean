import MethodHistory.Text.Quoted
import MethodHistory.Time.Instant

/-!
This module contains the written form of dates and times, and a reader that takes the written form
and several others: dates of months or of weeks, with and without separators, and times of one to
three fields with a fraction.
-/

namespace MethodHistory
namespace Iso

def padded (width n : Nat) : String :=
  let digits := toString n
  "".pushn '0' (width - digits.length) ++ digits

def fraction (microseconds : Nat) : String :=
  if microseconds = 0 then "" else "." ++ padded 6 microseconds

def ofDate (date : Date) : String :=
  padded 4 date.year ++ "-" ++ padded 2 date.month ++ "-" ++ padded 2 date.day

def ofClock (clock : Clock) : String :=
  padded 2 clock.hour ++ ":" ++ padded 2 clock.minute ++ ":" ++ padded 2 clock.second
    ++ fraction clock.microsecond

def ofOffset (offset : Offset) : String :=
  let size := offset.microseconds.natAbs
  let seconds := size / 1000000
  let rest := fraction (size % 1000000)
  (if offset.microseconds < 0 then "-" else "+")
    ++ padded 2 (seconds / 3600) ++ ":" ++ padded 2 (seconds / 60 % 60)
    ++ if seconds % 60 = 0 ∧ rest.isEmpty then "" else ":" ++ padded 2 (seconds % 60) ++ rest

end Iso

def Instant.toIso (instant : Instant) : String :=
  Iso.ofDate instant.date ++ "T" ++ Iso.ofClock instant.clock ++ Iso.ofOffset instant.offset

namespace Iso

def digits? (count : Nat) (cs : List Char) : Option (Nat × List Char) :=
  go count 0 cs
where
  go : Nat → Nat → List Char → Option (Nat × List Char)
    | 0, value, cs => some (value, cs)
    | count + 1, value, c :: cs =>
      if c.isDigit then go count (value * 10 + (c.toNat - '0'.toNat)) cs else none
    | _ + 1, _, [] => none

/--
How many characters belong to the date. The forms are told apart by their fifth and sixth
characters. Behind a week without a separator all fields of a time have two digits: an odd number of
digits means that the first one separates the date from the time, an even number that the first one
is the day of the week.
-/
def dateLength (cs : List Char) : Nat :=
  let isDigitAt (i : Nat) := cs[i]?.any Char.isDigit
  if cs.length = 7 then 7
  else if cs[4]? = some '-' then
    if cs[5]? = some 'W' then
      if cs[8]? = some '-' then
        if isDigitAt 10 then 8 else 10
      else 8
    else 10
  else if cs[4]? = some 'W' then
    let digits := ((cs.drop 7).takeWhile Char.isDigit).length
    if digits < 2 then 7 + digits else if digits % 2 = 1 then 7 else 8
  else 8

def separator? (used : Bool) (cs : List Char) : Option (List Char) :=
  if used then
    match cs with
    | '-' :: cs => some cs
    | _ => none
  else
    some cs

def date? (cs : List Char) : Option (Nat × Nat × Nat) := do
  let (year, cs) ← digits? 4 cs
  let separated := cs.head? = some '-'
  let cs ← separator? separated cs
  match cs with
  | 'W' :: cs =>
    let (week, cs) ← digits? 2 cs
    if cs.isEmpty then
      Calendar.ofWeek? year week 1
    else
      let cs ← separator? separated cs
      let (day, _) ← digits? 1 cs
      Calendar.ofWeek? year week day
  | cs =>
    let (month, cs) ← digits? 2 cs
    let cs ← separator? separated cs
    let (day, cs) ← digits? 2 cs
    if cs.isEmpty then some (year, month, day) else none

structure Fields where
  hour : Nat
  minute : Nat
  second : Nat
  microsecond : Nat
  complete : Bool

def isEnd (cs : List Char) : Bool :=
  cs.head?.all (· = '\x00')

def fraction? (cs : List Char) : Option (Nat × Bool) := do
  let width := min 6 cs.length
  let (value, cs) ← digits? width cs
  pure (value * Nat.pow 10 (6 - width), isEnd (cs.dropWhile Char.isDigit))

/--
Reads one to three fields of two digits, with colons between all of them or none, and a fraction
behind any of them. One ASCII character that is left behind a field is not looked at.
-/
def fields? (cs : List Char) : Option Fields :=
  go 3 none [] cs
where
  finish (values : List Nat) (microsecond : Nat) (complete : Bool) : Fields :=
    let values := values.reverse
    ⟨values.headD 0, values.tail.headD 0, values.tail.tail.headD 0, microsecond, complete⟩
  go (left : Nat) (colons : Option Bool) (values : List Nat) (cs : List Char) : Option Fields :=
    match left with
    | 0 => (fraction? cs).map fun (microsecond, complete) => finish values microsecond complete
    | left + 1 =>
      match digits? 2 cs with
      | none => none
      | some (value, []) => some (finish (value :: values) 0 true)
      | some (value, [c]) =>
        if c.utf8Size = 1 then some (finish (value :: values) 0 (isEnd [c])) else none
      | some (value, c :: d :: cs) =>
        let values := value :: values
        let colons := colons.getD (c = ':')
        if colons ∧ c = ':' then go left (some colons) values (d :: cs)
        else if c = '.' ∨ c = ',' then
          (fraction? (d :: cs)).map
            fun (microsecond, complete) => finish values microsecond complete
        else if colons then none
        else go left (some colons) values (c :: d :: cs)

def clock (fields : Fields) : Except DateFault Clock :=
  if h : fields.hour < 24 ∧ fields.minute < 60 ∧ fields.second < 60 ∧
      fields.microsecond < 1000000 then
    .ok ⟨fields.hour, fields.minute, fields.second, fields.microsecond, h⟩
  else if 24 ≤ fields.hour then .error .hour
  else if 60 ≤ fields.minute then .error .minute
  else .error .second

def offset (negative : Bool) (fields : Fields) : Except DateFault Offset :=
  let seconds := fields.hour * 3600 + fields.minute * 60 + fields.second
  let size := if seconds = 0 then 0 else seconds * 1000000 + fields.microsecond
  let signed : Int := if negative then -size else size
  if h : signed.natAbs < dayLength then .ok ⟨signed, h⟩ else .error (.offset signed)

def isSign (c : Char) : Bool :=
  c = '+' || c = '-'

def timeAndOffset (malformed : DateFault) (cs : List Char) : Except DateFault (Fields × Offset) :=
  match fields? (cs.takeWhile (!isSign ·)), cs.dropWhile (!isSign ·) with
  | none, _ => .error malformed
  | some time, [] => if time.complete then .ok (time, .universal) else .error malformed
  | some time, sign :: cs =>
    match fields? cs with
    | none => .error malformed
    | some fields =>
      if fields.complete then (offset (sign = '-') fields).map (time, ·) else .error malformed

def expandUniversal (cs : List Char) : List Char :=
  cs.flatMap fun c => if c = 'Z' then "+00:00".toList else [c]

end Iso

def Instant.ofIso (text : String) : Except DateFault Instant := do
  let cs := Iso.expandUniversal text.toList
  let malformed := DateFault.malformed (Text.Loose.ofText (.ofList cs))
  if cs.length < 7 then
    throw malformed
  let length := Iso.dateLength cs
  let some (year, month, day) := Iso.date? (cs.take length) | throw malformed
  match cs.drop length with
  | [] =>
    pure ⟨← Date.ofNumbers year month day, .midnight, .universal⟩
  | _ :: cs =>
    let (fields, offset) ← Iso.timeAndOffset malformed cs
    pure ⟨← Date.ofNumbers year month day, ← Iso.clock fields, offset⟩

def Instant.ofLoose (text : Text.Loose) : Except DateFault Instant :=
  let text := text.map fun part => .ofList (Iso.expandUniversal part.toList)
  let plain :=
    match text.rest with
    | [] => some text.start
    | [(_, time)] =>
      if [7, 8, 10].contains text.start.length then some (text.start ++ "T" ++ time) else none
    | _ => none
  match plain with
  | none => .error (.malformed text)
  | some plain =>
    (ofIso plain).mapError fun fault =>
      match fault with
      | .malformed _ => .malformed text
      | fault => fault

namespace DateFault

def duration (microseconds : Int) : String :=
  let days := microseconds / dayLength
  let rest := microseconds % dayLength
  let parts := [("days", days), ("seconds", rest / 1000000), ("microseconds", rest % 1000000)]
  "datetime.timedelta("
    ++ ", ".intercalate ((parts.filter (·.2 ≠ 0)).map fun (name, n) => name ++ "=" ++ toString n)
    ++ ")"

def message : DateFault → String
  | malformed text => "Invalid isoformat string: " ++ text.quoted
  | offset microseconds =>
    "offset must be a timedelta strictly between -timedelta(hours=24) and timedelta(hours=24), not "
      ++ duration microseconds ++ "."
  | year value => "year " ++ toString value ++ " is out of range"
  | month => "month must be in 1..12"
  | day => "day is out of range for month"
  | hour => "hour must be in 0..23"
  | minute => "minute must be in 0..59"
  | second => "second must be in 0..59"

end DateFault
end MethodHistory
