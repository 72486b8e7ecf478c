import MethodHistory.Time.Calendar

/-!
This module contains local dates and times with their offset from universal time. They keep the
offset that they were given and are compared as instants.
-/

namespace MethodHistory

structure Clock where
  hour : Nat
  minute : Nat
  second : Nat
  microsecond : Nat
  valid : hour < 24 ∧ minute < 60 ∧ second < 60 ∧ microsecond < 1000000 := by decide
  deriving DecidableEq

namespace Clock

def midnight : Clock :=
  ⟨0, 0, 0, 0, by decide⟩

def microseconds (clock : Clock) : Nat :=
  ((clock.hour * 60 + clock.minute) * 60 + clock.second) * 1000000 + clock.microsecond

end Clock

def dayLength : Nat :=
  86400000000

structure Offset where
  microseconds : Int
  valid : microseconds.natAbs < dayLength := by decide
  deriving DecidableEq

def Offset.universal : Offset :=
  ⟨0, by decide⟩

structure Instant where
  date : Date
  clock : Clock
  offset : Offset
  deriving DecidableEq

namespace Instant

def place (instant : Instant) : Int :=
  instant.date.number * dayLength + instant.clock.microseconds - instant.offset.microseconds

instance : LE Instant where
  le a b := a.place ≤ b.place

instance : LT Instant where
  lt a b := a.place < b.place

instance (a b : Instant) : Decidable (a ≤ b) :=
  inferInstanceAs (Decidable (a.place ≤ b.place))

instance (a b : Instant) : Decidable (a < b) :=
  inferInstanceAs (Decidable (a.place < b.place))

def first : Instant :=
  ⟨⟨1, 1, 1, by decide⟩, .midnight, .universal⟩

def last : Instant :=
  ⟨⟨9999, 12, 31, by decide⟩, ⟨23, 59, 59, 999999, by decide⟩, .universal⟩

end Instant
end MethodHistory
