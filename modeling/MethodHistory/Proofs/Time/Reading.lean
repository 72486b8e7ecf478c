import MethodHistory.Change.Record
import MethodHistory.Settings.Basic
import Mathlib.Algebra.Group.Nat.Defs
import Mathlib.Data.List.TakeWhile

/-!
This module contains the reading of written dates and times: the reader takes every field from the
digits that it was written with, so that an instant comes back with its local date and time and with
its offset.
-/

namespace MethodHistory
namespace Iso

/-! Numbers of a fixed width -/

structure Shows (width n : Nat) (cs : List Char) : Prop where
  length_eq : cs.length = width
  isDigit : ∀ c ∈ cs, c.isDigit
  value_eq : Nat.ofDigitChars 10 cs 0 = n

theorem toList_pushn (text : String) (c : Char) (n : Nat)
    : (text.pushn c n).toList = text.toList ++ List.replicate n c := by
  rw [String.pushn_eq_repeat_push]
  induction n with
  | zero => exact (List.append_nil _).symm
  | succ n ih =>
    rw [Nat.repeat, String.toList_push, ih, List.replicate_succ', List.append_assoc]

theorem toList_padded (width n : Nat)
    : (padded width n).toList
        =
      List.replicate (width - (Nat.toDigits 10 n).length) '0' ++ Nat.toDigits 10 n := by
  rw [padded, String.toList_append, toList_pushn, Nat.toString_eq_ofList_toDigits,
    String.toList_empty, List.nil_append, String.toList_ofList, String.length_ofList]

theorem isDigit_of_mem_padded {width n : Nat} {c : Char} (h : c ∈ (padded width n).toList)
    : c.isDigit := by
  rw [toList_padded] at h
  rcases List.mem_append.1 h with hzero | hdigit
  . rw [List.eq_of_mem_replicate hzero]
    rfl
  . exact Nat.isDigit_of_mem_toDigits (by decide) (by decide) hdigit

theorem shows_padded {width n : Nat} (hwidth : 0 < width) (h : n < 10 ^ width)
    : Shows width n (padded width n).toList := by
  have hlength : (Nat.toDigits 10 n).length ≤ width :=
    (Nat.length_toDigits_le_iff (by decide) hwidth).2 h
  refine ⟨?_, fun c => isDigit_of_mem_padded, ?_⟩
  . rw [toList_padded, List.length_append, List.length_replicate, Nat.sub_add_cancel hlength]
  . rw [toList_padded, Nat.ofDigitChars_append, Nat.ofDigitChars_replicate_zero, Nat.mul_zero,
      Nat.ofDigitChars_ten_toDigits]

namespace Shows

variable {width n : Nat} {cs rest : List Char}

theorem ne_nil (h : Shows width n cs) (hwidth : 0 < width) : cs ≠ [] := by
  rintro rfl
  exact absurd hwidth (h.length_eq ▸ Nat.lt_irrefl _)

theorem not_mem (h : Shows width n cs) {c : Char} (hc : c.isDigit = false) : c ∉ cs := by
  intro hmem
  rw [h.isDigit c hmem] at hc
  contradiction

theorem exists_eq_cons (h : Shows width n cs) (hwidth : 0 < width)
    : ∃ c rest, cs = c :: rest ∧ c ≠ 'W' := by
  obtain ⟨c, rest, rfl⟩ := List.exists_cons_of_ne_nil (h.ne_nil hwidth)
  refine ⟨c, rest, rfl, ?_⟩
  rintro rfl
  exact h.not_mem (by decide) List.mem_cons_self

theorem digits?_append (h : Shows width n cs) (rest : List Char)
    : digits? width (cs ++ rest) = some (n, rest) := by
  have hgo (value : Nat) (hdigit : ∀ c ∈ cs, c.isDigit)
      : digits?.go cs.length value (cs ++ rest) = some (Nat.ofDigitChars 10 cs value, rest) := by
    clear h
    induction cs generalizing value with
    | nil => rfl
    | cons c cs ih =>
      rw [List.forall_mem_cons] at hdigit
      rw [List.length_cons, List.cons_append, digits?.go, if_pos hdigit.1, ih _ hdigit.2,
        Nat.ofDigitChars_cons, Nat.mul_comm]
  rw [digits?, ← h.length_eq, hgo 0 h.isDigit, h.value_eq]

theorem digits?_eq (h : Shows width n cs) : digits? width cs = some (n, []) := by
  have := h.digits?_append []
  rwa [List.append_nil] at this

end Shows

/-! Dates -/

variable {year month day hour minute second microsecond : Nat}
variable {Y M D H N S F : List Char}

theorem date?_append (hY : Shows 4 year Y) (hM : Shows 2 month M) (hD : Shows 2 day D)
    : date? (Y ++ '-' :: (M ++ '-' :: D)) = some (year, month, day) := by
  have hmonth := hM.digits?_append ('-' :: D)
  obtain ⟨m, M, rfl, hweek⟩ := hM.exists_eq_cons (by decide)
  simp only [date?, hY.digits?_append, Option.bind_eq_bind, Option.bind_some, List.head?_cons,
    separator?, decide_true, if_true]
  split
  next heq =>
    obtain ⟨rfl, -⟩ := List.cons.inj heq
    contradiction
  next =>
    simp only [hmonth, hD.digits?_eq, Option.bind_some, List.isEmpty_nil, if_true]

theorem dateLength_append (hY : Shows 4 year Y) (hM : Shows 2 month M) (rest : List Char)
    (hrest : 3 ≤ rest.length) : dateLength (Y ++ '-' :: (M ++ rest)) = 10 := by
  obtain ⟨m, M, rfl, hweek⟩ := hM.exists_eq_cons (by decide)
  have hlength : (Y ++ '-' :: (m :: M ++ rest)).length = 4 + (2 + rest.length + 1) := by
    rw [List.length_append, List.length_cons, List.length_append, hY.length_eq, hM.length_eq]
  have hseparator : (Y ++ '-' :: (m :: M ++ rest))[4]? = some '-' := by
    rw [List.getElem?_append_right hY.length_eq.le, hY.length_eq]
    rfl
  have hmonth : (Y ++ '-' :: (m :: M ++ rest))[5]? = some m := by
    rw [List.getElem?_append_right (by rw [hY.length_eq]; decide), hY.length_eq]
    rfl
  rw [dateLength, if_neg (by rw [hlength]; omega), if_pos hseparator, hmonth,
    if_neg (mt Option.some.inj hweek)]

/-! Times -/

theorem go_colon (left : Nat) {colons : Option Bool} (hcolons : colons ≠ some false)
    (values : List Nat) {n : Nat} {cs rest : List Char} (h : Shows 2 n cs) (hrest : rest ≠ [])
    : fields?.go (left + 1) colons values (cs ++ ':' :: rest)
        =
      fields?.go left (some true) (n :: values) rest := by
  obtain ⟨d, rest, rfl⟩ := List.exists_cons_of_ne_nil hrest
  rw [fields?.go, h.digits?_append]
  match colons with
  | none | some true => rfl
  | some false => contradiction

theorem go_last (left : Nat) (colons : Option Bool) (values : List Nat) {n : Nat} {cs : List Char}
    (h : Shows 2 n cs)
    : fields?.go (left + 1) colons values cs = some (fields?.finish (n :: values) 0 true) := by
  rw [fields?.go, h.digits?_eq]

theorem go_fraction (left : Nat) (values : List Nat) {n : Nat} {cs : List Char}
    (h : Shows 2 n cs) (hF : Shows 6 microsecond F)
    : fields?.go (left + 1) (some true) values (cs ++ '.' :: F)
        =
      some (fields?.finish (n :: values) microsecond true) := by
  have hfraction : fraction? F = some (microsecond, true) := by
    rw [fraction?, hF.length_eq, Nat.min_self, hF.digits?_eq]
    simp [isEnd]
  obtain ⟨d, F, rfl⟩ := List.exists_cons_of_ne_nil (hF.ne_nil (by decide))
  rw [fields?.go, h.digits?_append]
  simp [hfraction]

theorem go_seconds (left : Nat) (values : List Nat) {n : Nat} {cs : List Char} (h : Shows 2 n cs)
    (hmicrosecond : microsecond < 1000000)
    : fields?.go (left + 1) (some true) values (cs ++ (fraction microsecond).toList)
        =
      some (fields?.finish (n :: values) microsecond true) := by
  rw [fraction]
  split
  next hzero =>
    rw [String.toList_empty, List.append_nil, go_last left (some true) values h, hzero]
  next =>
    have hF : Shows 6 microsecond (padded 6 microsecond).toList :=
      shows_padded (by decide) hmicrosecond
    rw [String.toList_append]
    exact go_fraction left values h hF

theorem fields?_short (hH : Shows 2 hour H) (hN : Shows 2 minute N)
    : fields? (H ++ ':' :: N) = some ⟨hour, minute, 0, 0, true⟩ := by
  rw [fields?, go_colon 2 (by decide) [] hH (hN.ne_nil (by decide)), go_last 1 _ _ hN]
  rfl

theorem fields?_full (hH : Shows 2 hour H) (hN : Shows 2 minute N) (hS : Shows 2 second S)
    (hmicrosecond : microsecond < 1000000)
    : fields? (H ++ ':' :: (N ++ ':' :: (S ++ (fraction microsecond).toList)))
        =
      some ⟨hour, minute, second, microsecond, true⟩ := by
  have hseconds : S ++ (fraction microsecond).toList ≠ [] :=
    List.append_ne_nil_of_left_ne_nil (hS.ne_nil (by decide)) _
  rw [fields?, go_colon 2 (by decide) [] hH (List.append_ne_nil_of_right_ne_nil _ (by simp)),
    go_colon 1 (by decide) _ hN hseconds, go_seconds 0 _ hS hmicrosecond]
  rfl

theorem fields?_ofClock (clock : Clock)
    : fields? (ofClock clock).toList
        =
      some ⟨clock.hour, clock.minute, clock.second, clock.microsecond, true⟩ := by
  obtain ⟨hhour, hminute, hsecond, hmicrosecond⟩ := clock.valid
  have htext : (ofClock clock).toList
      = (padded 2 clock.hour).toList ++ ':' :: ((padded 2 clock.minute).toList
        ++ ':' :: ((padded 2 clock.second).toList ++ (fraction clock.microsecond).toList)) := by
    simp [ofClock]
  rw [htext]
  exact fields?_full (shows_padded (by decide) (by omega)) (shows_padded (by decide) (by omega))
    (shows_padded (by decide) (by omega)) hmicrosecond

theorem clock_eq (clock : Clock)
    : Iso.clock ⟨clock.hour, clock.minute, clock.second, clock.microsecond, true⟩ = .ok clock :=
  dif_pos clock.valid

/-! Offsets -/

def fieldsOf (offset : Offset) : Fields :=
  let size := offset.microseconds.natAbs
  ⟨size / 1000000 / 3600, size / 1000000 / 60 % 60, size / 1000000 % 60, size % 1000000, true⟩

def signOf (offset : Offset) : Char :=
  if offset.microseconds < 0 then '-' else '+'

def ofFields (fields : Fields) : String :=
  padded 2 fields.hour ++ ":" ++ padded 2 fields.minute
    ++ if fields.second = 0 ∧ (fraction fields.microsecond).isEmpty then ""
      else ":" ++ padded 2 fields.second ++ fraction fields.microsecond

theorem toList_ofOffset (offset : Offset)
    : (ofOffset offset).toList = signOf offset :: (ofFields (fieldsOf offset)).toList := by
  have hsign
      : (if offset.microseconds < 0 then "-" else "+" : String).toList = [signOf offset] := by
    rw [signOf]
    split <;> rfl
  simp only [ofOffset, ofFields, fieldsOf, String.toList_append, List.append_assoc, hsign,
    List.nil_append, List.cons_append]
  rfl

theorem isEmpty_fraction_iff : (fraction microsecond).isEmpty ↔ microsecond = 0 := by
  rw [fraction, String.isEmpty_iff]
  split
  next h => exact iff_of_true rfl h
  next h => exact iff_of_false (by simp) h

theorem fields?_ofFields {fields : Fields} (hhour : fields.hour < 100)
    (hminute : fields.minute < 100) (hsecond : fields.second < 100)
    (hmicrosecond : fields.microsecond < 1000000) (hcomplete : fields.complete)
    : fields? (ofFields fields).toList = some fields := by
  obtain ⟨hour, minute, second, microsecond, complete⟩ := fields
  obtain rfl : complete = true := hcomplete
  have hH : Shows 2 hour (padded 2 hour).toList := shows_padded (by decide) hhour
  have hN : Shows 2 minute (padded 2 minute).toList := shows_padded (by decide) hminute
  have hS : Shows 2 second (padded 2 second).toList := shows_padded (by decide) hsecond
  simp only [ofFields, isEmpty_fraction_iff]
  split
  next hshort =>
    obtain ⟨rfl, rfl⟩ := hshort
    simpa using fields?_short hH hN
  next => simpa using fields?_full hH hN hS hmicrosecond

def told (offset : Offset) : Offset :=
  if offset.microseconds.natAbs < 1000000 then .universal else offset

theorem microseconds_told (offset : Offset)
    : (told offset).microseconds
        =
      if offset.microseconds.natAbs < 1000000 then 0 else offset.microseconds := by
  rw [told]
  split <;> rfl

theorem fields?_fieldsOf (offset : Offset)
    : fields? (ofFields (fieldsOf offset)).toList = some (fieldsOf offset) := by
  have hsize := offset.valid
  rw [dayLength] at hsize
  have hbounds : (fieldsOf offset).hour < 100 ∧ (fieldsOf offset).minute < 100
      ∧ (fieldsOf offset).second < 100 ∧ (fieldsOf offset).microsecond < 1000000 := by
    simp only [fieldsOf]
    omega
  exact fields?_ofFields hbounds.1 hbounds.2.1 hbounds.2.2.1 hbounds.2.2.2 rfl

theorem offset_eq_ok {negative : Bool} {fields : Fields} {seconds size : Nat} {offset : Offset}
    (hseconds : fields.hour * 3600 + fields.minute * 60 + fields.second = seconds)
    (hsize : (if seconds = 0 then 0 else seconds * 1000000 + fields.microsecond) = size)
    (hsigned : (if negative then -size else size : Int) = offset.microseconds)
    : Iso.offset negative fields = .ok offset := by
  subst hseconds hsize
  obtain ⟨microseconds, hvalid⟩ := offset
  obtain rfl := hsigned
  exact dif_pos hvalid

theorem offset_fieldsOf (offset : Offset)
    : Iso.offset (signOf offset = '-') (fieldsOf offset) = .ok (told offset) := by
  have hseconds : (fieldsOf offset).hour * 3600 + (fieldsOf offset).minute * 60
      + (fieldsOf offset).second = offset.microseconds.natAbs / 1000000 := by
    simp only [fieldsOf]
    omega
  have hmicrosecond : (fieldsOf offset).microsecond = offset.microseconds.natAbs % 1000000 := rfl
  have hsign : signOf offset = '-' ↔ offset.microseconds < 0 := by
    rw [signOf]
    split
    next h => exact iff_of_true rfl h
    next h => exact iff_of_false (by decide) h
  refine offset_eq_ok hseconds rfl ?_
  simp only [hsign, hmicrosecond, decide_eq_true_eq, microseconds_told]
  split <;> split <;> split <;> omega

/-! Characters -/

def IsMadeOf (marks : List Char) (text : String) : Prop :=
  ∀ c ∈ text.toList, c.isDigit ∨ c ∈ marks

namespace IsMadeOf

variable {marks : List Char} {one other : String}

theorem append (hone : IsMadeOf marks one) (hother : IsMadeOf marks other)
    : IsMadeOf marks (one ++ other) := by
  intro c hc
  rw [String.toList_append, List.mem_append] at hc
  exact hc.elim (hone c) (hother c)

theorem padded (width n : Nat) : IsMadeOf marks (padded width n) :=
  fun _ hc => .inl (isDigit_of_mem_padded hc)

theorem not_mem (h : IsMadeOf marks one) {c : Char} (hdigit : c.isDigit = false) (hc : c ∉ marks)
    : c ∉ one.toList := by
  intro hmem
  rcases h c hmem with hdigit' | hmark
  . rw [hdigit] at hdigit'
    contradiction
  . exact hc hmark

end IsMadeOf

theorem isMadeOf_fraction (microsecond : Nat) : IsMadeOf [':', '.'] (fraction microsecond) := by
  have hpoint : IsMadeOf [':', '.'] "." := by
    simp [IsMadeOf]
  rw [fraction]
  split
  next => simp [IsMadeOf]
  next => exact hpoint.append (.padded 6 microsecond)

theorem isMadeOf_ofClock (clock : Clock) : IsMadeOf [':', '.'] (ofClock clock) := by
  have hcolon : IsMadeOf [':', '.'] ":" := by
    simp [IsMadeOf]
  exact (((((IsMadeOf.padded 2 _).append hcolon).append (.padded 2 _)).append hcolon).append
    (.padded 2 _)).append (isMadeOf_fraction _)

theorem isMadeOf_ofFields (fields : Fields) : IsMadeOf [':', '.'] (ofFields fields) := by
  have hcolon : IsMadeOf [':', '.'] ":" := by
    simp [IsMadeOf]
  have hminutes := ((IsMadeOf.padded 2 fields.hour).append hcolon).append (.padded 2 fields.minute)
  rw [ofFields]
  split
  next => exact hminutes.append (by simp [IsMadeOf])
  next =>
    exact hminutes.append ((hcolon.append (.padded 2 _)).append (isMadeOf_fraction _))

theorem isMadeOf_ofDate (date : Date) : IsMadeOf ['-'] (ofDate date) := by
  have hdash : IsMadeOf ['-'] "-" := by
    simp [IsMadeOf]
  exact (((((IsMadeOf.padded 4 _).append hdash).append (.padded 2 _)).append hdash).append
    (.padded 2 _))

/-! Instants -/

theorem toList_toIso (instant : Instant)
    : instant.toIso.toList
        =
      (ofDate instant.date).toList
        ++ 'T' :: ((ofClock instant.clock).toList ++ (ofOffset instant.offset).toList) := by
  simp [Instant.toIso]

theorem expandUniversal_of_not_mem {cs : List Char} (h : 'Z' ∉ cs) : expandUniversal cs = cs := by
  induction cs with
  | nil => rfl
  | cons c cs ih =>
    rw [List.mem_cons, not_or] at h
    rw [expandUniversal, List.flatMap_cons, if_neg (Ne.symm h.1)]
    exact congrArg (c :: ·) (ih h.2)

theorem expandUniversal_toIso (instant : Instant)
    : expandUniversal instant.toIso.toList = instant.toIso.toList := by
  have hdate := (isMadeOf_ofDate instant.date).not_mem (c := 'Z') (by decide) (by decide)
  have hclock := (isMadeOf_ofClock instant.clock).not_mem (c := 'Z') (by decide) (by decide)
  have hoffset := (isMadeOf_ofFields (fieldsOf instant.offset)).not_mem (c := 'Z') (by decide)
    (by decide)
  have hsign : 'Z' ≠ signOf instant.offset := by
    rw [signOf]
    split <;> decide
  apply expandUniversal_of_not_mem
  rw [toList_toIso, toList_ofOffset]
  simp [hdate, hclock, hoffset, hsign]

theorem shows_date (date : Date)
    : Shows 4 date.year (padded 4 date.year).toList
      ∧ Shows 2 date.month (padded 2 date.month).toList
      ∧ Shows 2 date.day (padded 2 date.day).toList := by
  obtain ⟨-, hyear, -, hmonth, -, hday⟩ := date.valid
  have hdays : Calendar.daysInMonth date.year date.month ≤ 31 := by
    rw [Calendar.daysInMonth]
    split
    . split <;> decide
    . split <;> decide
  exact ⟨shows_padded (by decide) (by omega), shows_padded (by decide) (by omega),
    shows_padded (by decide) (by omega)⟩

theorem toList_ofDate (date : Date)
    : (ofDate date).toList
        =
      (padded 4 date.year).toList
        ++ '-' :: ((padded 2 date.month).toList ++ '-' :: (padded 2 date.day).toList) := by
  simp [ofDate]

theorem timeAndOffset_toIso (instant : Instant) (malformed : DateFault)
    : timeAndOffset malformed ((ofClock instant.clock).toList ++ (ofOffset instant.offset).toList)
        =
      .ok (⟨instant.clock.hour, instant.clock.minute, instant.clock.second,
        instant.clock.microsecond, true⟩, told instant.offset) := by
  have hplus := (isMadeOf_ofClock instant.clock).not_mem (c := '+') (by decide) (by decide)
  have hminus := (isMadeOf_ofClock instant.clock).not_mem (c := '-') (by decide) (by decide)
  have hall : ∀ c ∈ (ofClock instant.clock).toList, !isSign c := by
    intro c hc
    have hne : c ≠ '+' ∧ c ≠ '-' :=
      ⟨fun heq => hplus (heq ▸ hc), fun heq => hminus (heq ▸ hc)⟩
    simp [isSign, hne]
  have hsign : isSign (signOf instant.offset) := by
    rw [signOf]
    split <;> decide
  rw [toList_ofOffset, timeAndOffset, List.takeWhile_append_of_pos hall,
    List.takeWhile_cons_of_neg (by simp [hsign]), List.dropWhile_append_of_pos hall,
    List.dropWhile_cons_of_neg (by simp [hsign]), List.append_nil, fields?_ofClock]
  have hcomplete : (fieldsOf instant.offset).complete := rfl
  simp only [fields?_fieldsOf, if_pos hcomplete, offset_fieldsOf]
  rfl

end Iso

namespace Instant

theorem ofIso_toIso (instant : Instant)
    : ofIso instant.toIso = .ok { instant with offset := Iso.told instant.offset } := by
  obtain ⟨hY, hM, hD⟩ := Iso.shows_date instant.date
  have hlength : (Iso.ofDate instant.date).toList.length = 10 := by
    rw [Iso.toList_ofDate]
    simp [hY.length_eq, hM.length_eq, hD.length_eq]
  have hdateLength : Iso.dateLength instant.toIso.toList = 10 := by
    rw [Iso.toList_toIso, Iso.toList_ofDate, List.append_assoc, List.cons_append, List.append_assoc]
    exact Iso.dateLength_append hY hM _ (by simp [hD.length_eq])
  have htake : instant.toIso.toList.take 10 = (Iso.ofDate instant.date).toList := by
    rw [Iso.toList_toIso, ← hlength, List.take_left]
  have hdrop : instant.toIso.toList.drop 10
      = 'T' :: ((Iso.ofClock instant.clock).toList ++ (Iso.ofOffset instant.offset).toList) := by
    rw [Iso.toList_toIso, ← hlength, List.drop_left]
  have hshort : ¬instant.toIso.toList.length < 7 := by
    rw [Iso.toList_toIso, List.length_append, hlength]
    omega
  have hdate : Iso.date? (Iso.ofDate instant.date).toList
      = some (instant.date.year, instant.date.month, instant.date.day) := by
    rw [Iso.toList_ofDate]
    exact Iso.date?_append hY hM hD
  have hnumbers : Date.ofNumbers instant.date.year instant.date.month instant.date.day
      = .ok instant.date := dif_pos instant.date.valid
  rw [ofIso]
  simp only [Iso.expandUniversal_toIso, if_neg hshort, hdateLength, htake, hdrop, hdate,
    Iso.timeAndOffset_toIso, hnumbers, bind, Except.bind, Iso.clock_eq]
  rfl

theorem ofLoose_toIso (instant : Instant)
    : ofLoose (.ofText instant.toIso) = .ok { instant with offset := Iso.told instant.offset } := by
  have hmap : (Text.Loose.ofText instant.toIso).map
      (fun part => .ofList (Iso.expandUniversal part.toList)) = .ofText instant.toIso := by
    rw [Text.Loose.map, Text.Loose.ofText, Iso.expandUniversal_toIso, String.ofList_toList]
    rfl
  rw [ofLoose, hmap]
  simp only [Text.Loose.ofText, ofIso_toIso]
  rfl

end Instant

/-! The dates of records -/

/--
Whether a reader sees all of an offset, which holds for those of whole seconds.
-/
def Offset.IsLegible (offset : Offset) : Prop :=
  offset.microseconds.natAbs < 1000000 → offset.microseconds = 0

instance (offset : Offset) : Decidable offset.IsLegible :=
  inferInstanceAs (Decidable (_ → _))

theorem Iso.told_eq_iff {offset : Offset} : told offset = offset ↔ offset.IsLegible := by
  rw [told, Offset.IsLegible]
  split
  next h =>
    obtain ⟨microseconds, hvalid⟩ := offset
    simp [Offset.universal, h, eq_comm]
  next h => simp [h]

namespace Record

def dates (record : Record) : List (String × Instant) :=
  [("date", record.commit.date), ("date_min", record.dateMin), ("date_max", record.dateMax)]

theorem lookup_date {record : Record} {name : String} {instant : Instant}
    (h : (name, instant) ∈ record.dates)
    : record.fields.lookup name = some (.text instant.toIso) := by
  simp only [dates, List.mem_cons, Prod.mk.injEq, List.not_mem_nil, or_false] at h
  rcases h with ⟨rfl, rfl⟩ | ⟨rfl, rfl⟩ | ⟨rfl, rfl⟩ <;> rfl

/--
Each date that a record writes is read back as the instant that it was, with the same local date and
time and the same offset, and so it bounds the same window when it is given as the first date.
-/
theorem written_dates_read_back {record : Record} {name : String} {instant : Instant}
    (hdate : (name, instant) ∈ record.dates) (hoffset : instant.offset.IsLegible)
    : ∃ text : String, record.fields.lookup name = some (.text text)
        ∧ Instant.ofIso text = .ok instant
        ∧ ∀ values, Json.lookup "since" values = some (.text text) →
            Settings.Values.since values = .ok (.read instant) := by
  have htold := Iso.told_eq_iff.2 hoffset
  refine ⟨instant.toIso, lookup_date hdate, ?_, ?_⟩
  . rw [Instant.ofIso_toIso, htold]
  . intro values hlookup
    have hvalue : Settings.Values.value values "since" .null = .text instant.toIso := by
      rw [Settings.Values.value, hlookup]
      rfl
    have hempty : (Text.Loose.ofText instant.toIso).isEmpty = false := by
      rw [Text.Loose.isEmpty, Text.Loose.ofText, Bool.and_eq_false_iff, Bool.eq_false_iff, ne_eq,
        String.isEmpty_iff, ← String.toList_inj, Iso.toList_toIso]
      simp
    rw [Settings.Values.since, hvalue]
    simp only [hempty, Instant.ofLoose_toIso, htold]
    rfl

def ancient : Record :=
  { event := ⟨.statementDelete, some "A.m()", some "A.java", none, none, some "f();", none⟩
    commit :=
      { id := some "c1"
        author := none
        email := none
        date := ⟨⟨987, 6, 5, by decide⟩, ⟨4, 3, 2, 120, by decide⟩, ⟨-17762000000, by decide⟩⟩
        message := none }
    project := .text "annals"
    dateMin := .first
    dateMax := .last }

example : ancient.commit.date.toIso = "0987-06-05T04:03:02.000120-04:56:02" := by
  decide +kernel

theorem ancient_date_reads_back
    : ("date", ancient.commit.date) ∈ ancient.dates ∧ ancient.commit.date.offset.IsLegible
        ∧ ∃ text : String, ancient.fields.lookup "date" = some (.text text)
          ∧ Instant.ofIso text = .ok ancient.commit.date
          ∧ ∀ values, Json.lookup "since" values = some (.text text) →
              Settings.Values.since values = .ok (.read ancient.commit.date) := by
  have hdate : ("date", ancient.commit.date) ∈ ancient.dates := List.mem_cons_self
  have hoffset : ancient.commit.date.offset.IsLegible := by
    decide
  exact ⟨hdate, hoffset, written_dates_read_back hdate hoffset⟩

end Record
end MethodHistory
