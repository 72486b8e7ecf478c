import MethodHistory.Json.Reader
import MethodHistory.Json.Written
import Mathlib.Data.List.Nodup

/-!
This module contains the reading of objects that were written: an object whose members are texts and
nulls is read as itself from printable ASCII characters, whatever characters its texts have.
-/

namespace MethodHistory

namespace Json

/-! Printable ASCII characters -/

def IsPrintable (c : Char) : Prop :=
  0x20 ≤ c.toNat ∧ c.toNat < 0x80

instance (c : Char) : Decidable (IsPrintable c) :=
  inferInstanceAs (Decidable (_ ∧ _))

theorem isPrintable_hexDigits (width n : Nat) : ∀ c ∈ Text.hexDigits width n, IsPrintable c := by
  have hdigit : ∀ n < 16, IsPrintable (Text.hexDigit n) := by
    decide
  induction width generalizing n with
  | zero => exact List.forall_mem_nil _
  | succ width ih =>
    rw [Text.hexDigits, List.forall_mem_append]
    refine ⟨ih (n / 16), ?_⟩
    rw [List.forall_mem_singleton]
    exact hdigit _ (Nat.mod_lt n (by decide))

theorem isPrintable_unit (unit : Nat) : ∀ c ∈ 'u' :: Text.hexDigits 4 unit, IsPrintable c := by
  rw [List.forall_mem_cons]
  exact ⟨by decide, isPrintable_hexDigits 4 unit⟩

theorem isPrintable_unitEscape (unit : Nat) : ∀ c ∈ unitEscape unit, IsPrintable c := by
  rw [unitEscape, List.forall_mem_cons]
  exact ⟨by decide, isPrintable_unit unit⟩

/-! Code units -/

theorem hexValue?_hexDigit {n : Nat} (h : n < 16) : hexValue? (Text.hexDigit n) = some n := by
  have hall : ∀ n < 16, hexValue? (Text.hexDigit n) = some n := by
    decide
  exact hall n h

theorem unit?_hexDigits {unit : Nat} (h : unit < 0x10000) (rest : List Char)
    : unit? (Text.hexDigits 4 unit ++ rest) = some (unit, rest) := by
  have hdigit (n : Nat) : hexValue? (Text.hexDigit (n % 16)) = some (n % 16) :=
    hexValue?_hexDigit (Nat.mod_lt n (by decide))
  have hunit : ((unit / 16 / 16 / 16 % 16 * 16 + unit / 16 / 16 % 16) * 16 + unit / 16 % 16) * 16
      + unit % 16 = unit := by
    omega
  change unit? (Text.hexDigit (unit / 16 / 16 / 16 % 16) :: Text.hexDigit (unit / 16 / 16 % 16)
    :: Text.hexDigit (unit / 16 % 16) :: Text.hexDigit (unit % 16) :: rest) = _
  rw [unit?, hdigit, hdigit, hdigit, hdigit]
  change some (((_ * 16 + _) * 16 + _) * 16 + _, rest) = _
  rw [hunit]

theorem lowHalf?_unitEscape {unit : Nat} (h : unit < 0x10000) (hlow : Text.isLowHalf unit)
    {rest : List Char} (hrest : rest ≠ [])
    : lowHalf? (unitEscape unit ++ rest) = some (unit, rest) := by
  rw [unitEscape, List.cons_append, List.cons_append, lowHalf?, unit?_hexDigits h]
  simp [hlow, hrest]

/-! Characters -/

theorem toNat_lt (c : Char) : c.toNat < 0xD800 ∨ 0xDFFF < c.toNat ∧ c.toNat < 0x110000 :=
  c.valid

theorem not_isHighHalf (c : Char) : ¬Text.isHighHalf c.toNat := by
  have hvalid := toNat_lt c
  simp [Text.isHighHalf]
  omega

theorem not_isLowHalf (c : Char) : ¬Text.isLowHalf c.toNat := by
  have hvalid := toNat_lt c
  simp [Text.isLowHalf]
  omega

theorem readText_of_escaped {cs rest : List Char} {c : Char} (h : escaped cs = .ok (c.toNat, rest))
    (opened : List Char) (fuel : Nat) (before : List Char)
    : readText opened (fuel + 1) before ('\\' :: cs) = readText opened fuel (c :: before) rest := by
  rw [readText, h]
  dsimp only
  rw [if_neg (by simp [not_isHighHalf, not_isLowHalf]), Char.ofNat_toNat]

theorem escaped_unit {c : Char} (h : c.toNat < 0x10000) {rest : List Char} (hrest : rest ≠ [])
    : escaped ('u' :: (Text.hexDigits 4 c.toNat ++ rest)) = .ok (c.toNat, rest) := by
  obtain ⟨d, rest, rfl⟩ := List.exists_cons_of_ne_nil hrest
  rw [escaped, unit?_hexDigits h]
  change (if Text.isHighHalf c.toNat then _ else _) = _
  rw [if_neg (not_isHighHalf c)]

theorem escaped_pair {high low : Nat} (hhigh : Text.isHighHalf high) (hlow : Text.isLowHalf low)
    {rest : List Char} (hrest : rest ≠ [])
    : escaped ('u' :: (Text.hexDigits 4 high ++ (unitEscape low ++ rest)))
        =
      .ok (Text.joinHalves high low, rest) := by
  have hhighUnit : high < 0x10000 := by
    simp [Text.isHighHalf] at hhigh
    omega
  have hlowUnit : low < 0x10000 := by
    simp [Text.isLowHalf] at hlow
    omega
  have hlow := lowHalf?_unitEscape hlowUnit hlow hrest
  obtain ⟨d, behind, hbehind⟩ :=
    List.exists_cons_of_ne_nil (List.append_ne_nil_of_right_ne_nil (unitEscape low) hrest)
  rw [hbehind] at hlow ⊢
  rw [escaped, unit?_hexDigits hhighUnit]
  change (if Text.isHighHalf high then _ else _) = _
  rw [if_pos hhigh, hlow]

theorem joinHalves_halves {c : Char} (h : 0x10000 ≤ c.toNat)
    : let high := 0xD800 + (c.toNat - 0x10000) / 0x400
      let low := 0xDC00 + (c.toNat - 0x10000) % 0x400
      Text.isHighHalf high ∧ Text.isLowHalf low ∧ Text.joinHalves high low = c.toNat := by
  have hvalid := toNat_lt c
  refine ⟨?_, ?_, ?_⟩
  . simp [Text.isHighHalf]
    omega
  . simp [Text.isLowHalf]
    omega
  . unfold Text.joinHalves
    omega

inductive IsEscape (c : Char) : List Char → Prop
  | plain (hquote : c ≠ '"') (hbackslash : c ≠ '\\') (h : 0x20 ≤ c.toNat ∧ c.toNat < 0x7F)
      : IsEscape c [c]
  | escaped {body : List Char}
      (h : ∀ rest : List Char, rest ≠ [] → Json.escaped (body ++ rest) = .ok (c.toNat, rest))
      (hbody : ∀ d ∈ body, IsPrintable d) : IsEscape c ('\\' :: body)

theorem isEscape_escape (c : Char) : IsEscape c (escape c) := by
  rw [escape]
  -- The characters with a short escape of their own.
  iterate 7
    split
    next h =>
      rw [h]
      refine .escaped (fun _ _ => rfl) ?_
      rw [List.forall_mem_singleton]
      decide
  split
  next hquote hbackslash _ _ _ _ _ hplain => exact .plain hquote hbackslash hplain
  split
  next h => exact .escaped (fun _ hrest => escaped_unit h hrest) (isPrintable_unit _)
  next h =>
    obtain ⟨hhigh, hlow, hjoined⟩ := joinHalves_halves (Nat.le_of_not_lt h)
    refine .escaped ?_ ?_
    . intro rest hrest
      have hpair := escaped_pair hhigh hlow hrest
      rw [hjoined, ← List.append_assoc] at hpair
      exact hpair
    . exact List.forall_mem_append.2 ⟨isPrintable_unit _, isPrintable_unitEscape _⟩

theorem isPrintable_escape (c : Char) : ∀ d ∈ escape c, IsPrintable d := by
  have hescape := isEscape_escape c
  generalize escape c = written at hescape ⊢
  cases hescape with
  | plain hquote hbackslash h =>
    rw [List.forall_mem_singleton]
    exact ⟨h.1, by omega⟩
  | escaped h hbody =>
    rw [List.forall_mem_cons]
    exact ⟨by decide, hbody⟩

/-! Texts -/

theorem readText_escape (opened : List Char) (fuel : Nat) (before : List Char) (c : Char)
    {rest : List Char} (hrest : rest ≠ [])
    : readText opened (fuel + 1) before (escape c ++ rest)
        =
      readText opened fuel (c :: before) rest := by
  have hescape := isEscape_escape c
  generalize escape c = written at hescape ⊢
  cases hescape with
  | plain hquote hbackslash h =>
    rw [List.singleton_append, readText]
    . rw [if_neg (by omega)]
    . exact hquote
    . exact hbackslash
  | escaped h hbody => exact readText_of_escaped (h rest hrest) _ _ _

theorem readText_write (opened : List Char) {fuel : Nat} (before cs rest : List Char)
    (hfuel : cs.length < fuel)
    : readText opened fuel before (cs.flatMap escape ++ '"' :: rest)
        =
      .ok (⟨.ofList (before.reverse ++ cs), []⟩, rest) := by
  induction cs generalizing fuel before with
  | nil =>
    obtain ⟨fuel, rfl⟩ := Nat.exists_eq_add_one_of_ne_zero (Nat.ne_of_gt hfuel)
    rw [List.flatMap_nil, List.nil_append, readText, List.append_nil]
  | cons c cs ih =>
    obtain ⟨fuel, rfl⟩ := Nat.exists_eq_add_one_of_ne_zero (Nat.ne_zero_of_lt hfuel)
    rw [List.length_cons, Nat.add_lt_add_iff_right] at hfuel
    rw [List.flatMap_cons, List.append_assoc, readText_escape _ _ _ _ (by simp), ih _ hfuel]
    rw [List.reverse_cons, List.append_assoc, List.singleton_append]

theorem length_le_length_flatMap_escape (cs : List Char)
    : cs.length ≤ (cs.flatMap escape).length := by
  have hone (c : Char) : 1 ≤ (escape c).length := by
    have hescape := isEscape_escape c
    generalize escape c = written at hescape ⊢
    cases hescape with
    | plain hquote hbackslash h => exact Nat.le_refl 1
    | escaped h hbody => exact Nat.succ_pos _
  induction cs with
  | nil => exact Nat.le_refl _
  | cons c cs ih =>
    have hone := hone c
    rw [List.flatMap_cons, List.length_append, List.length_cons]
    omega

theorem writeText_append (text : String) (rest : List Char)
    : writeText text ++ rest = '"' :: (text.toList.flatMap escape ++ '"' :: rest) := by
  simp [writeText]

theorem readText_toList (opened : List Char) {size : Nat} {text : String} {rest : List Char}
    (hsize : (writeText text ++ rest).length ≤ size)
    : readText opened (size + 1) [] (text.toList.flatMap escape ++ '"' :: rest)
        =
      .ok (.ofText text, rest) := by
  have hlength := length_le_length_flatMap_escape text.toList
  rw [writeText_append, List.length_cons, List.length_append] at hsize
  rw [readText_write opened [] _ rest (by omega), List.reverse_nil, List.nil_append,
    String.ofList_toList]
  rfl

/-! Values and objects -/

theorem skip_of_not_isSpace {c : Char} (h : isSpace c = false) (cs : List Char)
    : skip (c :: cs) = c :: cs := by
  rw [skip, List.dropWhile_cons_of_neg (by simp [h])]

inductive IsPlain : Json → Prop
  | null : IsPlain null
  | text (value : String) : IsPlain (text value)

theorem IsPlain.skip_write {value : Json} (h : IsPlain value) (rest : List Char)
    : skip (value.write ++ rest) = value.write ++ rest := by
  cases h with
  | null => exact skip_of_not_isSpace rfl _
  | text value => exact skip_of_not_isSpace rfl _

namespace Reader

variable {reader : Reader} {fuel : Nat}

theorem value_write {value : Json} (h : IsPlain value) {rest : List Char}
    (hsize : (value.write ++ rest).length ≤ reader.size)
    : reader.value (fuel + 1) (value.write ++ rest) = .ok (value, rest) := by
  cases h with
  | null => rfl
  | text value =>
    rw [Json.write] at hsize
    rw [Json.write, writeText_append, Reader.value, readText_toList _ hsize]
    rfl

inductive Continues (reader : Reader) (fuel : Nat)
    : List Char → List (Text.Loose × Json) → List Char → Prop
  | stop (rest : List Char) : Continues reader fuel ('\x7d' :: rest) [] rest
  | more {cs rest : List Char} {members : List (Text.Loose × Json)} (hskip : skip cs = cs)
      (h : reader.members fuel cs = .ok (members, rest))
      : Continues reader fuel (',' :: ' ' :: cs) members rest

theorem members_field {name : String} {value : Json} (h : IsPlain value) {behind rest : List Char}
    {more : List (Text.Loose × Json)} (hbehind : reader.Continues (fuel + 1) behind more rest)
    (hsize : (writeText name ++ ':' :: ' ' :: value.write ++ behind).length ≤ reader.size)
    : reader.members (fuel + 2) (writeText name ++ ':' :: ' ' :: value.write ++ behind)
        =
      .ok ((.ofText name, value) :: more, rest) := by
  have hname : (writeText name ++ ':' :: ' ' :: (value.write ++ behind)).length ≤ reader.size := by
    simpa using hsize
  have hvalue : (value.write ++ behind).length ≤ reader.size := by
    rw [List.length_append, List.length_cons, List.length_cons] at hname
    omega
  rw [List.append_assoc, List.cons_append, List.cons_append, writeText_append, Reader.members,
    readText_toList _ hname]
  change reader.value (fuel + 1) (skip (value.write ++ behind)) >>= _ = _
  rw [h.skip_write, value_write h hvalue]
  cases hbehind with
  | stop rest => rfl
  | @more cs rest members hskip hmore =>
    change reader.members (fuel + 1) (skip cs) >>= _ = _
    rw [hskip, hmore]
    rfl

end Reader

def writeFields (fields : List (String × Json)) : List Char :=
  List.intercalate [',', ' '] (writeMembers (fields.map fun (name, value) => (.ofText name, value)))

theorem write_ofFields (fields : List (String × Json))
    : (ofFields fields).write = '\x7b' :: (writeFields fields ++ ['\x7d']) := by
  rw [ofFields, write, writeFields, List.cons_append]

theorem writeFields_singleton (field : String × Json)
    : writeFields [field] = writeText field.1 ++ ':' :: ' ' :: field.2.write := by
  rw [writeFields, List.map_singleton, writeMembers, writeMembers, List.intercalate_singleton]

theorem writeFields_cons_cons (field next : String × Json) (fields : List (String × Json))
    : writeFields (field :: next :: fields)
        =
      writeText field.1 ++ ':' :: ' ' :: field.2.write
        ++ (',' :: ' ' :: writeFields (next :: fields)) := by
  rw [writeFields, List.map_cons, List.map_cons, writeMembers, writeMembers,
    List.intercalate_cons_cons, List.append_assoc]
  rfl

theorem exists_writeFields_eq (field : String × Json) (fields : List (String × Json))
    : ∃ cs, writeFields (field :: fields) = '"' :: cs := by
  cases fields with
  | nil =>
    rw [writeFields_singleton, writeText_append]
    exact ⟨_, rfl⟩
  | cons next fields =>
    rw [writeFields_cons_cons, writeText_append, List.cons_append]
    exact ⟨_, rfl⟩

theorem skip_writeFields (field : String × Json) (fields : List (String × Json)) (rest : List Char)
    : skip (writeFields (field :: fields) ++ rest) = writeFields (field :: fields) ++ rest := by
  obtain ⟨cs, hcs⟩ := exists_writeFields_eq field fields
  rw [hcs]
  exact skip_of_not_isSpace rfl _

theorem nodup_names {fields : List (String × Json)} (h : (fields.map Prod.fst).Nodup)
    : ((fields.map fun (name, value) => (Text.Loose.ofText name, value)).map Prod.fst).Nodup := by
  have hinjective : Function.Injective Text.Loose.ofText := by
    intro one other hsame
    exact congrArg Text.Loose.start hsame
  have hnames := List.Nodup.map hinjective h
  rw [List.map_map] at hnames ⊢
  exact hnames

namespace Reader

variable {reader : Reader} {fuel : Nat}

theorem exists_eq_add_two {field : String × Json} {fields : List (String × Json)} {c : Char}
    {rest : List Char} (h : (writeFields (field :: fields) ++ c :: rest).length ≤ fuel)
    : ∃ n, fuel = n + 2 := by
  obtain ⟨cs, hcs⟩ := exists_writeFields_eq field fields
  rw [hcs, List.length_append, List.length_cons, List.length_cons] at h
  exact ⟨fuel - 2, by omega⟩

theorem members_writeFields {field : String × Json} {fields : List (String × Json)}
    (hplain : ∀ other ∈ field :: fields, IsPlain other.2) {rest : List Char}
    (hsize : (writeFields (field :: fields) ++ '\x7d' :: rest).length ≤ reader.size)
    (hfuel : (writeFields (field :: fields) ++ '\x7d' :: rest).length ≤ fuel)
    : reader.members fuel (writeFields (field :: fields) ++ '\x7d' :: rest)
        =
      .ok ((field :: fields).map fun (name, value) => (.ofText name, value), rest) := by
  induction fields generalizing field fuel with
  | nil =>
    obtain ⟨fuel, rfl⟩ := exists_eq_add_two hfuel
    rw [writeFields_singleton] at hsize ⊢
    exact members_field (hplain field List.mem_cons_self) (.stop rest) hsize
  | cons next fields ih =>
    obtain ⟨fuel, rfl⟩ := exists_eq_add_two hfuel
    rw [writeFields_cons_cons, List.append_assoc, List.cons_append, List.cons_append]
      at hsize hfuel ⊢
    have hlength (behind : List Char) : behind.length + 2
        ≤ (writeText field.1 ++ ':' :: ' ' :: field.2.write ++ (',' :: ' ' :: behind)).length := by
      rw [List.length_append, List.length_cons, List.length_cons]
      omega
    have hlength := hlength (writeFields (next :: fields) ++ '\x7d' :: rest)
    have hread := @ih (fuel + 1) next (fun other hother => hplain other (.tail _ hother))
      (by omega) (by omega)
    exact members_field (hplain field List.mem_cons_self) (.more (skip_writeFields _ _ _) hread)
      hsize

theorem value_ofFields {fields : List (String × Json)}
    (hplain : ∀ field ∈ fields, IsPlain field.2) (hnodup : (fields.map Prod.fst).Nodup)
    (hdepth : reader.depth < deepest) (hsize : (ofFields fields).write.length ≤ reader.size)
    (hfuel : (ofFields fields).write.length ≤ fuel)
    : reader.value fuel (ofFields fields).write = .ok (ofFields fields, []) := by
  rw [write_ofFields, List.length_cons] at *
  obtain ⟨fuel, rfl⟩ := Nat.exists_eq_add_one_of_ne_zero (Nat.ne_zero_of_lt hfuel)
  rw [value, if_neg (Nat.not_le_of_lt hdepth)]
  cases fields with
  | nil => rfl
  | cons field fields =>
    obtain ⟨cs, hcs⟩ := exists_writeFields_eq field fields
    have hread := @members_writeFields { reader with depth := reader.depth + 1 } fuel field fields
      hplain [] (Nat.le_of_lt hsize) (Nat.le_of_lt_succ hfuel)
    rw [skip_writeFields]
    rw [hcs] at hread ⊢
    rw [List.cons_append] at hread ⊢
    change Except.map _ (members { reader with depth := reader.depth + 1 } fuel _) = _
    rw [hread]
    dsimp only [Except.map]
    rw [Table.latest_of_nodup (nodup_names hnodup), ofFields]

end Reader

theorem read_write_ofFields {fields : List (String × Json)}
    (hplain : ∀ field ∈ fields, IsPlain field.2) (hnodup : (fields.map Prod.fst).Nodup)
    : read (ofFields fields).write = .ok (ofFields fields) := by
  have hvalue := @Reader.value_ofFields ⟨(ofFields fields).write.length, 0⟩
    (2 * (ofFields fields).write.length + 2) fields hplain hnodup (by decide : 0 < deepest)
    (Nat.le_refl _) (by omega)
  have hhead : (ofFields fields).write.head? = some '\x7b' := by
    rw [write_ofFields, List.head?_cons]
  have hskip : skip (ofFields fields).write = (ofFields fields).write := by
    rw [write_ofFields]
    exact skip_of_not_isSpace rfl _
  rw [read, hhead, hskip]
  dsimp only
  rw [hvalue]
  rfl

/-! What is written is printable -/

theorem isPrintable_writeText (text : String) : ∀ c ∈ writeText text, IsPrintable c := by
  rw [← List.append_nil (writeText text), writeText_append, List.forall_mem_cons,
    List.forall_mem_append, List.forall_mem_singleton]
  refine ⟨by decide, ?_, by decide⟩
  intro c hc
  obtain ⟨d, -, hd⟩ := List.mem_flatMap.1 hc
  exact isPrintable_escape d c hd

theorem IsPlain.isPrintable_write {value : Json} (h : IsPlain value)
    : ∀ c ∈ value.write, IsPrintable c := by
  cases h with
  | null =>
    change ∀ c ∈ ['n', 'u', 'l', 'l'], IsPrintable c
    rw [List.forall_mem_cons, List.forall_mem_cons, List.forall_mem_cons,
      List.forall_mem_singleton]
    decide
  | text value =>
    rw [write]
    apply isPrintable_writeText

theorem isPrintable_writeFields {fields : List (String × Json)}
    (hplain : ∀ field ∈ fields, IsPlain field.2) : ∀ c ∈ writeFields fields, IsPrintable c := by
  have hfield {field : String × Json} (h : IsPlain field.2)
      : ∀ c ∈ writeText field.1 ++ ':' :: ' ' :: field.2.write, IsPrintable c := by
    rw [List.forall_mem_append, List.forall_mem_cons, List.forall_mem_cons]
    exact ⟨isPrintable_writeText _, by decide, by decide, h.isPrintable_write⟩
  induction fields with
  | nil => exact List.forall_mem_nil _
  | cons field fields ih =>
    rw [List.forall_mem_cons] at hplain
    cases fields with
    | nil =>
      rw [writeFields_singleton]
      exact hfield hplain.1
    | cons next fields =>
      rw [writeFields_cons_cons, List.forall_mem_append, List.forall_mem_cons, List.forall_mem_cons]
      exact ⟨hfield hplain.1, by decide, by decide, ih hplain.2⟩

theorem isPrintable_write_ofFields {fields : List (String × Json)}
    (hplain : ∀ field ∈ fields, IsPlain field.2)
    : ∀ c ∈ (ofFields fields).write, IsPrintable c := by
  rw [write_ofFields, List.forall_mem_cons, List.forall_mem_append, List.forall_mem_singleton]
  exact ⟨by decide, isPrintable_writeFields hplain, by decide⟩

end Json
end MethodHistory
