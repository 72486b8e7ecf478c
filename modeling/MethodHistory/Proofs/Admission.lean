import MethodHistory.Admission
import MethodHistory.Proofs.Firsts
import MethodHistory.Syntax.Declaration

/-!
This module contains which of several records are admitted that are offered one after the other: the
first one of a mined kind for each method and commit. A key tells the two apart, as a signature ends
with a parenthesis and the id of a commit has none.
-/

namespace MethodHistory

/-! Keys -/

theorem eq_nil_of_cons_eq_append {α : Type} {mark : α} {between back back' : List α}
    (hback : mark ∉ back) (h : mark :: back = between ++ mark :: back') : between = [] := by
  cases between with
  | nil => rfl
  | cons c between =>
    rw [List.cons_append, List.cons.injEq] at h
    rw [h.2] at hback
    exact absurd (List.mem_append_right _ List.mem_cons_self) hback

theorem eq_of_append_cons_eq {α : Type} {mark : α} {front front' back back' : List α}
    (hback : mark ∉ back) (hback' : mark ∉ back')
    (h : front ++ mark :: back = front' ++ mark :: back') : front = front' ∧ back = back' := by
  have hfront : front = front' := by
    rcases List.append_eq_append_iff.1 h with ⟨between, hfront, hbacks⟩ | ⟨between, hfront, hbacks⟩
    . rw [hfront, eq_nil_of_cons_eq_append hback hbacks, List.append_nil]
    . rw [hfront, eq_nil_of_cons_eq_append hback' hbacks, List.append_nil]
  rw [hfront, List.append_cancel_left_eq, List.cons.injEq] at h
  exact ⟨hfront, h.2⟩

def IsSignature (text : String) : Prop :=
  ∃ front, text = front ++ ")"

theorem Method.isSignature (method : Method) : IsSignature method.signature :=
  ⟨_, rfl⟩

namespace Record

def origin (record : Record) : Option String × Option String :=
  (record.event.method, record.commit.id)

/--
Whether a record tells of a method by its signature and of a commit by an id without parentheses.
-/
structure IsSigned (record : Record) : Prop where
  method : ∃ method, record.event.method = some method ∧ IsSignature method
  commit : ∃ id : String, record.commit.id = some id ∧ ')' ∉ id.toList

variable {record other : Record}

theorem IsSigned.exists_toList_key (h : record.IsSigned)
    : ∃ front id : String, record.origin = (some (front ++ ")"), some id) ∧ ')' ∉ id.toList
      ∧ record.key.toList = front.toList ++ ')' :: id.toList := by
  obtain ⟨⟨_, hmethod, front, rfl⟩, id, hid, hmark⟩ := h
  refine ⟨front, id, ?_, hmark, ?_⟩
  . rw [origin, hmethod, hid]
  . rw [key, hmethod, hid, Option.getD_some, Option.getD_some, String.toList_append,
      String.toList_append, List.append_assoc]
    rfl

theorem key_eq_iff (hrecord : record.IsSigned) (hother : other.IsSigned)
    : record.key = other.key ↔ record.origin = other.origin := by
  constructor
  . intro h
    obtain ⟨front, id, horigin, hid, hkey⟩ := hrecord.exists_toList_key
    obtain ⟨front', id', horigin', hid', hkey'⟩ := hother.exists_toList_key
    rw [h, hkey'] at hkey
    obtain ⟨hfront, hback⟩ := eq_of_append_cons_eq hid' hid hkey
    rw [horigin, horigin', String.toList_inj.1 hfront, String.toList_inj.1 hback]
  . intro h
    rw [origin, origin, Prod.mk.injEq] at h
    rw [key, key, h.1, h.2]

end Record

/-! Records that are offered one after the other -/

structure Admission where
  records : List Record
  keys : List String

namespace Admission

def offer (admission : Admission) (record : Record) : Admission :=
  let (admitted, keys) := accept admission.keys record
  ⟨if admitted then admission.records ++ [record] else admission.records, keys⟩

def of (records : List Record) : Admission :=
  records.foldl offer ⟨[], []⟩

theorem of_append_singleton (records : List Record) (record : Record)
    : of (records ++ [record]) = (of records).offer record := by
  rw [of, List.foldl_append]
  rfl

/--
Whether the first of some records with each key have been admitted, and their keys are known.
-/
structure HasFirsts (admission : Admission) (records : List Record) : Prop where
  records_eq : admission.records = firsts Record.key (records.filter (·.event.kind.isMined))
  keys_eq : admission.keys = admission.records.map Record.key

variable {admission : Admission} {records : List Record} {record : Record}

theorem HasFirsts.mem_keys_iff (h : admission.HasFirsts records) {key : String}
    : key ∈ admission.keys ↔ key ∈ (records.filter (·.event.kind.isMined)).map Record.key := by
  rw [h.keys_eq, h.records_eq, mem_map_firsts]

theorem accept_of_not_isMined {keys : List String} (h : record.event.kind.isMined = false)
    : accept keys record = (false, keys) := by
  rw [accept, if_pos]
  rw [h]
  rfl

theorem accept_of_isMined {keys : List String} (h : record.event.kind.isMined = true)
    : accept keys record =
      if record.key ∈ keys then (false, keys) else (true, keys ++ [record.key]) := by
  rw [accept, h]
  simp only [Bool.not_true, Bool.false_or, List.contains_iff_mem]

theorem HasFirsts.accept_iff (h : admission.HasFirsts records)
    : (accept admission.keys record).1
        ↔
      record.event.kind.isMined
        ∧ ∀ other ∈ records, other.event.kind.isMined → other.key ≠ record.key := by
  have hknown : record.key ∈ admission.keys
      ↔ ∃ other ∈ records, other.event.kind.isMined ∧ other.key = record.key := by
    rw [h.mem_keys_iff, List.mem_map]
    simp only [List.mem_filter, and_assoc]
  cases hkind : record.event.kind.isMined with
  | false =>
    rw [accept_of_not_isMined hkind]
    simp
  | true =>
    rw [accept_of_isMined hkind]
    split
    next hfound =>
      obtain ⟨other, hother, hmined, hkey⟩ := hknown.1 hfound
      exact iff_of_false Bool.false_ne_true fun hnone => hnone.2 other hother hmined hkey
    next hnone =>
      refine iff_of_true rfl ⟨rfl, ?_⟩
      intro other hother hmined hkey
      exact hnone (hknown.2 ⟨other, hother, hmined, hkey⟩)

theorem HasFirsts.offer (h : admission.HasFirsts records) (record : Record)
    : (admission.offer record).HasFirsts (records ++ [record]) := by
  obtain ⟨hrecords, hkeys⟩ := h
  rw [Admission.offer]
  cases hkind : record.event.kind.isMined with
  | false =>
    rw [accept_of_not_isMined hkind]
    refine ⟨?_, hkeys⟩
    rw [List.filter_append, List.filter_singleton, hkind]
    exact hrecords.trans (congrArg _ (List.append_nil _).symm)
  | true =>
    have hfirsts : firsts Record.key ((records ++ [record]).filter (·.event.kind.isMined))
        = if record.key ∈ admission.keys then admission.records
          else admission.records ++ [record] := by
      rw [List.filter_append, List.filter_singleton, hkind, hkeys, hrecords]
      exact firsts_append_singleton Record.key _ record
    rw [accept_of_isMined hkind]
    split at hfirsts
    next hknown =>
      rw [if_pos hknown]
      exact ⟨hfirsts.symm, hkeys⟩
    next hnew =>
      rw [if_neg hnew]
      refine ⟨hfirsts.symm, ?_⟩
      change admission.keys ++ [record.key] = (admission.records ++ [record]).map Record.key
      rw [hkeys, List.map_append]
      rfl

theorem hasFirsts_of (records : List Record) : (of records).HasFirsts records := by
  induction records using List.reverseRecOn with
  | nil => exact ⟨rfl, rfl⟩
  | append_singleton records record ih =>
    rw [of_append_singleton]
    exact ih.offer record

end Admission

/--
Of signed records that are offered one after the other, the first one of a mined kind is admitted
for each method and commit. Different methods or commits never have the same key; the methods of a
file have such signatures.
-/
theorem first_mined_records_are_admitted {records : List Record}
    (hrecords : ∀ record ∈ records, record.IsSigned)
    : (∀ before record, before ++ [record] <+: records →
        ((accept (Admission.of before).keys record).1
          ↔ record.event.kind.isMined
            ∧ ∀ other ∈ before, other.event.kind.isMined → other.origin ≠ record.origin))
      ∧ (∀ before, before <+: records →
        (Admission.of before).records
            = firsts Record.origin (before.filter (·.event.kind.isMined))
          ∧ (Admission.of before).keys = (Admission.of before).records.map Record.key
          ∧ (Admission.of before).keys.Nodup)
      ∧ (∀ record ∈ records, ∀ other ∈ records,
        record.key = other.key ↔ record.origin = other.origin)
      ∧ ∀ node : Node, ∀ method ∈ node.methods, IsSignature method.signature := by
  refine ⟨?_, ?_, ?_, ?_⟩
  . intro before record hbefore
    have hsigned : ∀ other ∈ before ++ [record], other.IsSigned :=
      fun other hother => hrecords other (hbefore.subset hother)
    rw [List.forall_mem_append, List.forall_mem_singleton] at hsigned
    rw [(Admission.hasFirsts_of before).accept_iff]
    refine and_congr_right fun _ => forall₂_congr fun other hother => imp_congr_right fun _ => ?_
    exact not_congr (Record.key_eq_iff (hsigned.1 other hother) hsigned.2)
  . intro before hbefore
    obtain ⟨hadmitted, hkeys⟩ := Admission.hasFirsts_of before
    have hsigned : ∀ record ∈ before.filter (·.event.kind.isMined), record.IsSigned :=
      fun record hrecord => hrecords record (hbefore.subset (List.mem_of_mem_filter hrecord))
    refine ⟨?_, hkeys, ?_⟩
    . rw [hadmitted]
      apply firsts_congr
      intro record hrecord other hother
      exact Record.key_eq_iff (hsigned record hrecord) (hsigned other hother)
    . rw [hkeys, hadmitted]
      apply nodup_map_firsts
  . intro record hrecord other hother
    exact Record.key_eq_iff (hrecords record hrecord) (hrecords other hother)
  . intro node method _
    exact method.isSignature

/-! Two changes of a method behind one that is not mined, and one of another method -/

namespace Sample

def told (kind : ChangeKind) (method commit : String) : Record where
  event := ⟨kind, method, "A.java", none, "STATEMENT", "f();", "g();"⟩
  commit := ⟨commit, "", "", .first, ""⟩
  project := .text "project"
  dateMin := .first
  dateMax := .last

def offers : List Record :=
  [told .docUpdate "A.a()" "1", told .statementUpdate "A.a()" "1",
    told .statementDelete "A.a()" "1", told .statementUpdate "A.a(A)" "1"]

theorem isSigned_told {kind : ChangeKind} {method commit : String} (hmethod : IsSignature method)
    (hcommit : ')' ∉ commit.toList) : (told kind method commit).IsSigned :=
  ⟨⟨method, rfl, hmethod⟩, commit, rfl, hcommit⟩

theorem isSigned_of_mem_offers : ∀ record ∈ offers, record.IsSigned := by
  have hmark : ')' ∉ "1".toList := by
    decide
  rw [offers]
  simp only [List.forall_mem_cons]
  exact ⟨isSigned_told ⟨"A.a(", rfl⟩ hmark, isSigned_told ⟨"A.a(", rfl⟩ hmark,
    isSigned_told ⟨"A.a(", rfl⟩ hmark, isSigned_told ⟨"A.a(A", rfl⟩ hmark, List.forall_mem_nil _⟩

end Sample

theorem first_statement_change_is_admitted
    : (Admission.of Sample.offers).records = [Sample.offers[1], Sample.offers[3]]
      ∧ (Admission.of Sample.offers).keys = ["A.a()1", "A.a(A)1"] := by
  have hfirsts : firsts Record.origin (Sample.offers.filter (·.event.kind.isMined))
      = [Sample.offers[1], Sample.offers[3]] := by
    decide +kernel
  obtain ⟨-, hadmitted, -⟩ := first_mined_records_are_admitted Sample.isSigned_of_mem_offers
  obtain ⟨hrecords, hkeys, -⟩ := hadmitted Sample.offers (List.prefix_refl _)
  rw [hfirsts] at hrecords
  rw [hkeys, hrecords]
  exact ⟨rfl, by decide +kernel⟩

end MethodHistory
