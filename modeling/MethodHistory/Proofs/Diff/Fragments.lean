import MethodHistory.Diff.File
import MethodHistory.Proofs.FirstFit

/-!
This module contains the fragments of the edits that a comparison of two methods reports: each edit
has those that its kind needs.
-/

namespace MethodHistory

theorem isPresent_some {text : String} : isPresent (some text) ↔ text ≠ "" := by
  simp [isPresent]

namespace ChangeKind

def accepts (kind : ChangeKind) (before after : Option String) : Bool :=
  !(kind.needsAfter && !isPresent after) && !(kind.needsBefore && !isPresent before)
    && !(kind.needsBoth && !(isPresent before && isPresent after))
    && !(kind.needsDifferent && before = after)

variable {kind : ChangeKind} {old new text : String}

theorem needsBoth_of_needsDifferent (h : kind.needsDifferent) : kind.needsBoth := by
  cases kind <;> first | rfl | cases h

theorem accepts_added (hbefore : kind.needsBefore = false) (hboth : kind.needsBoth = false)
    (htext : text ≠ "") : kind.accepts none (some text) := by
  have hdifferent : kind.needsDifferent = false := by
    rw [Bool.eq_false_iff]
    intro h
    rw [needsBoth_of_needsDifferent h] at hboth
    contradiction
  simp [accepts, hbefore, hboth, hdifferent, isPresent_some.2 htext]

theorem accepts_removed (hafter : kind.needsAfter = false) (hboth : kind.needsBoth = false)
    (htext : text ≠ "") : kind.accepts (some text) none := by
  have hdifferent : kind.needsDifferent = false := by
    rw [Bool.eq_false_iff]
    intro h
    rw [needsBoth_of_needsDifferent h] at hboth
    contradiction
  simp [accepts, hafter, hboth, hdifferent, isPresent_some.2 htext]

theorem accepts_replaced (hold : old ≠ "") (hnew : new ≠ "")
    (hdifferent : kind.needsDifferent → old ≠ new) : kind.accepts (some old) (some new) := by
  cases h : kind.needsDifferent with
  | false => simp [accepts, h, isPresent_some.2 hold, isPresent_some.2 hnew]
  | true => simp [accepts, isPresent_some.2 hold, isPresent_some.2 hnew, hdifferent h]

end ChangeKind

def Edit.IsTold (edit : Edit) : Prop :=
  edit.kind.accepts edit.before edit.after

/-! Parameters -/

namespace ParameterDiff

theorem text_ne_empty (parameter : Parameter) : parameter.text ≠ "" := by
  intro h
  have hlength := congrArg String.length h
  simp [Parameter.text] at hlength

theorem text_ne_of_name {old new : Parameter} (htype : new.type = old.type)
    (hname : old.name ≠ new.name) : old.text ≠ new.text := by
  intro h
  rw [Parameter.text, Parameter.text, htype] at h
  simp at h
  exact hname h

theorem text_ne_of_type {old new : Parameter} (hname : old.name = new.name)
    (htype : old.type ≠ new.type) : old.text ≠ new.text := by
  intro h
  rw [Parameter.text, Parameter.text, hname] at h
  simp at h
  exact htype h

variable {parameters olds news : List Parameter} {edit : Edit}

theorem name_of_named {name : String} {parameter : Parameter}
    (h : named parameters name = some parameter) : parameter.name = name :=
  of_decide_eq_true (List.mem_filter.1 (List.mem_of_getLast? h)).2

theorem exists_named {name : String} (h : name ∈ parameters.map Parameter.name)
    : ∃ parameter, named parameters name = some parameter := by
  obtain ⟨parameter, hparameter, hname⟩ := List.mem_map.1 h
  cases hnamed : named parameters name with
  | some other => exact ⟨other, rfl⟩
  | none =>
    rw [named, List.getLast?_eq_none_iff, List.filter_eq_nil_iff] at hnamed
    exact absurd (decide_eq_true hname) (hnamed parameter hparameter)

theorem isTold_of_mem_renamings (h : edit ∈ renamings olds news) : edit.IsTold := by
  rw [renamings] at h
  dsimp only at h
  rcases List.mem_append.1 h with h | h
  . obtain ⟨⟨old, partner⟩, hfound, rfl⟩ := List.mem_map.1 h
    cases partner with
    | none => exact ChangeKind.accepts_removed rfl rfl (text_ne_empty old)
    | some new =>
      have hold := List.mem_map_of_mem (f := Prod.fst) hfound
      rw [map_fst_firstFit, without, List.mem_filter] at hold
      have hnew := List.mem_filter.1 (mem_of_mem_firstFit hfound)
      have hfits := fits_of_mem_firstFit hfound
      have htype : new.type = old.type := of_decide_eq_true hfits
      have hname : new.name ≠ old.name :=
        of_decide_eq_true (List.all_eq_true.1 hold.2 new hnew.1)
      exact ChangeKind.accepts_replaced (text_ne_empty old) (text_ne_empty new)
        fun _ => text_ne_of_name htype hname.symm
  . obtain ⟨new, -, rfl⟩ := List.mem_map.1 h
    exact ChangeKind.accepts_added rfl rfl (text_ne_empty new)

theorem isTold_of_mem_typeChanges (h : edit ∈ typeChanges olds news) : edit.IsTold := by
  rw [typeChanges, List.mem_filterMap] at h
  obtain ⟨new, -, h⟩ := h
  obtain ⟨old, hnamed, h⟩ := Option.bind_eq_some_iff.1 h
  split at h
  next htype =>
    cases h
    exact ChangeKind.accepts_replaced (text_ne_empty old) (text_ne_empty new)
      fun _ => text_ne_of_type (name_of_named hnamed) htype
  next => contradiction

theorem isTold_of_mem_reorderings (h : edit ∈ reorderings olds news) : edit.IsTold := by
  rw [reorderings] at h
  dsimp only at h
  split at h
  next => contradiction
  next =>
    obtain ⟨name, hname, rfl⟩ := List.mem_map.1 h
    have hcommon := List.mem_filter.1 (List.mem_filter.1 hname).1
    obtain ⟨old, hold, holdName⟩ := List.any_eq_true.1 hcommon.2
    have holdMem : name ∈ olds.map Parameter.name :=
      List.mem_map.2 ⟨old, hold, of_decide_eq_true holdName⟩
    obtain ⟨old, hold⟩ := exists_named holdMem
    obtain ⟨new, hnew⟩ := exists_named hcommon.1
    rw [hold, hnew]
    exact ChangeKind.accepts_replaced (text_ne_empty old) (text_ne_empty new) fun h => by cases h

end ParameterDiff

theorem isTold_of_mem_parameterEdits {olds news : List Parameter} {edit : Edit}
    (h : edit ∈ parameterEdits olds news) : edit.IsTold := by
  rw [parameterEdits, List.mem_append, List.mem_append] at h
  rcases h with (h | h) | h
  . exact ParameterDiff.isTold_of_mem_renamings h
  . exact ParameterDiff.isTold_of_mem_typeChanges h
  . exact ParameterDiff.isTold_of_mem_reorderings h

/-! The rest of a declaration -/

namespace MethodDiff

variable {edit : Edit}

theorem isTold_of_mem_nameEdits {old new : Method} (hold : old.name ≠ "") (hnew : new.name ≠ "")
    (h : edit ∈ nameEdits old new) : edit.IsTold := by
  rw [nameEdits] at h
  split at h
  next hname =>
    rw [List.mem_singleton.1 h]
    exact ChangeKind.accepts_replaced hold hnew fun _ => hname
  next => contradiction

theorem isTold_of_mem_accessEdits {old new : Access} (h : edit ∈ accessEdits old new)
    : edit.IsTold := by
  have hlabel (access : Access) : access.label ≠ "" := by
    cases access <;> decide
  have hlabels (h : old.rank ≠ new.rank) : old.label ≠ new.label := by
    cases old <;> cases new <;> first | decide | exact absurd rfl h
  rw [accessEdits] at h
  split at h
  next hrank =>
    rw [List.mem_singleton.1 h]
    exact ChangeKind.accepts_replaced (hlabel _) (hlabel _) fun _ => hlabels (Nat.ne_of_lt hrank)
  next =>
    split at h
    next hrank =>
      rw [List.mem_singleton.1 h]
      exact ChangeKind.accepts_replaced (hlabel _) (hlabel _) fun _ => hlabels (Nat.ne_of_gt hrank)
    next => contradiction

theorem isTold_of_mem_returnTypeEdits {old new : Option String} (hold : old ≠ some "")
    (hnew : new ≠ some "") (h : edit ∈ returnTypeEdits old new) : edit.IsTold := by
  have hne {type : String} (h : some type ≠ some "") : type ≠ "" := mt (congrArg some) h
  cases old with
  | none =>
    cases new with
    | none => contradiction
    | some new =>
      rw [List.mem_singleton.1 h]
      exact ChangeKind.accepts_added rfl rfl (hne hnew)
  | some old =>
    cases new with
    | none =>
      rw [List.mem_singleton.1 h]
      exact ChangeKind.accepts_removed rfl rfl (hne hold)
    | some new =>
      rw [returnTypeEdits] at h
      split at h
      next htype =>
        rw [List.mem_singleton.1 h]
        exact ChangeKind.accepts_replaced (hne hold) (hne hnew) fun _ => htype
      next => contradiction

theorem isTold_of_mem_docEdits {old new : Option String} (h : edit ∈ docEdits old new)
    : edit.IsTold := by
  rw [docEdits] at h
  dsimp only at h
  split at h
  next =>
    rw [List.mem_singleton.1 h]
    rfl
  next => contradiction

end MethodDiff

/-! What is left of the deletions and the insertions of a body -/

namespace BodyDiff

theorem text_ne_of_mem_landings {inserted : List Stray} {landing : Landing}
    (hinserted : ∀ stray ∈ inserted, stray.head.text ≠ "") (h : landing ∈ landings inserted)
    (hplace : landing.place.isSome) : landing.head.text ≠ "" := by
  rw [landings, List.mem_append] at h
  rcases h with h | h
  . obtain ⟨stray, hstray, rfl⟩ := List.mem_map.1 h
    exact hinserted stray hstray
  . obtain ⟨stray, -, h⟩ := List.mem_flatMap.1 h
    obtain ⟨fragment, -, rfl⟩ := List.mem_map.1 h
    contradiction

theorem needsDifferent_moveKind (stray : Stray) (landing : Landing)
    : (moveKind stray landing).needsDifferent = false := by
  rw [moveKind]
  split <;> rfl

theorem isTold_of_mem_resolve {deleted inserted : List Stray} {edit : Edit}
    (hdeleted : ∀ stray ∈ deleted, stray.head.text ≠ "")
    (hinserted : ∀ stray ∈ inserted, stray.head.text ≠ "")
    (h : edit ∈ resolve deleted inserted) : edit.IsTold := by
  rw [resolve] at h
  dsimp only at h
  have hvanished {stray : Stray} {partner : Option Landing}
      (h : (stray, partner) ∈ (firstFit (fun (stray : Stray) (landing : Landing) =>
        decide (landing.head.text = stray.head.text)) deleted (landings inserted)).1)
      : stray.head.text ≠ "" := by
    have hmem := List.mem_map_of_mem (f := Prod.fst) h
    rw [map_fst_firstFit] at hmem
    exact hdeleted stray hmem
  have harrived {landing : Landing} {partner : Option Fragment} {free : List Landing}
      {heads : List Fragment} (hfree : ∀ landing ∈ free, landing ∈ landings inserted)
      (h : (landing, partner) ∈ (firstFit (fun (landing : Landing) (head : Fragment) =>
        decide (head.text = landing.head.text)) (free.filter (·.place.isSome)) heads).1)
      : landing.head.text ≠ "" := by
    have hmem := List.mem_map_of_mem (f := Prod.fst) h
    rw [map_fst_firstFit, List.mem_filter] at hmem
    exact text_ne_of_mem_landings hinserted (hfree landing hmem.1) hmem.2
  rw [List.mem_append, List.mem_append, List.mem_append, List.mem_filterMap, List.mem_filterMap,
    List.mem_filterMap, List.mem_filterMap] at h
  rcases h with ((⟨⟨stray, partner⟩, hfound, h⟩ | ⟨⟨landing, partner⟩, hfound, h⟩)
    | ⟨⟨stray, partner⟩, hfound, h⟩) | ⟨⟨landing, partner⟩, hfound, h⟩
  . cases partner with
    | none => contradiction
    | some landing =>
      cases h
      have htext := hvanished hfound
      exact ChangeKind.accepts_replaced htext htext fun h => by
        rw [needsDifferent_moveKind] at h
        contradiction
  . cases partner with
    | none => contradiction
    | some head =>
      cases h
      have htext := harrived (fun _ => mem_free_of_mem_firstFit) hfound
      exact ChangeKind.accepts_replaced htext htext fun h => by cases h
  . cases partner with
    | some landing => contradiction
    | none =>
      cases h
      exact ChangeKind.accepts_removed rfl rfl (hvanished hfound)
  . cases partner with
    | some head => contradiction
    | none =>
      cases h
      exact ChangeKind.accepts_added rfl rfl (harrived (fun _ => mem_free_of_mem_firstFit) hfound)

end BodyDiff

end MethodHistory
