import MethodHistory.Diff.File
import MethodHistory.Proofs.Diff.Comparisons
import MethodHistory.Proofs.Diff.Layout
import MethodHistory.Proofs.Diff.MaximalMatching
import MethodHistory.Proofs.Diff.Parameters
import MethodHistory.Proofs.Firsts

/-!
This module contains the changes of declarations: types and fields that come or go are reported once
each, and every method is compared once or is reported as one that comes or goes.
-/

namespace MethodHistory

namespace Table

variable {α κ : Type} [DecidableEq κ] {key : α → κ}

theorem nodup_put (x : α) {ys : List α} (h : (ys.map key).Nodup)
    : ((put key x ys).map key).Nodup := by
  induction ys with
  | nil => exact List.nodup_singleton _
  | cons y ys ih =>
    rw [List.map_cons, List.nodup_cons] at h
    rw [put]
    split
    next hkey =>
      rw [List.map_cons, List.nodup_cons, ← hkey]
      exact h
    next hkey =>
      rw [List.map_cons, List.nodup_cons]
      refine ⟨?_, ih h.2⟩
      intro hmem
      obtain ⟨z, hz, hzkey⟩ := List.mem_map.1 hmem
      rcases mem_of_mem_put hz with rfl | hz
      . exact hkey hzkey.symm
      . rw [← hzkey] at h
        exact h.1 (List.mem_map_of_mem hz)

theorem nodup_latest (key : α → κ) (xs : List α) : ((latest key xs).map key).Nodup := by
  have hfold : ∀ (xs table : List α), (table.map key).Nodup →
      ((xs.foldl (fun table x => put key x table) table).map key).Nodup := by
    intro xs
    induction xs with
    | nil => exact fun _ => id
    | cons x xs ih => exact fun table h => ih _ (nodup_put x h)
  exact hfold xs [] List.nodup_nil

theorem mem_map_latest {xs : List α} {k : κ} : k ∈ (latest key xs).map key ↔ k ∈ xs.map key := by
  rw [List.mem_map, List.mem_map]
  constructor
  . rintro ⟨x, hx, rfl⟩
    exact ⟨x, mem_of_mem_latest hx, rfl⟩
  . rintro ⟨x, hx, rfl⟩
    exact exists_mem_latest hx

end Table

structure IsExcess {α κ : Type} (key : α → κ) (xs ys excess : List α) : Prop where
  mem : ∀ x ∈ excess, x ∈ xs
  nodup : (excess.map key).Nodup
  mem_map_iff : ∀ k, k ∈ excess.map key ↔ k ∈ xs.map key ∧ k ∉ ys.map key

theorem isExcess_filter_latest {α κ : Type} [DecidableEq κ] (key : α → κ) (xs ys : List α)
    : IsExcess key xs ys ((Table.latest key xs).filter fun x =>
      (Table.latest key ys).all fun y => key y ≠ key x) where
  mem x hx := Table.mem_of_mem_latest (List.mem_filter.1 hx).1
  nodup := (Table.nodup_latest key xs).sublist (List.filter_sublist.map _)
  mem_map_iff k := by
    have hall : ∀ x, ((Table.latest key ys).all fun y => key y ≠ key x) ↔ key x ∉ ys.map key := by
      intro x
      rw [← Table.mem_map_latest]
      simp
    rw [List.mem_map, ← @Table.mem_map_latest _ _ _ _ xs, List.mem_map]
    constructor
    . rintro ⟨x, hx, rfl⟩
      rw [List.mem_filter, hall] at hx
      exact ⟨⟨x, hx.1, rfl⟩, hx.2⟩
    . rintro ⟨⟨x, hx, rfl⟩, hk⟩
      exact ⟨x, List.mem_filter.2 ⟨hx, (hall x).2 hk⟩, rfl⟩

/-! Lists with and without partners -/

namespace FirstFit

variable {α β γ : Type}

theorem flatMap_eq_flatMap_joined {found : List (α × Option β)} {f : α × Option β → List γ}
    (h : ∀ x, f (x, none) = [])
    : found.flatMap f = (joined found).flatMap fun pair => f (pair.1, some pair.2) := by
  induction found with
  | nil => rfl
  | cons first found ih =>
    obtain ⟨x, partner⟩ := first
    cases partner with
    | none =>
      rw [List.flatMap_cons, h, List.nil_append, ih]
      rfl
    | some y =>
      rw [List.flatMap_cons, ih]
      rfl

theorem flatMap_eq_flatMap_alone {found : List (α × Option β)} {f : α × Option β → List γ}
    (h : ∀ x y, (x, some y) ∈ found → f (x, some y) = [])
    : found.flatMap f = (alone found).flatMap fun x => f (x, none) := by
  induction found with
  | nil => rfl
  | cons first found ih =>
    obtain ⟨x, partner⟩ := first
    have ih := ih fun x y hmem => h x y (List.mem_cons_of_mem _ hmem)
    cases partner with
    | none =>
      rw [List.flatMap_cons, ih]
      rfl
    | some y =>
      rw [List.flatMap_cons, h x y List.mem_cons_self, List.nil_append, ih]
      rfl

end FirstFit

/-! Kinds -/

def ChangeKind.IsDeclared (kind : ChangeKind) : Prop :=
  kind ∈ [additionalFunctionality, removedFunctionality, additionalObjectState, removedObjectState,
    additionalClass, removedClass]

namespace ChangeKind

instance (kind : ChangeKind) : Decidable kind.IsDeclared :=
  inferInstanceAs (Decidable (kind ∈ _))

end ChangeKind

namespace MethodDiff

variable {edit : Edit}

theorem not_isDeclared_of_mem_nameEdits {old new : Method} (h : edit ∈ nameEdits old new)
    : ¬edit.kind.IsDeclared := by
  rw [nameEdits] at h
  split at h
  . simp [List.mem_singleton.1 h, ChangeKind.IsDeclared]
  . contradiction

theorem not_isDeclared_of_mem_accessEdits {old new : Access} (h : edit ∈ accessEdits old new)
    : ¬edit.kind.IsDeclared := by
  rw [accessEdits] at h
  split at h
  . simp [List.mem_singleton.1 h, ChangeKind.IsDeclared]
  . split at h
    . simp [List.mem_singleton.1 h, ChangeKind.IsDeclared]
    . contradiction

theorem not_isDeclared_of_mem_returnTypeEdits {old new : Option String}
    (h : edit ∈ returnTypeEdits old new) : ¬edit.kind.IsDeclared := by
  rw [returnTypeEdits.eq_def] at h
  split at h
  . contradiction
  . simp [List.mem_singleton.1 h, ChangeKind.IsDeclared]
  . simp [List.mem_singleton.1 h, ChangeKind.IsDeclared]
  . split at h
    . simp [List.mem_singleton.1 h, ChangeKind.IsDeclared]
    . contradiction

theorem not_isDeclared_of_mem_docEdits {old new : Option String} (h : edit ∈ docEdits old new)
    : ¬edit.kind.IsDeclared := by
  rw [docEdits] at h
  dsimp only at h
  split at h
  . simp [List.mem_singleton.1 h, ChangeKind.IsDeclared]
  . contradiction

end MethodDiff

theorem not_isDeclared_of_mem_parameterEdits {olds news : List Parameter} {edit : Edit}
    (h : edit ∈ parameterEdits olds news) : ¬edit.kind.IsDeclared := by
  have h := (ParameterDiff.perm_edits_events olds news).subset h
  rw [ParameterEvents.edits] at h
  simp only [List.mem_append, List.mem_map] at h
  rcases h with (((⟨_, -, rfl⟩ | ⟨_, -, rfl⟩) | ⟨_, -, rfl⟩) | ⟨_, -, rfl⟩) | ⟨_, -, rfl⟩
  all_goals
    simp [ParameterDiff.edit, ChangeKind.IsDeclared]

theorem not_isDeclared_of_mem_bodyEdits {threshold : Float} {olds news : List Statement}
    {edit : Edit} (h : edit ∈ bodyEdits threshold olds news) : ¬edit.kind.IsDeclared := by
  rw [bodyEdits_eq_outcome, List.mem_append, BodyDiff.Resolution.mem_edits] at h
  rcases h with h | ⟨move, hmove, rfl⟩ | ⟨stray, -, rfl⟩ | ⟨landing, -, rfl⟩
  . have hinPlace := (BodyDiff.gathers_lists threshold olds news .body).edits edit h
    rw [Edit.IsInPlace] at hinPlace
    revert hinPlace
    generalize edit.kind = kind
    cases kind <;> decide
  . have hmoved := BodyDiff.Resolution.kind_of_mem_moves hmove
    rcases hmoved with hkind | hkind
    . rw [show move.edit.kind = .statementOrderingChange from hkind]
      decide
    . rw [show move.edit.kind = .statementParentChange from hkind]
      decide
  . simp [ChangeKind.IsDeclared]
  . simp [ChangeKind.IsDeclared]

theorem not_isDeclared_of_mem_methodEdits {threshold : Float} {old new : Method} {edit : Edit}
    (h : edit ∈ methodEdits threshold old new) : ¬edit.kind.IsDeclared := by
  rw [methodEdits] at h
  simp only [List.mem_append] at h
  rcases h with ((((h | h) | h) | h) | h) | h
  . exact MethodDiff.not_isDeclared_of_mem_nameEdits h
  . exact MethodDiff.not_isDeclared_of_mem_accessEdits h
  . exact MethodDiff.not_isDeclared_of_mem_returnTypeEdits h
  . exact not_isDeclared_of_mem_parameterEdits h
  . exact MethodDiff.not_isDeclared_of_mem_docEdits h
  . exact not_isDeclared_of_mem_bodyEdits h

/-! Compared methods -/

namespace Matching

variable {matching : List MethodMatch} {key : MethodMatch → Nat} {xs : List Placed}

theorem perm_filterMap_find? (hplaces : (xs.map (·.place)).Nodup)
    (hkeys : (matching.map key).Nodup) (hmem : ∀ found ∈ matching, ∃ x ∈ xs, x.place = key found)
    : (xs.filterMap fun x => matching.find? (key · = x.place)).Perm matching := by
  have hnodup : (xs.filterMap fun x => matching.find? (key · = x.place)).Nodup := by
    rw [List.Nodup, List.pairwise_map] at hplaces
    rw [List.Nodup, List.pairwise_filterMap]
    apply hplaces.imp
    rintro x y hplace found hfound _ hother rfl
    have hxplace := ((find?_key_eq_some_iff hkeys).1 hfound).2
    have hyplace := ((find?_key_eq_some_iff hkeys).1 hother).2
    exact hplace (hxplace.symm.trans hyplace)
  rw [List.perm_ext_iff_of_nodup hnodup hkeys.of_map]
  intro found
  rw [List.mem_filterMap]
  constructor
  . rintro ⟨x, -, hx⟩
    exact ((find?_key_eq_some_iff hkeys).1 hx).1
  . intro hfound
    obtain ⟨x, hx, hplace⟩ := hmem found hfound
    exact ⟨x, hx, (find?_key_eq_some_iff hkeys).2 ⟨hfound, hplace.symm⟩⟩

theorem bind_find?_old {olds : List Method} {old : Placed} (hold : old ∈ Placed.all olds)
    : ((matching.find? (·.old = old.place)).bind fun found => olds[found.old]?)
        =
      if !matching.all (·.old ≠ old.place) then some old.method else none := by
  cases hfind : matching.find? (·.old = old.place) with
  | none =>
    have hfree : matching.all (·.old ≠ old.place) = true := by
      rw [List.find?_eq_none] at hfind
      exact List.all_eq_true.2 fun found hfound => by simpa using hfind found hfound
    rw [hfree]
    rfl
  | some found =>
    have hplace : found.old = old.place := by simpa using List.find?_some hfind
    have htaken : matching.all (·.old ≠ old.place) = false := by
      rw [Bool.eq_false_iff]
      intro hall
      exact of_decide_eq_true (List.all_eq_true.1 hall found (List.mem_of_find?_eq_some hfind))
        hplace
    rw [htaken, Option.bind_some, hplace]
    exact Placed.mem_all.1 hold

end Matching

namespace FileDiff

def partners (matching : List MethodMatch) (olds news : List Method)
    : List (Method × Option Method) :=
  (Placed.all news).map fun new =>
    (new.method, (matching.find? (·.new = new.place)).bind fun found => olds[found.old]?)

section

variable {threshold : Float} {olds news : List Method} {matching : List MethodMatch}

theorem map_fst_partners (matching : List MethodMatch) (olds news : List Method)
    : (partners matching olds news).map Prod.fst = news := by
  rw [partners, List.map_map]
  exact Placed.map_method_all news

theorem filterMap_snd_partners
    (h : Matching.Joins threshold (Placed.all olds) (Placed.all news) matching)
    : ((partners matching olds news).filterMap Prod.snd
        ++ (Matching.freeOlds matching (Placed.all olds)).map (·.method)).Perm olds := by
  have hnews := Matching.perm_filterMap_find? (Placed.nodup_place_all news) h.nodup_new <| by
    intro found hfound
    obtain ⟨_, -, new, hnew, rfl, -⟩ := h.exists_of_mem found hfound
    exact ⟨new, hnew, rfl⟩
  have holds := Matching.perm_filterMap_find? (Placed.nodup_place_all olds) h.nodup_old <| by
    intro found hfound
    obtain ⟨old, hold, _, -, rfl, -⟩ := h.exists_of_mem found hfound
    exact ⟨old, hold, rfl⟩
  have hmatched := (hnews.trans holds.symm).filterMap fun found => olds[found.old]?
  rw [List.filterMap_filterMap, List.filterMap_filterMap,
    List.filterMap_congr fun old => Matching.bind_find?_old, ← List.filterMap_filter,
    List.filterMap_eq_map'] at hmatched
  have hparts := (List.filter_append_perm (fun old : Placed => matching.all (·.old ≠ old.place))
    (Placed.all olds)).map (·.method)
  rw [List.map_append, Placed.map_method_all] at hparts
  rw [partners, List.filterMap_map]
  exact (hmatched.append_right _).trans (List.perm_append_comm.trans hparts)

end

def compared (threshold : Float) (olds news : List Method) : List (Method × Method) :=
  (FirstFit.joined (partners (methodMatching threshold olds news) olds news)).map Prod.swap

def added (threshold : Float) (olds news : List Method) : List Method :=
  FirstFit.alone (partners (methodMatching threshold olds news) olds news)

def removed (threshold : Float) (olds news : List Method) : List Method :=
  (Matching.freeOlds (methodMatching threshold olds news) (Placed.all olds)).map (·.method)

theorem perm_compared_removed (threshold : Float) (olds news : List Method)
    : ((compared threshold olds news).map Prod.fst ++ removed threshold olds news).Perm olds := by
  have hperm := filterMap_snd_partners (Matching.joins_methodMatching threshold olds news)
  rw [← FirstFit.map_snd_joined] at hperm
  rw [compared, List.map_map]
  exact hperm

theorem perm_compared_added (threshold : Float) (olds news : List Method)
    : ((compared threshold olds news).map Prod.snd ++ added threshold olds news).Perm news := by
  have hperm := FirstFit.perm_joined_alone
    (partners (methodMatching threshold olds news) olds news)
  rw [map_fst_partners] at hperm
  rw [compared, List.map_map]
  exact hperm

def addition (new : Method) : Change :=
  ⟨.additionalFunctionality, none, new.owner, new.kind, none, new.signature⟩

def removal (old : Method) : Change :=
  ⟨.removedFunctionality, none, old.owner, old.kind, old.signature, none⟩

def partnerChanges (threshold : Float) : Method × Option Method → List Change
  | (new, some old) => (methodEdits threshold old new).map (ofEdit new)
  | (new, none) => [addition new]

theorem methodChanges_eq (thresholds : Thresholds) (olds news : List Method)
    : methodChanges thresholds olds news
        =
      (partners (methodMatching thresholds.rename olds news) olds news).flatMap
          (partnerChanges thresholds.update)
        ++ (removed thresholds.rename olds news).map removal := by
  rw [methodChanges, partners, removed, List.flatMap_map, List.map_map]
  congr 2
  funext new
  rw [methodChange]
  split
  next old hold => rw [hold, partnerChanges]
  next hnone =>
    rw [hnone, partnerChanges]
    rfl

/-! Changes by their kinds -/

theorem filter_kind_eq_nil {changes : List Change} {kinds : List ChangeKind} {kind : ChangeKind}
    (h : ∀ change ∈ changes, change.kind = kind → change.kind ∈ kinds) (hkind : kind ∉ kinds)
    : changes.filter (·.kind = kind) = [] := by
  rw [List.filter_eq_nil_iff]
  intro change hchange heq
  rw [decide_eq_true_iff] at heq
  apply hkind
  rw [← heq]
  exact h change hchange heq

section

variable {threshold : Float} {found : List (Method × Option Method)}

theorem not_isDeclared_of_mem_partnerChanges {old new : Method} {change : Change}
    (h : change ∈ partnerChanges threshold (new, some old)) : ¬change.kind.IsDeclared := by
  obtain ⟨edit, hedit, rfl⟩ := List.mem_map.1 h
  exact not_isDeclared_of_mem_methodEdits hedit

theorem filter_kind_partnerChanges {kind : ChangeKind} (hkind : kind.IsDeclared)
    : (found.flatMap (partnerChanges threshold)).filter (·.kind = kind)
        =
      if kind = .additionalFunctionality then (FirstFit.alone found).map addition else [] := by
  have hedits : ∀ new old, (partnerChanges threshold (new, some old)).filter (·.kind = kind)
      = [] := by
    intro new old
    rw [List.filter_eq_nil_iff]
    intro change hchange heq
    rw [decide_eq_true_iff] at heq
    rw [← heq] at hkind
    exact not_isDeclared_of_mem_partnerChanges hchange hkind
  rw [List.filter_flatMap, FirstFit.flatMap_eq_flatMap_alone fun new old _ => hedits new old]
  split
  next heq =>
    rw [heq, List.map_eq_flatMap]
    rfl
  next hne =>
    rw [List.flatMap_eq_nil_iff]
    intro new hnew
    exact List.filter_cons_of_neg (by simp [addition, Ne.symm hne])

theorem filter_method_partnerChanges
    : (found.flatMap (partnerChanges threshold)).filter (·.method.isSome)
        =
      ((FirstFit.joined found).map Prod.swap).flatMap fun pair =>
        (methodEdits threshold pair.1 pair.2).map (ofEdit pair.2) := by
  rw [List.filter_flatMap, FirstFit.flatMap_eq_flatMap_joined fun new => rfl, List.flatMap_map]
  congr 1
  funext pair
  apply List.filter_eq_self.2
  intro change hchange
  obtain ⟨edit, -, rfl⟩ := List.mem_map.1 hchange
  rfl

end

section

variable {olds news : List TypeDeclaration}

theorem exists_typeChanges_eq (olds news : List TypeDeclaration)
    : ∃ added removed, IsExcess TypeDeclaration.name news olds added
      ∧ IsExcess TypeDeclaration.name olds news removed
      ∧ typeChanges olds news
        = added.map (fun type =>
            (⟨.additionalClass, none, type.name, type.kind, none, type.name⟩ : Change))
          ++ removed.map fun type =>
            (⟨.removedClass, none, type.name, type.kind, type.name, none⟩ : Change) := by
  exact ⟨_, _, isExcess_filter_latest _ _ _, isExcess_filter_latest _ _ _, rfl⟩

theorem filter_typeChanges_eq_nil {kind : ChangeKind}
    (hkind : kind ∉ [ChangeKind.additionalClass, .removedClass])
    : (typeChanges olds news).filter (·.kind = kind) = [] := by
  apply filter_kind_eq_nil _ hkind
  intro change h _
  rw [typeChanges] at h
  rcases List.mem_append.1 h with h | h
  all_goals
    obtain ⟨_, _, rfl⟩ := List.mem_map.1 h
    simp

end

section

variable {olds news : List FieldDeclaration}

theorem exists_fieldChanges_eq (olds news : List FieldDeclaration)
    : ∃ added removed, IsExcess fieldKey news olds added ∧ IsExcess fieldKey olds news removed
      ∧ fieldChanges olds news
        = added.map (fun field => (⟨.additionalObjectState, none, field.owner,
            "field_declaration", none, field.text⟩ : Change))
          ++ removed.map fun field => (⟨.removedObjectState, none, field.owner,
            "field_declaration", field.text, none⟩ : Change) := by
  exact ⟨_, _, isExcess_filter_latest _ _ _, isExcess_filter_latest _ _ _, rfl⟩

theorem filter_fieldChanges_eq_nil {kind : ChangeKind}
    (hkind : kind ∉ [ChangeKind.additionalObjectState, .removedObjectState])
    : (fieldChanges olds news).filter (·.kind = kind) = [] := by
  apply filter_kind_eq_nil _ hkind
  intro change h _
  rw [fieldChanges] at h
  rcases List.mem_append.1 h with h | h
  all_goals
    obtain ⟨_, _, rfl⟩ := List.mem_map.1 h
    simp

end

section

variable {thresholds : Thresholds} {olds news : List Method}

theorem filter_additionalFunctionality_methodChanges
    : (methodChanges thresholds olds news).filter (·.kind = .additionalFunctionality)
        =
      (added thresholds.rename olds news).map addition := by
  rw [methodChanges_eq, List.filter_append, filter_kind_partnerChanges (by decide), if_pos rfl]
  simp [added, List.filter_map, Function.comp_def, removal]

theorem filter_removedFunctionality_methodChanges
    : (methodChanges thresholds olds news).filter (·.kind = .removedFunctionality)
        =
      (removed thresholds.rename olds news).map removal := by
  rw [methodChanges_eq, List.filter_append, filter_kind_partnerChanges (by decide),
    if_neg (by decide)]
  simp [List.filter_map, Function.comp_def, removal]

theorem filter_method_methodChanges
    : (methodChanges thresholds olds news).filter (·.method.isSome)
        =
      (compared thresholds.rename olds news).flatMap fun pair =>
        (methodEdits thresholds.update pair.1 pair.2).map (ofEdit pair.2) := by
  rw [methodChanges_eq, List.filter_append, filter_method_partnerChanges]
  simp [compared, List.filter_map, Function.comp_def, removal]

theorem exists_of_mem_methodChanges {change : Change}
    (h : change ∈ methodChanges thresholds olds news) (hdeclared : change.kind.IsDeclared)
    : (∃ new, change = addition new) ∨ ∃ old, change = removal old := by
  rw [methodChanges_eq] at h
  rcases List.mem_append.1 h with h | h
  . obtain ⟨⟨new, partner⟩, -, h⟩ := List.mem_flatMap.1 h
    cases partner with
    | none => exact .inl ⟨new, List.mem_singleton.1 h⟩
    | some old => exact absurd hdeclared (not_isDeclared_of_mem_partnerChanges h)
  . obtain ⟨old, -, rfl⟩ := List.mem_map.1 h
    exact .inr ⟨old, rfl⟩

theorem filter_methodChanges_eq_nil {kind : ChangeKind} (hdeclared : kind.IsDeclared)
    (hkind : kind ∉ [ChangeKind.additionalFunctionality, .removedFunctionality])
    : (methodChanges thresholds olds news).filter (·.kind = kind) = [] := by
  apply filter_kind_eq_nil _ hkind
  rintro change h rfl
  rcases exists_of_mem_methodChanges h hdeclared with ⟨_, rfl⟩ | ⟨_, rfl⟩
  . exact List.mem_cons_self
  . exact List.mem_cons_of_mem _ List.mem_cons_self

theorem method_eq_none_of_mem_methodChanges {change : Change}
    (h : change ∈ methodChanges thresholds olds news) (hdeclared : change.kind.IsDeclared)
    : change.method = none := by
  rcases exists_of_mem_methodChanges h hdeclared with ⟨_, rfl⟩ | ⟨_, rfl⟩
  . rfl
  . rfl

end

end FileDiff

structure IsDivision (update : Float) (olds news : List Method) (changes : List Change)
    (compared : List (Method × Method)) (added removed : List Method) : Prop where
  olds_perm : (compared.map Prod.fst ++ removed).Perm olds
  news_perm : (compared.map Prod.snd ++ added).Perm news
  compared_eq : changes.filter (·.method.isSome)
    = compared.flatMap fun pair => (methodEdits update pair.1 pair.2).map (FileDiff.ofEdit pair.2)
  added_eq : changes.filter (·.kind = .additionalFunctionality)
    = added.map FileDiff.addition
  removed_eq : changes.filter (·.kind = .removedFunctionality)
    = removed.map FileDiff.removal

/--
Changes that report each declaration that only one of two versions has.
-/
structure AreDeclared (update : Float) (old new : Node) (changes : List Change) : Prop where
  additionalClass : ∃ added, IsExcess TypeDeclaration.name new.types old.types added
    ∧ changes.filter (·.kind = .additionalClass)
      = added.map fun type => ⟨.additionalClass, none, type.name, type.kind, none, type.name⟩
  removedClass : ∃ removed, IsExcess TypeDeclaration.name old.types new.types removed
    ∧ changes.filter (·.kind = .removedClass)
      = removed.map fun type => ⟨.removedClass, none, type.name, type.kind, type.name, none⟩
  additionalObjectState : ∃ added, IsExcess FileDiff.fieldKey new.fields old.fields added
    ∧ changes.filter (·.kind = .additionalObjectState)
      = added.map fun field =>
        ⟨.additionalObjectState, none, field.owner, "field_declaration", none, field.text⟩
  removedObjectState : ∃ removed, IsExcess FileDiff.fieldKey old.fields new.fields removed
    ∧ changes.filter (·.kind = .removedObjectState)
      = removed.map fun field =>
        ⟨.removedObjectState, none, field.owner, "field_declaration", field.text, none⟩
  functionality : ∃ compared added removed,
    IsDivision update old.methods new.methods changes compared added removed
  length_sub : ((changes.filter (·.kind = .additionalFunctionality)).length : Int)
    - (changes.filter (·.kind = .removedFunctionality)).length
      = (new.methods.length : Int) - old.methods.length
  method_eq_none : ∀ change ∈ changes, change.kind.IsDeclared → change.method = none

theorem IsDivision.length_sub {update : Float} {olds news added removed : List Method}
    {changes : List Change} {compared : List (Method × Method)}
    (h : IsDivision update olds news changes compared added removed)
    : ((changes.filter (·.kind = .additionalFunctionality)).length : Int)
        - (changes.filter (·.kind = .removedFunctionality)).length
      = (news.length : Int) - olds.length := by
  have holds := h.olds_perm.length_eq
  have hnews := h.news_perm.length_eq
  rw [List.length_append, List.length_map] at holds hnews
  rw [h.added_eq, h.removed_eq, List.length_map, List.length_map]
  omega

theorem filter_method_eq_nil {changes : List Change}
    (h : ∀ change ∈ changes, change.method = none) : changes.filter (·.method.isSome) = [] := by
  rw [List.filter_eq_nil_iff]
  intro change hchange
  rw [h change hchange]
  exact Bool.false_ne_true

section

variable (thresholds : Thresholds) (old new : Node)

theorem isDivision_fileChanges
    : IsDivision thresholds.update old.methods new.methods (fileChanges thresholds old new)
      (FileDiff.compared thresholds.rename old.methods new.methods)
      (FileDiff.added thresholds.rename old.methods new.methods)
      (FileDiff.removed thresholds.rename old.methods new.methods) where
  olds_perm := FileDiff.perm_compared_removed _ _ _
  news_perm := FileDiff.perm_compared_added _ _ _
  compared_eq := by
    rw [fileChanges, List.filter_append, List.filter_append,
      filter_method_eq_nil fun _ => FileDiff.method_eq_none_of_mem_typeChanges,
      filter_method_eq_nil fun _ => FileDiff.method_eq_none_of_mem_fieldChanges]
    exact FileDiff.filter_method_methodChanges
  added_eq := by
    rw [fileChanges, List.filter_append, List.filter_append,
      FileDiff.filter_typeChanges_eq_nil (by decide),
      FileDiff.filter_fieldChanges_eq_nil (by decide)]
    exact FileDiff.filter_additionalFunctionality_methodChanges
  removed_eq := by
    rw [fileChanges, List.filter_append, List.filter_append,
      FileDiff.filter_typeChanges_eq_nil (by decide),
      FileDiff.filter_fieldChanges_eq_nil (by decide)]
    exact FileDiff.filter_removedFunctionality_methodChanges

end

theorem areDeclared_fileChanges (thresholds : Thresholds) (old new : Node)
    : AreDeclared thresholds.update old new (fileChanges thresholds old new) := by
  obtain ⟨addedTypes, removedTypes, haddedTypes, hremovedTypes, htypes⟩ :=
    FileDiff.exists_typeChanges_eq old.types new.types
  obtain ⟨addedFields, removedFields, haddedFields, hremovedFields, hfields⟩ :=
    FileDiff.exists_fieldChanges_eq old.fields new.fields
  have hdivision := isDivision_fileChanges thresholds old new
  constructor
  case additionalClass =>
    refine ⟨addedTypes, haddedTypes, ?_⟩
    rw [fileChanges, List.filter_append, List.filter_append,
      FileDiff.filter_fieldChanges_eq_nil (by decide),
      FileDiff.filter_methodChanges_eq_nil (by decide) (by decide), htypes]
    simp [List.filter_map, Function.comp_def]
  case removedClass =>
    refine ⟨removedTypes, hremovedTypes, ?_⟩
    rw [fileChanges, List.filter_append, List.filter_append,
      FileDiff.filter_fieldChanges_eq_nil (by decide),
      FileDiff.filter_methodChanges_eq_nil (by decide) (by decide), htypes]
    simp [List.filter_map, Function.comp_def]
  case additionalObjectState =>
    refine ⟨addedFields, haddedFields, ?_⟩
    rw [fileChanges, List.filter_append, List.filter_append,
      FileDiff.filter_typeChanges_eq_nil (by decide),
      FileDiff.filter_methodChanges_eq_nil (by decide) (by decide), hfields]
    simp [List.filter_map, Function.comp_def]
  case removedObjectState =>
    refine ⟨removedFields, hremovedFields, ?_⟩
    rw [fileChanges, List.filter_append, List.filter_append,
      FileDiff.filter_typeChanges_eq_nil (by decide),
      FileDiff.filter_methodChanges_eq_nil (by decide) (by decide), hfields]
    simp [List.filter_map, Function.comp_def]
  case functionality => exact ⟨_, _, _, hdivision⟩
  case length_sub => exact hdivision.length_sub
  case method_eq_none =>
    intro change hchange hdeclared
    rw [fileChanges] at hchange
    rcases List.mem_append.1 hchange with hchange | hchange
    . rcases List.mem_append.1 hchange with hchange | hchange
      . exact FileDiff.method_eq_none_of_mem_typeChanges hchange
      . exact FileDiff.method_eq_none_of_mem_fieldChanges hchange
    . exact FileDiff.method_eq_none_of_mem_methodChanges hchange hdeclared

end MethodHistory
