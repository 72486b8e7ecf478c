import MethodHistory.Proofs.Diff.Alike
import MethodHistory.Proofs.FirstFit
import Mathlib.Algebra.Order.Group.Multiset
import Mathlib.Data.List.Flatten

/-!
This module contains the comparison of parameter lists: the events turn the one into the other, each
parameter that comes or goes has one of them, and the names without one have kept their order.
-/

namespace MethodHistory

theorem filter_contains_of_sublist {α : Type} [DecidableEq α] {xs ys : List α} (h : xs.Sublist ys)
    (hnodup : ys.Nodup) : ys.filter xs.contains = xs := by
  have hsublist : xs.Sublist (ys.filter xs.contains) := by
    have hfilter := h.filter xs.contains
    rwa [List.filter_eq_self.2 fun x hx => List.contains_iff_mem.2 hx] at hfilter
  apply (hsublist.eq_of_length _).symm
  apply List.Perm.length_eq
  rw [List.perm_ext_iff_of_nodup (h.nodup hnodup) (hnodup.filter _)]
  intro x
  rw [List.mem_filter, List.contains_iff_mem]
  exact ⟨fun hx => ⟨h.subset hx, hx⟩, And.right⟩

theorem FirstFit.perm_map {α β γ : Type} {found : List (α × Option β)} {f : α × Option β → γ}
    : (found.map f).Perm
      ((joined found).map (fun pair => f (pair.1, some pair.2))
        ++ (alone found).map fun x => f (x, none)) := by
  induction found with
  | nil => exact .nil
  | cons first found ih =>
    obtain ⟨x, partner⟩ := first
    cases partner with
    | none => exact (ih.cons _).trans List.perm_middle.symm
    | some y => exact ih.cons _

theorem eq_of_perm_of_map_key {α κ : Type} {key : α → κ} {xs ys : List α} (hperm : xs.Perm ys)
    (hkeys : xs.map key = ys.map key) (hnodup : (ys.map key).Nodup) : xs = ys := by
  apply List.ext_getElem hperm.length_eq
  intro i hx hy
  have hkey : xs[i]?.map key = ys[i]?.map key := by
    rw [← List.getElem?_map, hkeys, List.getElem?_map]
  rw [List.getElem?_eq_getElem hx, List.getElem?_eq_getElem hy] at hkey
  exact List.inj_on_of_nodup_map hnodup (hperm.subset (List.getElem_mem hx)) (List.getElem_mem hy)
    (Option.some.inj hkey)

namespace ParameterDiff

variable {olds news : List Parameter} {old new : Parameter} {name : String}

/-! Parameters that come and go -/

def renamed (olds news : List Parameter) : List (Parameter × Parameter) :=
  FirstFit.joined (firstFit (fun old new : Parameter => new.type = old.type)
    (without olds news) (without news olds)).1

def removed (olds news : List Parameter) : List Parameter :=
  FirstFit.alone (firstFit (fun old new : Parameter => new.type = old.type)
    (without olds news) (without news olds)).1

def added (olds news : List Parameter) : List Parameter :=
  (firstFit (fun old new : Parameter => new.type = old.type)
    (without olds news) (without news olds)).2

theorem renamings_perm (olds news : List Parameter)
    : (renamings olds news).Perm
      ((renamed olds news).map (fun pair => edit .parameterRenaming (some pair.1) (some pair.2))
        ++ (removed olds news).map (fun old => edit .parameterDelete (some old) none)
        ++ (added olds news).map fun new => edit .parameterInsert none (some new)) := by
  exact FirstFit.perm_map.append_right _

theorem without_perm_old (olds news : List Parameter)
    : ((renamed olds news).map Prod.fst ++ removed olds news).Perm (without olds news) := by
  exact (perm_joined_firstFit _ _ _).1

theorem without_perm_new (olds news : List Parameter)
    : ((renamed olds news).map Prod.snd ++ added olds news).Perm (without news olds) := by
  exact (perm_joined_firstFit _ _ _).2

theorem mem_without
    : old ∈ without olds news ↔ old ∈ olds ∧ ∀ new ∈ news, new.name ≠ old.name := by
  simp [without]

/-! Parameters that stay -/

theorem named_eq_some_iff (h : (olds.map Parameter.name).Nodup)
    : named olds name = some old ↔ old ∈ olds ∧ old.name = name := by
  constructor
  . intro hnamed
    have hmem := List.mem_filter.1 (List.mem_of_getLast? hnamed)
    exact ⟨hmem.1, of_decide_eq_true hmem.2⟩
  . rintro ⟨hmem, rfl⟩
    exact named_of_mem h hmem

def stayed (olds news : List Parameter) : List (Parameter × Parameter) :=
  news.filterMap fun new => (named olds new.name).map (·, new)

theorem mem_stayed (h : (olds.map Parameter.name).Nodup)
    : (old, new) ∈ stayed olds news ↔ old ∈ olds ∧ new ∈ news ∧ old.name = new.name := by
  rw [stayed, List.mem_filterMap]
  constructor
  . rintro ⟨other, hother, hpair⟩
    obtain ⟨_, hnamed, heq⟩ := Option.map_eq_some_iff.1 hpair
    cases heq
    have hold := (named_eq_some_iff h).1 hnamed
    exact ⟨hold.1, hother, hold.2⟩
  . rintro ⟨hold, hnew, hname⟩
    exact ⟨new, hnew, by rw [(named_eq_some_iff h).2 ⟨hold, hname⟩, Option.map_some]⟩

section

variable (holds : (olds.map Parameter.name).Nodup) (hnews : (news.map Parameter.name).Nodup)

include holds hnews

theorem nodup_map_fst_stayed : ((stayed olds news).map Prod.fst).Nodup := by
  rw [List.Nodup, List.pairwise_map] at hnews ⊢
  rw [stayed, List.pairwise_filterMap]
  apply hnews.imp
  intro new other hname pair hpair otherpair hotherpair heq
  obtain ⟨old, hold, rfl⟩ := Option.map_eq_some_iff.1 hpair
  obtain ⟨otherold, hotherold, rfl⟩ := Option.map_eq_some_iff.1 hotherpair
  apply hname
  rw [← ((named_eq_some_iff holds).1 hold).2, ← ((named_eq_some_iff holds).1 hotherold).2]
  exact congrArg Parameter.name heq

theorem map_swap_stayed : ((stayed olds news).map Prod.swap).Perm (stayed news olds) := by
  rw [List.perm_ext_iff_of_nodup
    ((nodup_map_fst_stayed holds hnews).of_map.map Prod.swap_injective)
    (nodup_map_fst_stayed hnews holds).of_map]
  rintro ⟨new, old⟩
  change Prod.swap (old, new) ∈ _ ↔ _
  rw [List.mem_map_of_injective Prod.swap_injective, mem_stayed holds, mem_stayed hnews]
  exact ⟨fun h => ⟨h.2.1, h.1, h.2.2.symm⟩, fun h => ⟨h.2.1, h.1, h.2.2.symm⟩⟩

theorem stayed_perm_old
    : ((stayed olds news).map Prod.fst ++ without olds news).Perm olds := by
  have hwithout : (without olds news).Nodup := holds.of_map.filter _
  have hdisjoint : ∀ old ∈ (stayed olds news).map Prod.fst, ∀ other ∈ without olds news,
      old ≠ other := by
    rintro old hold _ hother rfl
    obtain ⟨⟨_, new⟩, hpair, rfl⟩ := List.mem_map.1 hold
    have hpair := (mem_stayed holds).1 hpair
    exact (mem_without.1 hother).2 new hpair.2.1 hpair.2.2.symm
  rw [List.perm_ext_iff_of_nodup (List.nodup_append.2
    ⟨nodup_map_fst_stayed holds hnews, hwithout, hdisjoint⟩) holds.of_map]
  intro old
  rw [List.mem_append, List.mem_map, mem_without]
  constructor
  . rintro (⟨⟨_, new⟩, hpair, rfl⟩ | hold)
    . exact ((mem_stayed holds).1 hpair).1
    . exact hold.1
  . intro hold
    by_cases hname : ∃ new ∈ news, new.name = old.name
    . obtain ⟨new, hnew, hname⟩ := hname
      exact .inl ⟨(old, new), (mem_stayed holds).2 ⟨hold, hnew, hname.symm⟩, rfl⟩
    . exact .inr ⟨hold, fun new hnew heq => hname ⟨new, hnew, heq⟩⟩

theorem stayed_perm_new
    : ((stayed olds news).map Prod.snd ++ without news olds).Perm news := by
  have hswap := (map_swap_stayed holds hnews).map Prod.fst
  rw [List.map_map] at hswap
  exact (hswap.append_right _).trans (stayed_perm_old hnews holds)

end

def changed (olds news : List Parameter) : List (Parameter × Parameter) :=
  (stayed olds news).filter fun pair => pair.1.type ≠ pair.2.type

def unchanged (olds news : List Parameter) : List (Parameter × Parameter) :=
  (stayed olds news).filter fun pair => pair.1.type = pair.2.type

theorem typeChanges_eq (olds news : List Parameter)
    : typeChanges olds news
        =
      (changed olds news).map fun pair =>
        edit .parameterTypeChange (some pair.1) (some pair.2) := by
  rw [typeChanges, changed, stayed, List.filter_filterMap, List.map_filterMap]
  congr 1
  funext new
  cases named olds new.name with
  | none => rfl
  | some old =>
    rw [Option.bind_some, Option.map_some, Option.filter_some]
    split
    next h => rw [if_pos (decide_eq_true h), Option.map_some]
    next h => rw [if_neg (by simpa using h), Option.map_none]

theorem stayed_perm (olds news : List Parameter)
    : (changed olds news ++ unchanged olds news).Perm (stayed olds news) := by
  have hnot : unchanged olds news
      = (stayed olds news).filter fun pair => !decide (pair.1.type ≠ pair.2.type) := by
    simp [unchanged]
  rw [hnot]
  exact List.filter_append_perm _ _

/-! Parameters in another order -/

theorem keptInOrder_sublist (olds news : List String)
    : (keptInOrder olds news).Sublist olds ∧ (keptInOrder olds news).Sublist news := by
  constructor
  . conv_rhs => rw [← @align_flatMap_olds _ _ _ id (fun _ => true) olds news]
    apply List.Sublist.flatMap_right
    rintro (⟨run, run'⟩ | ⟨_, _⟩) hsegment
    . have hkeys := map_key_of_run_mem_align hsegment
      rw [List.map_id, List.map_id] at hkeys
      rw [hkeys]
      exact List.Sublist.refl _
    . exact List.nil_sublist _
  . conv_rhs => rw [← @align_flatMap_news _ _ _ id (fun _ => true) olds news]
    apply List.Sublist.flatMap_right
    rintro (⟨run, run'⟩ | ⟨_, _⟩) hsegment
    . exact List.Sublist.refl _
    . exact List.nil_sublist _

theorem mem_common
    : name ∈ common olds news
        ↔
      name ∈ olds.map Parameter.name ∧ name ∈ news.map Parameter.name := by
  rw [common, List.mem_filter]
  simp

def moved (olds news : List Parameter) : List String :=
  if common olds news = common news olds then []
  else
    (common news olds).filter fun name =>
      !(keptInOrder (common olds news) (common news olds)).contains name

theorem reorderings_eq (olds news : List Parameter)
    : reorderings olds news
        =
      (moved olds news).map fun name =>
        edit .parameterOrderingChange (named olds name) (named news name) := by
  rw [reorderings, moved]
  split
  . rfl
  . rfl

theorem filter_common_eq (holds : (olds.map Parameter.name).Nodup)
    (hnews : (news.map Parameter.name).Nodup)
    : (common olds news).filter (· ∉ moved olds news)
        =
      (common news olds).filter (· ∉ moved olds news) := by
  by_cases h : common olds news = common news olds
  . rw [h]
  . have hkept := keptInOrder_sublist (common olds news) (common news olds)
    have hmoved : ∀ name ∈ common news olds, decide (name ∉ moved olds news)
        = (keptInOrder (common olds news) (common news olds)).contains name := by
      intro name hname
      rw [moved, if_neg h, Bool.eq_iff_iff, decide_eq_true_iff, List.mem_filter]
      simp [hname]
    rw [List.filter_congr hmoved, filter_contains_of_sublist hkept.2 (hnews.filter _)]
    rw [List.filter_congr fun name hname => hmoved name (mem_common.2 (mem_common.1 hname).symm),
      filter_contains_of_sublist hkept.1 (holds.filter _)]

theorem moved_ne_nil (holds : (olds.map Parameter.name).Nodup)
    (hnews : (news.map Parameter.name).Nodup) (h : common olds news ≠ common news olds)
    : moved olds news ≠ [] := by
  intro hmoved
  have heq := filter_common_eq holds hnews
  rw [hmoved, List.filter_eq_self.2 (by simp), List.filter_eq_self.2 (by simp)] at heq
  exact h heq

end ParameterDiff

/-! Events and the parameters that they are about -/

namespace Edit

def removedParameter? (edit : Edit) : Option String :=
  if edit.kind ∈ [.parameterRenaming, .parameterDelete, .parameterTypeChange] then edit.before
  else none

def addedParameter? (edit : Edit) : Option String :=
  if edit.kind ∈ [.parameterRenaming, .parameterInsert, .parameterTypeChange] then edit.after
  else none

end Edit

/--
The parameters that the events of two parameter lists are about, by pairs where an event has an old
and a new one, and the names of those that were moved.
-/
structure ParameterEvents where
  renamed : List (Parameter × Parameter)
  removed : List Parameter
  added : List Parameter
  changed : List (Parameter × Parameter)
  moved : List String

namespace ParameterEvents

open ParameterDiff

def olds (events : ParameterEvents) : List Parameter :=
  events.renamed.map Prod.fst ++ events.removed ++ events.changed.map Prod.fst

def news (events : ParameterEvents) : List Parameter :=
  events.renamed.map Prod.snd ++ events.added ++ events.changed.map Prod.snd

def edits (events : ParameterEvents) (olds news : List Parameter) : List Edit :=
  events.renamed.map (fun pair => edit .parameterRenaming (some pair.1) (some pair.2))
    ++ events.removed.map (fun old => edit .parameterDelete (some old) none)
    ++ events.added.map (fun new => edit .parameterInsert none (some new))
    ++ events.changed.map (fun pair => edit .parameterTypeChange (some pair.1) (some pair.2))
    ++ events.moved.map fun name =>
      edit .parameterOrderingChange (named olds name) (named news name)

theorem filterMap_removedParameter?_edits (events : ParameterEvents) (olds news : List Parameter)
    : (events.edits olds news).filterMap Edit.removedParameter?
        =
      events.olds.map Parameter.text := by
  simp [edits, ParameterEvents.olds, Edit.removedParameter?, ParameterDiff.edit,
    List.filterMap_append, List.filterMap_map, Function.comp_def]

theorem filterMap_addedParameter?_edits (events : ParameterEvents) (olds news : List Parameter)
    : (events.edits olds news).filterMap Edit.addedParameter?
        =
      events.news.map Parameter.text := by
  simp [edits, ParameterEvents.news, Edit.addedParameter?, ParameterDiff.edit,
    List.filterMap_append, List.filterMap_map, Function.comp_def]

end ParameterEvents

/--
Edits that turn one parameter list into another one, each about the parameters of one event.
-/
structure IsParameterPatch (edits : List Edit) (olds news : List Parameter)
    (events : ParameterEvents) : Prop where
  edits_perm : edits.Perm (events.edits olds news)
  removed_le : (edits.filterMap Edit.removedParameter? : Multiset String)
    ≤ (olds.map Parameter.text : Multiset String)
  patched : (olds.map Parameter.text : Multiset String)
    - (edits.filterMap Edit.removedParameter? : Multiset String)
    + (edits.filterMap Edit.addedParameter? : Multiset String)
      = (news.map Parameter.text : Multiset String)
  count_old : ∀ old ∈ olds, (∀ new ∈ news, new.name ≠ old.name) → events.olds.count old = 1
  count_new : ∀ new ∈ news, (∀ old ∈ olds, old.name ≠ new.name) → events.news.count new = 1
  keptInOrder : (ParameterDiff.common olds news).filter (· ∉ events.moved)
    = (ParameterDiff.common news olds).filter (· ∉ events.moved)
  reordered : ParameterDiff.common olds news ≠ ParameterDiff.common news olds →
    ∃ edit ∈ edits, edit.kind = .parameterOrderingChange
  silent : edits = [] ↔ olds = news

namespace ParameterDiff

variable {olds news : List Parameter}

def events (olds news : List Parameter) : ParameterEvents where
  renamed := renamed olds news
  removed := removed olds news
  added := added olds news
  changed := changed olds news
  moved := moved olds news

theorem perm_edits_events (olds news : List Parameter)
    : (parameterEdits olds news).Perm ((events olds news).edits olds news) := by
  rw [parameterEdits, typeChanges_eq, reorderings_eq]
  exact ((renamings_perm olds news).append_right _).append_right _

section

variable (holds : (olds.map Parameter.name).Nodup) (hnews : (news.map Parameter.name).Nodup)

include holds hnews

theorem perm_olds_events
    : ((events olds news).olds ++ (unchanged olds news).map Prod.fst).Perm olds := by
  have hstayed := (stayed_perm olds news).map Prod.fst
  rw [List.map_append] at hstayed
  rw [ParameterEvents.olds, List.append_assoc]
  exact ((without_perm_old olds news).append hstayed).trans
    (List.perm_append_comm.trans (stayed_perm_old holds hnews))

theorem perm_news_events
    : ((events olds news).news ++ (unchanged olds news).map Prod.fst).Perm news := by
  have hsame : (unchanged olds news).map Prod.fst = (unchanged olds news).map Prod.snd := by
    apply List.map_congr_left
    rintro ⟨old, new⟩ hpair
    have hpair := List.mem_filter.1 hpair
    have hname := ((mem_stayed holds).1 hpair.1).2.2
    have htype := of_decide_eq_true hpair.2
    cases old
    cases new
    cases hname
    cases htype
    rfl
  have hstayed := (stayed_perm olds news).map Prod.snd
  rw [List.map_append] at hstayed
  rw [hsame, ParameterEvents.news, List.append_assoc]
  exact ((without_perm_new olds news).append hstayed).trans
    (List.perm_append_comm.trans (stayed_perm_new holds hnews))

theorem coe_texts_events
    : (olds.map Parameter.text : Multiset String)
        = ((parameterEdits olds news).filterMap Edit.removedParameter? : Multiset String)
          + (((unchanged olds news).map Prod.fst).map Parameter.text : Multiset String)
      ∧ (news.map Parameter.text : Multiset String)
        = ((parameterEdits olds news).filterMap Edit.addedParameter? : Multiset String)
          + (((unchanged olds news).map Prod.fst).map Parameter.text : Multiset String) := by
  have hedits := perm_edits_events olds news
  have hremoved := hedits.filterMap Edit.removedParameter?
  have hadded := hedits.filterMap Edit.addedParameter?
  rw [ParameterEvents.filterMap_removedParameter?_edits] at hremoved
  rw [ParameterEvents.filterMap_addedParameter?_edits] at hadded
  rw [Multiset.coe_eq_coe.2 hremoved, Multiset.coe_eq_coe.2 hadded, Multiset.coe_add,
    Multiset.coe_add, ← List.map_append, ← List.map_append, Multiset.coe_eq_coe,
    Multiset.coe_eq_coe]
  exact ⟨((perm_olds_events holds hnews).map _).symm, ((perm_news_events holds hnews).map _).symm⟩

end

theorem common_of_perm (h : olds.Perm news) : common olds news = olds.map Parameter.name := by
  rw [common, List.filter_eq_self]
  intro name hname
  obtain ⟨old, hold, rfl⟩ := List.mem_map.1 hname
  exact List.any_eq_true.2 ⟨old, h.subset hold, decide_eq_true rfl⟩

theorem eq_of_parameterEdits_eq_nil (holds : (olds.map Parameter.name).Nodup)
    (hnews : (news.map Parameter.name).Nodup) (h : parameterEdits olds news = [])
    : olds = news := by
  have hedits := perm_edits_events olds news
  rw [h, List.nil_perm] at hedits
  simp only [ParameterEvents.edits, List.append_eq_nil_iff, List.map_eq_nil_iff] at hedits
  obtain ⟨⟨⟨⟨hrenamed, hremoved⟩, hadded⟩, hchanged⟩, hmoved⟩ := hedits
  have holdperm := perm_olds_events holds hnews
  have hnewperm := perm_news_events holds hnews
  rw [ParameterEvents.olds, hrenamed, hremoved, hchanged] at holdperm
  rw [ParameterEvents.news, hrenamed, hadded, hchanged] at hnewperm
  have hperm : olds.Perm news := holdperm.symm.trans hnewperm
  apply eq_of_perm_of_map_key hperm _ hnews
  rw [← common_of_perm hperm, ← common_of_perm hperm.symm]
  by_contra hne
  exact moved_ne_nil holds hnews hne hmoved

end ParameterDiff

theorem exists_isParameterPatch {olds news : List Parameter}
    (holds : (olds.map Parameter.name).Nodup) (hnews : (news.map Parameter.name).Nodup)
    : ∃ events, IsParameterPatch (parameterEdits olds news) olds news events := by
  have htexts := ParameterDiff.coe_texts_events holds hnews
  have holdperm := ParameterDiff.perm_olds_events holds hnews
  have hnewperm := ParameterDiff.perm_news_events holds hnews
  have hedits := ParameterDiff.perm_edits_events olds news
  refine ⟨ParameterDiff.events olds news, ?_⟩
  constructor
  case edits_perm => exact hedits
  case removed_le =>
    rw [htexts.1]
    exact Multiset.le_add_right _ _
  case patched =>
    rw [htexts.1, htexts.2, add_tsub_cancel_left, add_comm]
  case count_old =>
    intro old hold hnone
    have hmem : old ∈ (ParameterDiff.events olds news).olds := by
      have hpart := (ParameterDiff.without_perm_old olds news).symm.subset
        (ParameterDiff.mem_without.2 ⟨hold, hnone⟩)
      exact List.mem_append_left _ hpart
    have hnodup := (holdperm.nodup_iff.2 holds.of_map).of_append_left
    exact List.count_eq_one_of_mem hnodup hmem
  case count_new =>
    intro new hnew hnone
    have hmem : new ∈ (ParameterDiff.events olds news).news := by
      have hpart := (ParameterDiff.without_perm_new olds news).symm.subset
        (ParameterDiff.mem_without.2 ⟨hnew, hnone⟩)
      exact List.mem_append_left _ hpart
    have hnodup := (hnewperm.nodup_iff.2 hnews.of_map).of_append_left
    exact List.count_eq_one_of_mem hnodup hmem
  case keptInOrder => exact ParameterDiff.filter_common_eq holds hnews
  case reordered =>
    intro hne
    obtain ⟨name, hname⟩ := List.exists_mem_of_ne_nil _ (ParameterDiff.moved_ne_nil holds hnews hne)
    exact ⟨_, hedits.symm.subset (List.mem_append_right _ (List.mem_map_of_mem hname)), rfl⟩
  case silent =>
    constructor
    . exact ParameterDiff.eq_of_parameterEdits_eq_nil holds hnews
    . rintro rfl
      exact parameterEdits_self holds

/-! A renamed parameter, one that goes, and two that change places, one of them with a new type -/

theorem exists_isParameterPatch_of_sample
    : ∃ events, IsParameterPatch
      (parameterEdits [⟨"int", "a"⟩, ⟨"int", "b"⟩, ⟨"int", "c"⟩, ⟨"long", "d"⟩]
        [⟨"int", "d"⟩, ⟨"int", "c"⟩, ⟨"int", "e"⟩])
      [⟨"int", "a"⟩, ⟨"int", "b"⟩, ⟨"int", "c"⟩, ⟨"long", "d"⟩]
      [⟨"int", "d"⟩, ⟨"int", "c"⟩, ⟨"int", "e"⟩] events := by
  apply exists_isParameterPatch
  . decide
  . decide

end MethodHistory
