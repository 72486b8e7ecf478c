import MethodHistory.Proofs.Diff.Legible
import MethodHistory.Proofs.Diff.Resolution
import MethodHistory.Proofs.Diff.SingleEdit
import Mathlib.Data.List.Flatten
import Mathlib.Data.List.Perm.Basic

/-!
This module contains what the comparison of two lists does with their elements: each one is aligned,
paired, dropped or added, and only one of these.
-/

namespace MethodHistory

namespace Step

variable {α : Type}

def paired? : Step α → Option (α × α)
  | .pair old new => some (old, new)
  | _ => none

def dropped? : Step α → Option α
  | .drop old => some old
  | _ => none

def added? : Step α → Option α
  | .add new => some new
  | _ => none

def ofFound : α × Option α → Step α
  | (new, some old) => .pair old new
  | (new, none) => .add new

end Step

/--
The pairs of elements of two lists that count as two versions of one, and the rest of each list.
-/
structure Account (α : Type) where
  paired : List (α × α)
  dropped : List α
  added : List α

namespace Account

variable {α : Type}

instance : Append (Account α) where
  append account more :=
    ⟨account.paired ++ more.paired, account.dropped ++ more.dropped, account.added ++ more.added⟩

def ofSteps (steps : List (Step α)) : Account α where
  paired := steps.filterMap Step.paired?
  dropped := steps.filterMap Step.dropped?
  added := steps.filterMap Step.added?

structure Covers (account : Account α) (olds news : List α) : Prop where
  olds_perm : (account.paired.map Prod.fst ++ account.dropped).Perm olds
  news_perm : (account.paired.map Prod.snd ++ account.added).Perm news

theorem ofSteps_append (steps more : List (Step α))
    : ofSteps (steps ++ more) = ofSteps steps ++ ofSteps more := by
  rw [ofSteps, List.filterMap_append, List.filterMap_append, List.filterMap_append]
  rfl

theorem ofSteps_drop (olds : List α) : ofSteps (olds.map .drop) = ⟨[], olds, []⟩ := by
  rw [ofSteps, List.filterMap_map, List.filterMap_map, List.filterMap_map]
  congr 1
  . exact List.filterMap_eq_nil_iff.2 fun _ _ => rfl
  . exact List.filterMap_some
  . exact List.filterMap_eq_nil_iff.2 fun _ _ => rfl

theorem ofSteps_found (found : List (α × Option α))
    : ofSteps (found.map .ofFound)
        =
      ⟨(FirstFit.joined found).map Prod.swap, [], FirstFit.alone found⟩ := by
  rw [ofSteps, List.filterMap_map, List.filterMap_map, List.filterMap_map]
  congr 1
  . exact FirstFit.filterMap_eq_map_joined (fun _ _ => rfl) fun _ => rfl
  . rw [List.filterMap_eq_nil_iff]
    rintro ⟨new, partner⟩ -
    cases partner <;> rfl
  . rw [FirstFit.filterMap_eq_map_alone (g := id) (fun _ _ => rfl) fun _ => rfl, List.map_id]

theorem covers_found {found : List (α × Option α)} {rest olds news : List α}
    (hnews : (found.map Prod.fst).Perm news) (holds : (found.filterMap Prod.snd ++ rest).Perm olds)
    : Covers ⟨(FirstFit.joined found).map Prod.swap, rest, FirstFit.alone found⟩ olds news := by
  constructor
  . rw [List.map_map]
    change ((FirstFit.joined found).map Prod.snd ++ rest).Perm olds
    rwa [FirstFit.map_snd_joined]
  . rw [List.map_map]
    exact (FirstFit.perm_joined_alone found).trans hnews

theorem covers_flatMap {β : Type} {parts : List β} {account : β → Account α}
    {olds news : β → List α}
    (h : ∀ part ∈ parts, (account part).Covers (olds part) (news part))
    : Covers ⟨parts.flatMap fun part => (account part).paired,
        parts.flatMap fun part => (account part).dropped,
        parts.flatMap fun part => (account part).added⟩ (parts.flatMap olds)
        (parts.flatMap news) := by
  constructor
  . rw [List.map_flatMap]
    exact (List.flatMap_append_perm _ _ _).trans
      (List.Perm.flatMap_left _ fun part hpart => (h part hpart).olds_perm)
  . rw [List.map_flatMap]
    exact (List.flatMap_append_perm _ _ _).trans
      (List.Perm.flatMap_left _ fun part hpart => (h part hpart).news_perm)

theorem Covers.of_perm {paired matched : List (α × α)} {dropped added olds news : List α}
    (h : Covers ⟨matched, dropped, added⟩ olds news) (hperm : paired.Perm matched)
    : Covers ⟨paired, dropped, added⟩ olds news :=
  ⟨((hperm.map _).append_right _).trans h.olds_perm,
    ((hperm.map _).append_right _).trans h.news_perm⟩

end Account

namespace BodyDiff

/-! The steps of a gap -/

def partners (isPairable : Statement → Statement → Bool) (olds news : List Statement)
    : List (Statement × Option Statement) :=
  (pairUp isPairable olds news).2.map Prod.swap

section

variable {isPairable : Statement → Statement → Bool} {olds news : List Statement}

theorem partners_spec (isPairable : Statement → Statement → Bool) (olds news : List Statement)
    : (partners isPairable olds news).map Prod.fst = news
      ∧ ((partners isPairable olds news).filterMap Prod.snd
        ++ (pairUp isPairable olds news).1).Perm olds
      ∧ ((partners isPairable olds news).filterMap Prod.snd).Sublist olds := by
  rw [partners, List.map_map, List.filterMap_map]
  change (pairUp isPairable olds news).2.map Prod.snd = news
    ∧ ((pairUp isPairable olds news).2.filterMap Prod.fst ++ _).Perm olds
    ∧ ((pairUp isPairable olds news).2.filterMap Prod.fst).Sublist olds
  have hskipped (skipped : List Statement)
      : (skipped.map fun new => ((none : Option Statement), new)).map Prod.snd = skipped
        ∧ (skipped.map fun new => ((none : Option Statement), new)).filterMap Prod.fst = [] := by
    rw [List.map_map, List.filterMap_map]
    exact ⟨List.map_id' skipped, List.filterMap_eq_nil_iff.2 fun _ _ => rfl⟩
  induction olds generalizing news with
  | nil =>
    rw [pairUp]
    dsimp only
    rw [(hskipped news).1, (hskipped news).2]
    exact ⟨rfl, .nil, .slnil⟩
  | cons old olds ih =>
    rw [pairUp]
    split
    next skipped new rest hspan =>
      obtain ⟨rfl, -⟩ := eq_append_of_span hspan
      obtain ⟨hnews, hperm, hsublist⟩ := ih rest
      dsimp only
      rw [List.map_append, List.map_cons, (hskipped skipped).1, hnews, List.filterMap_append,
        (hskipped skipped).2, List.nil_append]
      exact ⟨rfl, hperm.cons old, hsublist.cons_cons old⟩
    next =>
      obtain ⟨hnews, hperm, hsublist⟩ := ih news
      exact ⟨hnews, List.perm_middle.trans (hperm.cons old), hsublist.cons old⟩

theorem ofSteps_gapSteps (isPairable : Statement → Statement → Bool) (olds news : List Statement)
    : Account.ofSteps (gapSteps isPairable olds news)
        =
      ⟨(FirstFit.joined (partners isPairable olds news)).map Prod.swap,
        (pairUp isPairable olds news).1, FirstFit.alone (partners isPairable olds news)⟩ := by
  have hsteps : gapSteps isPairable olds news
      = (pairUp isPairable olds news).1.map .drop
        ++ (partners isPairable olds news).map .ofFound := by
    rw [gapSteps, partners, List.map_map]
    dsimp only
    congr 2
    funext pair
    rcases pair with ⟨_ | old, new⟩ <;> rfl
  rw [hsteps, Account.ofSteps_append, Account.ofSteps_drop, Account.ofSteps_found]
  change Account.mk _ _ _ = _
  rw [List.append_nil]
  rfl

theorem covers_gapSteps (isPairable : Statement → Statement → Bool) (olds news : List Statement)
    : (Account.ofSteps (gapSteps isPairable olds news)).Covers olds news := by
  obtain ⟨hnews, holds, -⟩ := partners_spec isPairable olds news
  rw [ofSteps_gapSteps]
  exact Account.covers_found (List.Perm.of_eq hnews) holds

/-! The steps of two statement lists -/

def alignedPairs (olds news : List Statement) : List (Statement × Statement) :=
  (align Statement.text (fun _ => true) olds news).flatMap fun
    | .run olds news => olds.zip news
    | .gap .. => []

/--
The steps are a complete account of two statement lists. Aligned statements have the same text,
paired ones the same kind, and the two sides of all these pairs stand in the same order.
-/
structure AreAccounted (isPairable : Statement → Statement → Bool) (olds news : List Statement)
    : Prop where
  covers : Account.Covers
    ⟨alignedPairs olds news ++ (Account.ofSteps (steps isPairable olds news)).paired,
      (Account.ofSteps (steps isPairable olds news)).dropped,
      (Account.ofSteps (steps isPairable olds news)).added⟩ olds news
  aligned_text : ∀ pair ∈ alignedPairs olds news, pair.1.text = pair.2.text
  paired_kind : ∀ pair ∈ (Account.ofSteps (steps isPairable olds news)).paired,
    pair.1.kind = pair.2.kind
  inOrder : ∃ pairs : List (Statement × Statement),
    pairs.Perm (alignedPairs olds news ++ (Account.ofSteps (steps isPairable olds news)).paired)
      ∧ (pairs.map Prod.fst).Sublist olds ∧ (pairs.map Prod.snd).Sublist news

def segmentAccount (isPairable : Statement → Statement → Bool)
    : Segment Statement → Account Statement
  | .run olds news => ⟨olds.zip news, [], []⟩
  | .gap olds news => .ofSteps (gapSteps isPairable olds news)

theorem segmentAccount_spec (isPairable : Statement → Statement → Bool) (olds news : List Statement)
    {segment : Segment Statement}
    (h : segment ∈ align Statement.text (fun _ => true) olds news)
    : (segmentAccount isPairable segment).Covers segment.olds segment.news
      ∧ ((segmentAccount isPairable segment).paired.map Prod.fst).Sublist segment.olds
      ∧ ((segmentAccount isPairable segment).paired.map Prod.snd).Sublist segment.news := by
  cases segment with
  | run runOlds runNews =>
    have hkeys := congrArg List.length (map_key_of_run_mem_align h)
    rw [List.length_map, List.length_map] at hkeys
    have holds : (runOlds.zip runNews).map Prod.fst = runOlds :=
      List.map_fst_zip (Nat.le_of_eq hkeys)
    have hnews : (runOlds.zip runNews).map Prod.snd = runNews :=
      List.map_snd_zip (Nat.le_of_eq hkeys.symm)
    rw [segmentAccount]
    dsimp only
    rw [holds, hnews]
    refine ⟨⟨?_, ?_⟩, List.Sublist.refl _, List.Sublist.refl _⟩
    . rw [holds, List.append_nil]
      exact List.Perm.refl _
    . rw [hnews, List.append_nil]
      exact List.Perm.refl _
  | gap gapOlds gapNews =>
    refine ⟨covers_gapSteps isPairable gapOlds gapNews, ?_⟩
    obtain ⟨hnews, -, holds⟩ := partners_spec isPairable gapOlds gapNews
    have hjoined := FirstFit.sublist_joined (partners isPairable gapOlds gapNews)
    rw [hnews] at hjoined
    rw [← FirstFit.map_snd_joined] at holds
    rw [segmentAccount, ofSteps_gapSteps, List.map_map, List.map_map]
    exact ⟨holds, hjoined⟩

theorem account_steps (isPairable : Statement → Statement → Bool) (olds news : List Statement)
    : ((align Statement.text (fun _ => true) olds news).flatMap fun segment =>
        (segmentAccount isPairable segment).paired).Perm
          (alignedPairs olds news ++ (Account.ofSteps (steps isPairable olds news)).paired)
      ∧ ((align Statement.text (fun _ => true) olds news).flatMap fun segment =>
        (segmentAccount isPairable segment).dropped)
          = (Account.ofSteps (steps isPairable olds news)).dropped
      ∧ ((align Statement.text (fun _ => true) olds news).flatMap fun segment =>
        (segmentAccount isPairable segment).added)
          = (Account.ofSteps (steps isPairable olds news)).added := by
  rw [steps, Account.ofSteps]
  dsimp only
  rw [List.filterMap_flatMap, List.filterMap_flatMap, List.filterMap_flatMap, alignedPairs]
  refine ⟨(List.Perm.flatMap_left _ ?_).trans (List.flatMap_append_perm _ _ _).symm, ?_, ?_⟩
  . rintro (_ | _) - <;> simp [segmentAccount, Account.ofSteps]
  . congr 1
    funext segment
    cases segment <;> rfl
  . congr 1
    funext segment
    cases segment <;> rfl

theorem areAccounted_lists (threshold : Float) (olds news : List Statement)
    : AreAccounted (BodyDiff.isPairable threshold) olds news := by
  obtain ⟨hpaired, hdropped, hadded⟩ := account_steps (BodyDiff.isPairable threshold) olds news
  have hsegments := @segmentAccount_spec (BodyDiff.isPairable threshold) olds news
  have hcovers := Account.covers_flatMap fun segment hsegment => (hsegments hsegment).1
  rw [align_flatMap_olds, align_flatMap_news, hdropped, hadded] at hcovers
  constructor
  . exact hcovers.of_perm hpaired.symm
  . intro pair hpair
    obtain ⟨segment, hsegment, hpair⟩ := List.mem_flatMap.1 hpair
    cases segment with
    | gap => contradiction
    | run runOlds runNews => exact List.forall₂_zip (forall₂_of_run_mem_align hsegment) hpair
  . intro pair hpair
    obtain ⟨step, hstep, hpair⟩ := List.mem_filterMap.1 hpair
    cases step with
    | drop => contradiction
    | add => contradiction
    | pair old new =>
      cases hpair
      obtain ⟨-, -, hpairable⟩ := isAbout_of_mem_steps hstep
      rw [BodyDiff.isPairable, Bool.and_eq_true] at hpairable
      exact of_decide_eq_true hpairable.1
  . have holds := List.Sublist.flatMap_right _ fun segment hsegment =>
      (hsegments hsegment).2.1
    have hnews := List.Sublist.flatMap_right _ fun segment hsegment =>
      (hsegments hsegment).2.2
    rw [align_flatMap_olds, ← List.map_flatMap] at holds
    rw [align_flatMap_news, ← List.map_flatMap] at hnews
    exact ⟨_, hpaired, holds, hnews⟩

end

/-! The steps of the clauses of two compound statements -/

/--
The steps are a complete account of the clauses of two compound statements, by their roles.
-/
structure AreAccountedByRole (olds news : List (Clause Statement)) : Prop where
  covers : (Account.ofSteps (clauseSteps olds news)).Covers olds news
  paired_role : ∀ pair ∈ (Account.ofSteps (clauseSteps olds news)).paired, pair.1.role = pair.2.role
  dropped_role : ∀ clause ∈ (Account.ofSteps (clauseSteps olds news)).dropped,
    clause.role ∉ news.map Clause.role
  added_role : ∀ clause ∈ (Account.ofSteps (clauseSteps olds news)).added,
    clause.role ∉ olds.map Clause.role

def hasRole (new old : Clause Statement) : Bool :=
  old.role = new.role

theorem clauseSteps_eq (olds news : List (Clause Statement))
    : clauseSteps olds news
        =
      (firstFit hasRole news (Table.latest Clause.role olds)).1.map .ofFound
        ++ (firstFit hasRole news (Table.latest Clause.role olds)).2.map .drop := by
  rw [clauseSteps]
  dsimp only
  congr 2
  funext found
  rcases found with ⟨new, _ | old⟩ <;> rfl

theorem ofSteps_clauseSteps (olds news : List (Clause Statement))
    : Account.ofSteps (clauseSteps olds news)
        =
      ⟨(FirstFit.joined (firstFit hasRole news (Table.latest Clause.role olds)).1).map Prod.swap,
        (firstFit hasRole news (Table.latest Clause.role olds)).2,
        FirstFit.alone (firstFit hasRole news (Table.latest Clause.role olds)).1⟩ := by
  rw [clauseSteps_eq, Account.ofSteps_append, Account.ofSteps_found, Account.ofSteps_drop]
  change Account.mk _ _ _ = _
  rw [List.append_nil, List.append_nil, List.nil_append]

theorem covers_clauseSteps (olds news : List (Clause Statement))
    : (Account.ofSteps (clauseSteps olds news)).Covers (Table.latest Clause.role olds) news := by
  rw [ofSteps_clauseSteps]
  exact Account.covers_found (List.Perm.of_eq (map_fst_firstFit _ _)) (perm_firstFit _ _)

theorem key_notMem_of_perm {α κ : Type} {key : α → κ} {front back whole : List α} {x : α}
    (hnodup : (whole.map key).Nodup) (hperm : (front ++ back).Perm whole) (hx : x ∈ back)
    : key x ∉ front.map key := by
  have hdistinct := (hperm.map key).nodup_iff.2 hnodup
  rw [List.map_append, List.nodup_append'] at hdistinct
  exact fun hfront => hdistinct.2.2 hfront (List.mem_map_of_mem hx)

theorem areAccountedByRole {olds news : List (Clause Statement)}
    (holds : (olds.map Clause.role).Nodup) (hnews : (news.map Clause.role).Nodup)
    : AreAccountedByRole olds news := by
  have hcovers : (Account.ofSteps (clauseSteps olds news)).Covers olds news := by
    nth_rewrite 2 [← Table.latest_of_nodup holds]
    exact covers_clauseSteps olds news
  have hpaired : ∀ pair ∈ (Account.ofSteps (clauseSteps olds news)).paired,
      pair.1.role = pair.2.role := by
    rw [ofSteps_clauseSteps, List.forall_mem_map]
    intro pair hpair
    have hfits := fits_of_mem_firstFit (FirstFit.mem_joined.1 hpair)
    exact of_decide_eq_true hfits
  have hroles : (Account.ofSteps (clauseSteps olds news)).paired.map (Clause.role ∘ Prod.fst)
      = (Account.ofSteps (clauseSteps olds news)).paired.map (Clause.role ∘ Prod.snd) :=
    List.map_congr_left hpaired
  -- A dropped clause is free, so it does not fit a clause that is alone.
  have hfree : ∀ old ∈ (Account.ofSteps (clauseSteps olds news)).dropped,
      ∀ new ∈ (Account.ofSteps (clauseSteps olds news)).added, old.role ≠ new.role := by
    rw [ofSteps_clauseSteps]
    intro old hold new hnew
    have hfits := not_fits_of_mem_firstFit (FirstFit.mem_alone.1 hnew) hold
    exact of_decide_eq_false hfits
  refine ⟨hcovers, hpaired, ?_, ?_⟩
  . intro old hold hrole
    rw [← (hcovers.news_perm.map _).mem_iff, List.map_append, List.mem_append, List.map_map,
      ← hroles, ← List.map_map] at hrole
    rcases hrole with hrole | hrole
    . exact key_notMem_of_perm holds hcovers.olds_perm hold hrole
    . obtain ⟨new, hnew, hrole⟩ := List.mem_map.1 hrole
      exact hfree old hold new hnew hrole.symm
  . intro new hnew hrole
    rw [← (hcovers.olds_perm.map _).mem_iff, List.map_append, List.mem_append, List.map_map,
      hroles, ← List.map_map] at hrole
    rcases hrole with hrole | hrole
    . exact key_notMem_of_perm hnews hcovers.news_perm hnew hrole
    . obtain ⟨old, hold, hrole⟩ := List.mem_map.1 hrole
      exact hfree old hold new hnew hrole

end BodyDiff
end MethodHistory
