import MethodHistory.Diff.Body
import MethodHistory.Proofs.Alignment
import MethodHistory.Proofs.FirstFit
import Mathlib.Data.List.TakeDrop

/-!
This module contains the completeness of the comparison of two bodies: if it finds nothing, the
statements of both are unchanged one by one, through all their clauses.
-/

namespace MethodHistory

/--
What the comparison of bodies takes for two versions of one statement. The clauses may come in any
order, and of the old clauses with one role only the last one counts.
-/
inductive Unchanged : Statement → Statement → Prop where
  | text {old new : Statement} (h : old.text = new.text) : Unchanged old new
  | compound {oldHead newHead : Fragment} {condition header : String}
      {oldClauses newClauses counted : List (Clause Statement)}
      {oldAlternative newAlternative : Option (Clause Statement)}
      (hkind : oldHead.kind = newHead.kind)
      (hcounted : counted.Perm (Table.latest Clause.role oldClauses))
      (hroles : counted.map Clause.role = newClauses.map Clause.role)
      (hbodies : List.Forall₂ (fun old new : Clause Statement =>
        List.Forall₂ Unchanged old.body new.body) counted newClauses)
      (halternative : Option.Rel (fun old new : Clause Statement =>
        List.Forall₂ Unchanged old.body new.body) oldAlternative newAlternative)
      : Unchanged (.compound oldHead condition header oldClauses oldAlternative)
          (.compound newHead condition header newClauses newAlternative)

namespace Findings

theorem append_eq_nothing {found more : Findings}
    : found ++ more = nothing ↔ found = nothing ∧ more = nothing := by
  cases found with
  | mk edits deleted inserted =>
    cases more with
    | mk edits' deleted' inserted' =>
      change mk (edits ++ edits') (deleted ++ deleted') (inserted ++ inserted') = _ ↔ _
      simp only [nothing, mk.injEq, List.append_eq_nil_iff]
      tauto

theorem join_eq_nothing {findings : List Findings}
    : join findings = nothing ↔ ∀ found ∈ findings, found = nothing := by
  induction findings with
  | nil => simp [join]
  | cons found findings ih =>
    rw [join, List.foldr_cons, append_eq_nothing, ← join, ih, List.forall_mem_cons]

theorem edit_ne_nothing {kind : ChangeKind} {entity : String} {before after : Option String}
    : edit kind entity before after ≠ nothing := by
  intro h
  exact List.cons_ne_nil _ _ (congrArg edits h)

theorem delete_ne_nothing {stray : Stray} : delete stray ≠ nothing := by
  intro h
  exact List.cons_ne_nil _ _ (congrArg deleted h)

theorem insert_ne_nothing {stray : Stray} : insert stray ≠ nothing := by
  intro h
  exact List.cons_ne_nil _ _ (congrArg inserted h)

end Findings

namespace BodyDiff

/-! Nothing is lost when the moves are told from deletions and insertions -/

theorem eq_nil_of_landings {inserted : List Stray}
    (h : (landings inserted).filter (·.place.isSome) = []) : inserted = [] := by
  rw [landings, List.filter_append, List.append_eq_nil_iff] at h
  rw [List.eq_nil_iff_forall_not_mem]
  intro stray hstray
  have hlanding := List.mem_map_of_mem (f := fun stray : Stray =>
    (⟨stray.head, stray.place⟩ : Landing)) hstray
  exact List.filter_eq_nil_iff.1 h.1 _ hlanding rfl

theorem eq_nil_of_filterMap {α β γ : Type} {f g : α × Option β → Option γ}
    {found : List (α × Option β)} (hf : found.filterMap f = []) (hg : found.filterMap g = [])
    (hsome : ∀ x y, f (x, some y) ≠ none) (hnone : ∀ x, g (x, none) ≠ none) : found = [] := by
  rw [List.filterMap_eq_nil_iff] at hf hg
  rw [List.eq_nil_iff_forall_not_mem]
  rintro ⟨x, partner⟩ hx
  cases partner with
  | none => exact hnone x (hg _ hx)
  | some y => exact hsome x y (hf _ hx)

theorem eq_nil_of_resolve {deleted inserted : List Stray} (h : resolve deleted inserted = [])
    : deleted = [] ∧ inserted = [] := by
  rw [resolve] at h
  dsimp only at h
  rw [List.append_eq_nil_iff, List.append_eq_nil_iff, List.append_eq_nil_iff] at h
  obtain ⟨⟨⟨hmoved, hfreed⟩, hdeleted⟩, hinserted⟩ := h
  -- Each vanished statement is reported, as moved or as deleted, and so is each one that arrives.
  have hold := eq_nil_of_firstFit (eq_nil_of_filterMap hmoved hdeleted (by simp) (by simp))
  have hnew := eq_nil_of_firstFit (eq_nil_of_filterMap hfreed hinserted (by simp) (by simp))
  rw [hold, firstFit_nil] at hnew
  exact ⟨hold, eq_nil_of_landings hnew⟩

/-! Steps that are all pairs put two lists in order -/

theorem eq_append_of_span {α : Type} {p : α → Bool} {items skipped rest : List α} {first : α}
    (h : items.span p = (skipped, first :: rest))
    : items = skipped ++ first :: rest ∧ p first = false := by
  rw [List.span_eq_takeWhile_dropWhile, Prod.mk.injEq] at h
  have hfirst := List.head?_dropWhile_not p items
  rw [h.2] at hfirst
  constructor
  . rw [← h.1, ← h.2, List.takeWhile_append_dropWhile]
  . exact hfirst

theorem forall₂_of_pairUp {isPairable : Statement → Statement → Bool}
    {r : Statement → Statement → Prop} {olds news : List Statement}
    (hunpaired : (pairUp isPairable olds news).1 = [])
    (h : ∀ found ∈ (pairUp isPairable olds news).2,
      ∃ old new, found = (some old, new) ∧ (isPairable old new → r old new))
    : List.Forall₂ r olds news := by
  induction olds generalizing news with
  | nil =>
    cases news with
    | nil => exact .nil
    | cons new news =>
      obtain ⟨old, _, hfound, _⟩ := h (none, new) List.mem_cons_self
      cases hfound
  | cons old olds ih =>
    rw [pairUp] at hunpaired h
    split at hunpaired
    next skipped new rest hspan =>
      rw [hspan] at h
      dsimp only at hunpaired h
      obtain ⟨hnews, hfits⟩ := eq_append_of_span hspan
      cases skipped with
      | cons first skipped =>
        -- A skipped statement has no partner, so it is no pair.
        obtain ⟨_, _, hfound, _⟩ := h (none, first) List.mem_cons_self
        cases hfound
      | nil =>
        rw [List.map_nil, List.nil_append] at h
        rw [hnews, List.nil_append]
        apply List.Forall₂.cons
        . obtain ⟨_, _, hfound, hr⟩ := h _ List.mem_cons_self
          cases hfound
          exact hr (by simpa using hfits)
        . exact ih hunpaired fun found hfound => h found (List.mem_cons_of_mem _ hfound)
    next => contradiction

theorem forall₂_of_steps {isPairable : Statement → Statement → Bool}
    {r : Statement → Statement → Prop} {olds news : List Statement}
    (htext : ∀ (old new : Statement), old.text = new.text → r old new)
    (h : ∀ step ∈ steps isPairable olds news,
      ∃ old new, step = .pair old new ∧ (isPairable old new → r old new))
    : List.Forall₂ r olds news := by
  apply forall₂_of_align htext
  intro gapOlds gapNews hgap
  have hsteps : ∀ step ∈ gapSteps isPairable gapOlds gapNews,
      ∃ old new, step = .pair old new ∧ (isPairable old new → r old new) := by
    intro step hstep
    exact h step (List.mem_flatMap.2 ⟨_, hgap, hstep⟩)
  apply @forall₂_of_pairUp isPairable
  . rw [List.eq_nil_iff_forall_not_mem]
    intro old hold
    obtain ⟨_, _, hstep, _⟩ :=
      hsteps (.drop old) (List.mem_append_left _ (List.mem_map_of_mem hold))
    cases hstep
  . rintro ⟨partner, new⟩ hfound
    have hstep := hsteps _ (List.mem_append_right _ (List.mem_map_of_mem hfound))
    cases partner with
    | none =>
      obtain ⟨_, _, hstep, _⟩ := hstep
      cases hstep
    | some old =>
      obtain ⟨_, _, hstep, hr⟩ := hstep
      cases hstep
      exact ⟨_, _, rfl, hr⟩

theorem exists_counted_of_clauseSteps {r : Clause Statement → Clause Statement → Prop}
    {olds news : List (Clause Statement)}
    (h : ∀ step ∈ clauseSteps olds news, ∃ old new, step = .pair old new ∧ r old new)
    : ∃ counted : List (Clause Statement), counted.Perm (Table.latest Clause.role olds)
      ∧ counted.map Clause.role = news.map Clause.role ∧ List.Forall₂ r counted news := by
  have hunpaired : (firstFit (fun new old : Clause Statement => old.role = new.role) news
      (Table.latest Clause.role olds)).2 = [] := by
    rw [List.eq_nil_iff_forall_not_mem]
    intro old hold
    obtain ⟨_, _, hstep, _⟩ := h (.drop old) (List.mem_append_right _ (List.mem_map_of_mem hold))
    cases hstep
  have hpairs : ∀ found ∈ (firstFit (fun new old : Clause Statement => old.role = new.role) news
      (Table.latest Clause.role olds)).1,
      ∃ new old, found = (new, some old) ∧ (old.role = new.role ∧ r old new) := by
    rintro ⟨new, partner⟩ hfound
    have hstep := h _ (List.mem_append_left _ (List.mem_map_of_mem hfound))
    cases partner with
    | none =>
      obtain ⟨_, _, hstep, _⟩ := hstep
      cases hstep
    | some old =>
      obtain ⟨_, _, hstep, hr⟩ := hstep
      cases hstep
      have hrole := fits_of_mem_firstFit hfound
      exact ⟨new, old, rfl, of_decide_eq_true hrole, hr⟩
  obtain ⟨counted, hcounted, hforall⟩ := exists_perm_of_firstFit hunpaired hpairs
  refine ⟨counted, hcounted, ?_, (hforall.imp fun _ _ hpair => hpair.2).flip⟩
  rw [map_eq_map_iff_forall₂]
  exact (hforall.imp fun _ _ hpair => hpair.1).flip

/-! A comparison without findings -/

def finding (threshold : Float) (place : Place) : Step Statement → Findings
  | .drop old => .delete (.ofStatement place old)
  | .add new => .insert (.ofStatement place new)
  | .pair old new => pair threshold old new place

def clauseFinding (threshold : Float) (place : Place) : Step (Clause Statement) → Findings
  | .drop old => .delete (.ofClause place old)
  | .add new => .insert (.ofClause place new)
  | .pair old new => lists threshold old.body new.body (place.inRole new.role)

def alternativeFinding (threshold : Float) (place : Place)
    : Option (Clause Statement) → Option (Clause Statement) → Findings
  | none, none => .nothing
  | none, some new => .edit .alternativePartInsert "else" none new.head.text
  | some old, none => .edit .alternativePartDelete "else" old.head.text none
  | some old, some new => lists threshold old.body new.body (place.inRole "else")

theorem lists_eq (threshold : Float) (olds news : List Statement) (place : Place)
    : lists threshold olds news place
        =
      .join ((steps (isPairable threshold) olds news).map (finding threshold place)) := by
  rw [lists, ← @List.attach_map_val _ _ (steps (isPairable threshold) olds news) (finding _ _)]
  congr 2
  funext ⟨step, _⟩
  cases step <;> rfl

theorem pair_compound (threshold : Float) (place : Place) (oldHead newHead : Fragment)
    (oldCondition oldHeader newCondition newHeader : String)
    (oldClauses newClauses : List (Clause Statement))
    (oldAlternative newAlternative : Option (Clause Statement))
    : pair threshold (.compound oldHead oldCondition oldHeader oldClauses oldAlternative)
        (.compound newHead newCondition newHeader newClauses newAlternative) place
        =
      heading newHead.kind oldCondition oldHeader newCondition newHeader
        ++ .join ((clauseSteps oldClauses newClauses).map
          (clauseFinding threshold (place.within newHead)))
        ++ alternativeFinding threshold (place.within newHead) oldAlternative newAlternative := by
  rw [pair.eq_def]
  dsimp only
  congr 1
  rw [← @List.attach_map_val _ _ (clauseSteps oldClauses newClauses) (clauseFinding _ _)]
  congr 3
  funext ⟨step, _⟩
  cases step <;> rfl

theorem exists_pair_of_lists {threshold : Float} {olds news : List Statement} {place : Place}
    (h : lists threshold olds news place = .nothing) {step : Step Statement}
    (hstep : step ∈ steps (isPairable threshold) olds news)
    : ∃ old new, step = .pair old new ∧ pair threshold old new place = .nothing := by
  rw [lists_eq, Findings.join_eq_nothing] at h
  have hfound := h _ (List.mem_map_of_mem hstep)
  cases step with
  | drop old => exact absurd hfound Findings.delete_ne_nothing
  | add new => exact absurd hfound Findings.insert_ne_nothing
  | pair old new => exact ⟨old, new, rfl, hfound⟩

theorem eq_of_heading {entity oldCondition oldHeader newCondition newHeader : String}
    (h : heading entity oldCondition oldHeader newCondition newHeader = .nothing)
    : oldCondition = newCondition ∧ oldHeader = newHeader := by
  rw [heading] at h
  dsimp only at h
  split at h
  next => exact absurd h Findings.edit_ne_nothing
  next hcondition =>
    split at h
    next => exact absurd h Findings.edit_ne_nothing
    next hheader => exact ⟨not_not.1 hcondition, not_not.1 hheader⟩

theorem pair_of_leaf {threshold : Float} {old new : Statement} {place : Place}
    (hleaf : old.isCompound = false ∨ new.isCompound = false)
    : pair threshold old new place
        =
      if old.text ≠ new.text then .edit .statementUpdate new.kind old.text new.text
      else .nothing := by
  cases old with
  | leaf => rw [pair]; simp
  | compound =>
    cases new with
    | leaf => rw [pair]; simp
    | compound => simp [Statement.isCompound] at hleaf

theorem text_eq_of_pair {threshold : Float} {old new : Statement} {place : Place}
    (hleaf : old.isCompound = false ∨ new.isCompound = false)
    (h : pair threshold old new place = .nothing) : old.text = new.text := by
  rw [pair_of_leaf hleaf] at h
  split at h
  next => exact absurd h Findings.edit_ne_nothing
  next htext => exact not_not.1 htext

theorem parts_of_pair {threshold : Float} {place : Place} {oldHead newHead : Fragment}
    {oldCondition oldHeader newCondition newHeader : String}
    {oldClauses newClauses : List (Clause Statement)}
    {oldAlternative newAlternative : Option (Clause Statement)}
    (h : pair threshold (.compound oldHead oldCondition oldHeader oldClauses oldAlternative)
      (.compound newHead newCondition newHeader newClauses newAlternative) place = .nothing)
    : (oldCondition = newCondition ∧ oldHeader = newHeader)
      ∧ (∀ step ∈ clauseSteps oldClauses newClauses, ∃ old new place, step = .pair old new
        ∧ lists threshold old.body new.body place = .nothing)
      ∧ Option.Rel (fun old new : Clause Statement =>
        ∃ place, lists threshold old.body new.body place = .nothing)
          oldAlternative newAlternative := by
  rw [pair_compound, Findings.append_eq_nothing, Findings.append_eq_nothing,
    Findings.join_eq_nothing] at h
  obtain ⟨⟨hheading, hclauses⟩, halternatives⟩ := h
  refine ⟨eq_of_heading hheading, ?_, ?_⟩
  . intro step hstep
    have hfound := hclauses _ (List.mem_map_of_mem hstep)
    cases step with
    | drop old => exact absurd hfound Findings.delete_ne_nothing
    | add new => exact absurd hfound Findings.insert_ne_nothing
    | pair old new => exact ⟨old, new, _, rfl, hfound⟩
  . cases oldAlternative with
    | none =>
      cases newAlternative with
      | none => exact .none
      | some new => exact absurd halternatives Findings.edit_ne_nothing
    | some old =>
      cases newAlternative with
      | none => exact absurd halternatives Findings.edit_ne_nothing
      | some new => exact .some ⟨_, halternatives⟩

/-! The recursion is that of the comparison. -/

mutual

theorem unchanged_of_lists {threshold : Float} {olds news : List Statement} {place : Place}
    (h : lists threshold olds news place = .nothing) : List.Forall₂ Unchanged olds news := by
  apply @forall₂_of_steps (isPairable threshold)
  . intro old new htext
    exact .text htext
  . intro step hstep
    obtain ⟨old, new, rfl, hpair⟩ := exists_pair_of_lists h hstep
    exact ⟨old, new, rfl, fun hpairable => unchanged_of_pair hpairable hpair⟩
termination_by sizeOf olds
decreasing_by exact List.sizeOf_lt_of_mem (mem_of_mem_steps ‹_›)

theorem unchanged_of_pair {threshold : Float} {old new : Statement} {place : Place}
    (hpairable : isPairable threshold old new) (h : pair threshold old new place = .nothing)
    : Unchanged old new := by
  match old, new with
  | .leaf _, _ => exact .text (text_eq_of_pair (.inl rfl) h)
  | _, .leaf _ => exact .text (text_eq_of_pair (.inr rfl) h)
  | .compound oldHead oldCondition oldHeader oldClauses oldAlternative,
      .compound newHead newCondition newHeader newClauses newAlternative =>
    obtain ⟨⟨rfl, rfl⟩, hclauses, halternatives⟩ := parts_of_pair h
    rw [isPairable, Bool.and_eq_true] at hpairable
    have hkind : oldHead.kind = newHead.kind := of_decide_eq_true hpairable.1
    have hsteps : ∀ step ∈ clauseSteps oldClauses newClauses,
        ∃ old new, step = .pair old new ∧ List.Forall₂ Unchanged old.body new.body := by
      intro step hstep
      obtain ⟨old, new, _, rfl, hbody⟩ := hclauses step hstep
      exact ⟨old, new, rfl, unchanged_of_lists hbody⟩
    obtain ⟨counted, hcounted, hroles, hbodies⟩ := exists_counted_of_clauseSteps hsteps
    have halternative : Option.Rel (fun old new : Clause Statement =>
        List.Forall₂ Unchanged old.body new.body) oldAlternative newAlternative := by
      generalize hold : oldAlternative = before at halternatives
      cases halternatives with
      | none => exact .none
      | @some old new hbody =>
        obtain ⟨_, hbody⟩ := hbody
        exact .some (unchanged_of_lists hbody)
    exact .compound hkind hcounted hroles hbodies halternative
termination_by sizeOf old
decreasing_by
  . exact Statement.sizeOf_body_lt_of_mem (mem_of_mem_clauseSteps ‹_›)
  . exact Statement.sizeOf_body_lt_of_alternative hold

end

end BodyDiff

theorem unchanged_of_bodyEdits_eq_nil (threshold : Float) {olds news : List Statement}
    (h : bodyEdits threshold olds news = []) : List.Forall₂ Unchanged olds news := by
  rw [bodyEdits, List.append_eq_nil_iff] at h
  obtain ⟨hdeleted, hinserted⟩ := BodyDiff.eq_nil_of_resolve h.2
  have hnothing : BodyDiff.lists threshold olds news .body = .nothing := by
    revert h hdeleted hinserted
    generalize BodyDiff.lists threshold olds news .body = findings
    rintro ⟨hedits, _⟩ hdeleted hinserted
    cases findings
    rw [Findings.nothing, Findings.mk.injEq]
    exact ⟨hedits, hdeleted, hinserted⟩
  exact BodyDiff.unchanged_of_lists hnothing

/-! Changes that go unreported: the order of clauses, all but the last of the old clauses with one
role, and line breaks that end a comment -/

/--
The canonical form of a statement, without the comments in it and the braces around its bodies.
-/
inductive Form where
  | leaf (text : String)
  | compound (kind condition header : String) (clauses : List (String × List Form))
      (alternative : Option (List Form))

namespace Statement

def form : Statement → Form
  | leaf head => .leaf head.text
  | compound head condition header clauses alternative =>
    .compound head.kind condition header
      (clauses.attach.map fun ⟨clause, _hc⟩ =>
        (clause.role, clause.body.attach.map fun ⟨statement, _hs⟩ => form statement))
      (match alternative with
        | none => none
        | some clause => some (clause.body.attach.map fun ⟨statement, _hs⟩ => form statement))
termination_by statement => statement
decreasing_by
  . have := List.sizeOf_lt_of_mem _hc
    have := sizeOf_lt_of_mem_clause _hs
    simp only [compound.sizeOf_spec]
    omega
  . have := sizeOf_lt_of_mem_clause _hs
    simp only [compound.sizeOf_spec, Option.some.sizeOf_spec]
    omega

end Statement

namespace BodyDiff

theorem bodyEdits_of_lists {threshold : Float} {olds news : List Statement}
    (h : lists threshold olds news .body = .nothing) : bodyEdits threshold olds news = [] := by
  rw [bodyEdits, h]
  rfl

theorem lists_singleton_of_text {threshold : Float} {old new : Statement} {place : Place}
    (h : old.text = new.text) : lists threshold [old] [new] place = .nothing := by
  rw [lists_eq, steps, align_singleton, if_pos h]
  rfl

theorem lists_singleton_of_compound {threshold : Float} {old new : Statement} {place : Place}
    (htext : old.text ≠ new.text) (hkind : old.kind = new.kind) (hcompound : old.isCompound)
    : lists threshold [old] [new] place = pair threshold old new place ++ .nothing := by
  have hpairable : isPairable threshold old new = true := by
    rw [isPairable, hcompound, Bool.true_or, Bool.and_true]
    exact decide_eq_true hkind
  have hgap : gapSteps (isPairable threshold) [old] [new] = [.pair old new] := by
    simp [gapSteps, pairUp, hpairable]
  rw [lists_eq, steps, align_singleton, if_neg htext, List.flatMap_singleton]
  dsimp only
  rw [hgap]
  rfl

end BodyDiff

namespace Sample

def call (text : String) : Statement :=
  .leaf ⟨"expression_statement", text, text, 0⟩

def group (label text : String) : Clause Statement :=
  ⟨"case:" ++ label, ⟨"switch_block_statement_group", text, text, 0⟩, [call text]⟩

def selection (text : String) (groups : List (Clause Statement)) : Statement :=
  .compound ⟨"switch_expression", text, text, 0⟩ "(a)" "switch (a)" groups none

def inOrder : Statement :=
  selection "switch (a) \x7b case 1: f(); default: g(); \x7d"
    [group "case 1" "f();", group "default" "g();"]

def reordered : Statement :=
  selection "switch (a) \x7b default: g(); case 1: f(); \x7d"
    [group "default" "g();", group "case 1" "f();"]

def repeated : Statement :=
  selection "switch (a) \x7b case 1: f(); case 1: g(); \x7d"
    [group "case 1" "f();", group "case 1" "g();"]

def single : Statement :=
  selection "switch (a) \x7b case 1: g(); \x7d" [group "case 1" "g();"]

def commented (source : String) (body : List Statement) : Statement :=
  .compound ⟨"if_statement", source, "if (a) \x7b // b f(); \x7d", 0⟩ "(a)" "if (a)"
    [⟨"then", ⟨"block", source, "\x7b // b f(); \x7d", 0⟩, body⟩] none

def beforeCall : Statement :=
  commented "if (a) \x7b // b\n f();\n \x7d" [call "f();"]

def behindCall : Statement :=
  commented "if (a) \x7b // b f();\n \x7d" []

theorem bodyEdits_selection {threshold : Float} {oldText newText : String}
    {olds news : List (Clause Statement)} (htext : oldText ≠ newText)
    (h : ∀ step ∈ BodyDiff.clauseSteps olds news,
      ∃ label text, step = .pair (group label text) (group label text))
    : bodyEdits threshold [selection oldText olds] [selection newText news] = [] := by
  apply BodyDiff.bodyEdits_of_lists
  have htexts : (selection oldText olds).text ≠ (selection newText news).text := htext
  rw [BodyDiff.lists_singleton_of_compound htexts rfl rfl, selection, selection,
    BodyDiff.pair_compound]
  have hclauses : ∀ found ∈ (BodyDiff.clauseSteps olds news).map
      (BodyDiff.clauseFinding threshold (Place.body.within
        ⟨"switch_expression", newText, newText, 0⟩)), found = Findings.nothing := by
    intro found hfound
    obtain ⟨step, hstep, rfl⟩ := List.mem_map.1 hfound
    obtain ⟨label, text, rfl⟩ := h step hstep
    exact BodyDiff.lists_singleton_of_text rfl
  rw [Findings.join_eq_nothing.2 hclauses, BodyDiff.heading, if_neg (not_not.2 rfl),
    if_neg (not_not.2 rfl)]
  rfl

theorem bodyEdits_reordered (threshold : Float)
    : bodyEdits threshold [inOrder] [reordered] = [] := by
  apply bodyEdits_selection (by decide)
  have hsteps : BodyDiff.clauseSteps [group "case 1" "f();", group "default" "g();"]
      [group "default" "g();", group "case 1" "f();"]
      = [.pair (group "default" "g();") (group "default" "g();"),
        .pair (group "case 1" "f();") (group "case 1" "f();")] := by
    rfl
  rw [hsteps]
  simp

theorem bodyEdits_repeated (threshold : Float)
    : bodyEdits threshold [repeated] [single] = [] := by
  apply bodyEdits_selection (by decide)
  have hsteps : BodyDiff.clauseSteps [group "case 1" "f();", group "case 1" "g();"]
      [group "case 1" "g();"] = [.pair (group "case 1" "g();") (group "case 1" "g();")] := by
    rfl
  rw [hsteps]
  simp

theorem bodyEdits_commented (threshold : Float)
    : bodyEdits threshold [beforeCall] [behindCall] = [] := by
  apply BodyDiff.bodyEdits_of_lists
  exact BodyDiff.lists_singleton_of_text rfl

end Sample

theorem unchanged_of_reordered
    : bodyEdits Thresholds.default.update [Sample.inOrder] [Sample.reordered] = []
      ∧ List.Forall₂ Unchanged [Sample.inOrder] [Sample.reordered] := by
  have h := Sample.bodyEdits_reordered Thresholds.default.update
  exact ⟨h, unchanged_of_bodyEdits_eq_nil _ h⟩

/--
Bodies without edits can differ in the order of clauses, in an old clause whose role another one
repeats, and in what a line break takes out of a comment.
-/
theorem forms_ne_without_edits
    : (bodyEdits Thresholds.default.update [Sample.inOrder] [Sample.reordered] = []
        ∧ [Sample.inOrder].map Statement.form ≠ [Sample.reordered].map Statement.form)
      ∧ (bodyEdits Thresholds.default.update [Sample.repeated] [Sample.single] = []
        ∧ [Sample.repeated].map Statement.form ≠ [Sample.single].map Statement.form)
      ∧ (bodyEdits Thresholds.default.update [Sample.beforeCall] [Sample.behindCall] = []
        ∧ [Sample.beforeCall].map Statement.form ≠ [Sample.behindCall].map Statement.form) := by
  refine ⟨⟨Sample.bodyEdits_reordered _, ?_⟩, ⟨Sample.bodyEdits_repeated _, ?_⟩,
    ⟨Sample.bodyEdits_commented _, ?_⟩⟩
  . simp [Sample.inOrder, Sample.reordered, Sample.selection, Sample.group, Statement.form]
  . simp [Sample.repeated, Sample.single, Sample.selection, Sample.group, Statement.form]
  . simp [Sample.beforeCall, Sample.behindCall, Sample.commented, Statement.form]

end MethodHistory
