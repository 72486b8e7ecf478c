import MethodHistory.Proofs.Survey.Resolution

/-!
This module contains the ranges between two commits of a line: what is put in use for two positional
references is the block of all commits from the upper to the lower one of those that they name.
-/

namespace MethodHistory

variable {commits : List Commit} {lower upper : Commit}

structure IsSpan (commits : List Commit) (lower upper : Commit) (span : List Commit) : Prop where
  isInfix : span <:+: commits
  head?_eq : span.head? = some upper
  getLast?_eq : span.getLast? = some lower

theorem IsLine.isSpan_drop_take (h : IsLine commits) (hlower : lower ∈ commits)
    (hupper : upper ∈ commits) (hle : upper.position ≤ lower.position)
    : IsSpan commits lower upper
        ((commits.drop upper.position).take (lower.position + 1 - upper.position)) := by
  have hfirst := h.getElem?_position hupper
  have hlast := h.getElem?_position hlower
  have hlength := (List.getElem?_eq_some_iff.1 hlast).1
  constructor
  . exact ((List.take_prefix _ _).isInfix).trans (List.drop_suffix _ _).isInfix
  . rw [List.head?_take, if_neg (by omega), List.head?_drop, hfirst]
  . rw [List.getLast?_eq_getElem?, List.length_take, List.length_drop, List.getElem?_take,
      if_pos (by omega), List.getElem?_drop, ← hlast]
    congr 1
    omega

theorem IsSpan.filter_ne_lower {span : List Commit} (h : IsSpan commits lower upper span)
    (hnodup : (commits.map Commit.id).Nodup)
    : (span.map Commit.id).filter (some · ≠ some lower.id) = (span.map Commit.id).dropLast := by
  have hspan : span.map Commit.id = span.dropLast.map Commit.id ++ [lower.id] := by
    conv_lhs => rw [← List.dropLast_append_getLast? lower h.getLast?_eq]
    rw [List.map_append, List.map_singleton]
  have hnodup := hnodup.sublist (h.isInfix.map Commit.id).sublist
  rw [hspan] at hnodup
  have hne : ∀ id ∈ span.dropLast.map Commit.id, id ≠ lower.id := by
    intro id hid
    exact (List.nodup_append.1 hnodup).2.2 id hid lower.id (List.mem_singleton_self _)
  have hkept : (span.dropLast.map Commit.id).filter (some · ≠ some lower.id)
      = span.dropLast.map Commit.id := by
    rw [List.filter_eq_self]
    simpa using hne
  rw [hspan, List.filter_append, hkept, List.dropLast_concat]
  simp

/--
The range of all commits from the upper down to the lower one, of which the lower one is not mined.
It has no commits if the upper one is older.
-/
structure Range.IsBlock (range : Range) (commits : List Commit) (lower upper : Commit) : Prop where
  lower_eq : range.lower = some lower.id
  upper_eq : range.upper = some upper.id
  mode_eq : range.mode = .positional
  dateMin_eq : range.dateMin = lower.date
  dateMax_eq : range.dateMax = upper.date
  exists_span : upper.position ≤ lower.position →
    ∃ span, IsSpan commits lower upper span ∧ range.commits = span.map Commit.id
  eq_nil : lower.position < upper.position → range.commits = []
  minedCommits_eq : range.minedCommits = range.commits.dropLast
  isEmpty_iff : range.isEmpty ↔ ¬upper.position < lower.position

theorem isBlock_block (h : IsLine commits) (hlower : lower ∈ commits) (hupper : upper ∈ commits)
    : (Range.block commits lower upper).IsBlock commits lower upper := by
  constructor
  . rfl
  . rfl
  . rfl
  . rfl
  . rfl
  . intro hle
    exact ⟨_, h.isSpan_drop_take hlower hupper hle, by rw [Range.block, if_neg (by omega)]⟩
  . intro hlt
    rw [Range.block, if_pos hlt]
    rfl
  . rw [Range.minedCommits, Range.block]
    dsimp only
    split
    next => rfl
    next hle => exact (h.isSpan_drop_take hlower hupper (by omega)).filter_ne_lower h.nodup
  . rw [Range.isEmpty, List.isEmpty_iff, List.eq_nil_iff_forall_not_mem]
    constructor
    . intro hnone hlt
      apply hnone upper.id
      rw [h.mem_minedCommits_block hlower]
      exact ⟨upper, hupper, rfl, Nat.le_refl _, hlt⟩
    . intro hle id hid
      obtain ⟨commit, -, -, hfirst, hlast⟩ := (h.mem_minedCommits_block hlower).1 hid
      omega

namespace SurveyM

variable {source : Source}

theorem reads_of_textOf {reference : Given String} {text : String} {survey last : Survey}
    (h : perform (textOf reference) survey = (.ok text, last)) : Reads reference text := by
  cases reference with
  | nothing shown =>
    cases h
    exact .nothing shown
  | value text =>
    cases h
    exact .value text
  | misfit kind shown => cases h

theorem reads_of_endpointId {endpoint : Endpoint} {reference : Given String} {id : String}
    {survey : Survey} (h : (perform (endpointId source endpoint reference) survey).1 = .ok id)
    : ∃ text, Reads reference text := by
  obtain ⟨text, _, htext, -⟩ := perform_bind_eq_ok.1 (perform_eq_of_result h)
  exact ⟨text, reads_of_textOf htext⟩

end SurveyM

open SurveyM in
theorem resolved_references_span_block {source : Source} {tags : String → Option String}
    (h : source.Holds commits tags) (hline : IsLine commits) {survey : Survey}
    (hs : survey.Recalls source) {start stop : Given String} {first last : String}
    (hfirst : (perform (endpointId source .lower start) survey).1 = .ok first)
    (hlast : (perform (endpointId source .upper stop) survey).1 = .ok last)
    : ∃ lower ∈ commits, ∃ upper ∈ commits, ∃ range : Range,
        lower.id = first ∧ upper.id = last ∧ range.IsBlock commits lower upper
        ∧ (perform (resolveBlock source start stop) survey).1 = .ok range
        ∧ (perform (resolveBlock source start stop) survey).2.range = some range := by
  obtain ⟨_, hstart⟩ := reads_of_endpointId hfirst
  obtain ⟨_, hstop⟩ := reads_of_endpointId hlast
  obtain ⟨lower, hlower, hlowerId⟩ := exists_denotes_of_ok h hstart hs hfirst
  obtain ⟨upper, hupper, hupperId⟩ := exists_denotes_of_ok h hstop hs hlast
  have hrange := (yields_resolveBlock_of_denotes h hstart hstop hlower hupper).result_eq survey hs
  refine ⟨lower, hlower.mem, upper, hupper.mem, _, hlowerId, hupperId,
    isBlock_block hline hlower.mem hupper.mem, hrange, ?_⟩
  rw [((@Settling.resolveBlock source .never start stop).keeps survey).2, hrange]
  rfl

open SurveyM in
theorem block_of_abbreviation_up_to_current
    : ∃ range : Range,
        answer (resolveBlock Sample.abbreviableSource (.value "tag:1.0") (.value "current"))
          = .ok range
        ∧ range.IsBlock Sample.abbreviable Sample.abbreviable[2] Sample.abbreviable[0]
        ∧ range.minedCommits = ["cafe0102", "cafe0101"] := by
  have hline : IsLine Sample.abbreviable := by
    constructor
    . decide
    . decide +kernel
  obtain ⟨lower, hlower, upper, hupper, range, hlowerId, hupperId, hblock, hrange, -⟩ :=
    @resolved_references_span_block _ _ _ Sample.holds_abbreviable hline (.start false)
      (Survey.recalls_start _ false) (.value "tag:1.0") (.value "current") "beef0101" "cafe0102"
      (by decide +kernel) (by decide +kernel)
  have hold : Sample.abbreviable[2] ∈ Sample.abbreviable := List.getElem_mem _
  have hnew : Sample.abbreviable[0] ∈ Sample.abbreviable := List.getElem_mem _
  obtain rfl := hline.eq_of_id hlower hold hlowerId
  obtain rfl := hline.eq_of_id hupper hnew hupperId
  refine ⟨range, hrange, hblock, ?_⟩
  have hmined : (answer (resolveBlock Sample.abbreviableSource (.value "tag:1.0")
      (.value "current"))).map Range.minedCommits = .ok ["cafe0102", "cafe0101"] := by
    decide +kernel
  rw [answer, hrange] at hmined
  exact Except.ok.inj hmined

end MethodHistory
