import MethodHistory.Proofs.Perform

/-!
This module contains the lookups of a survey: acts that ask a source at most for what is not noted
yet. What a lookup answers depends on the source alone, and it touches nothing but the notes.
-/

namespace MethodHistory

variable {α β : Type}

namespace Survey

structure Recalls (source : Source) (survey : Survey) : Prop where
  commits : ∀ commits, survey.commits = some commits → source.allCommits = .ok commits
  tags : ∀ name id, survey.tags.lookup name = some id → source.tagTarget name = .ok id

def remarked (survey other : Survey) : Survey :=
  { survey with
    range := other.range
    emitted := other.emitted
    checks := other.checks
    stopRequested := other.stopRequested }

@[simp]
theorem remarked_self (survey : Survey) : survey.remarked survey = survey := by
  rfl

theorem recalls_start (source : Source) (stopRequested : Bool)
    : (start stopRequested).Recalls source := by
  constructor
  . intro commits h
    cases h
  . intro name id h
    cases h

end Survey

namespace SurveyM

section

variable {source : Source} {survey : Survey}

theorem perform_commits_of_some {commits : List Commit} (h : survey.commits = some commits)
    : perform (SurveyM.commits source) survey = (.ok commits, survey) := by
  rw [SurveyM.commits, perform_bind, perform_get]
  dsimp only
  rw [h]
  rfl

theorem perform_commits_of_none (h : survey.commits = none)
    : perform (SurveyM.commits source) survey =
      (source.allCommits,
        { survey with
          commits := source.allCommits.toOption
          questions := survey.questions ++ [.allCommits] }) := by
  rw [SurveyM.commits, perform_bind, perform_get]
  dsimp only
  rw [h]
  dsimp only
  rw [perform_bind, perform_ask]
  cases source.allCommits with
  | ok commits => rfl
  | error failure => simp [h, Except.toOption]

theorem perform_tagTarget_of_some {name : String} {id : Option String}
    (h : survey.tags.lookup name = some id)
    : perform (tagTarget source name) survey = (.ok id, survey) := by
  rw [SurveyM.tagTarget, perform_bind, perform_get]
  dsimp only
  rw [h]
  rfl

theorem perform_tagTarget_of_none {name : String} (h : survey.tags.lookup name = none)
    : perform (tagTarget source name) survey =
      (source.tagTarget name,
        { survey with
          tags := survey.tags ++ (source.tagTarget name).toOption.toList.map (name, ·)
          questions := survey.questions ++ [.tagTarget name] }) := by
  rw [SurveyM.tagTarget, perform_bind, perform_get]
  dsimp only
  rw [h]
  dsimp only
  rw [perform_bind, perform_ask]
  cases source.tagTarget name with
  | ok id => rfl
  | error failure => simp [Except.toOption]

end

structure IsLookup (source : Source) (act : SurveyM α) : Prop where
  answer_eq : ∀ survey other, survey.Recalls source → other.Recalls source →
    (perform act survey).1 = (perform act other).1
  recalls : ∀ survey, survey.Recalls source → (perform act survey).2.Recalls source
  perform_remarked : ∀ survey other, perform act (survey.remarked other) =
    ((perform act survey).1, (perform act survey).2.remarked other)

namespace IsLookup

variable {source : Source}

theorem remarked_eq {act : SurveyM α} (h : IsLookup source act) (survey : Survey)
    : (perform act survey).2.remarked survey = (perform act survey).2 := by
  have := h.perform_remarked survey survey
  rw [Survey.remarked_self] at this
  rw [this]
  rfl

theorem pure (a : α) : IsLookup source (pure a) := by
  constructor
  . intros
    rfl
  . intro survey h
    exact h
  . intros
    rfl

theorem throw (failure : Failure) : IsLookup source (throw failure : SurveyM α) := by
  constructor
  . intros
    rfl
  . intro survey h
    exact h
  . intros
    rfl

theorem ask (question : Question) (answer : Except Failure α)
    : IsLookup source (ask question answer) := by
  constructor
  . intros
    rw [perform_ask, perform_ask]
  . intro survey h
    rw [perform_ask]
    exact ⟨h.commits, h.tags⟩
  . intros
    rw [perform_ask, perform_ask]
    rfl

theorem use (result : Except Misuse α) : IsLookup source (use result) := by
  cases result with
  | ok a => apply IsLookup.pure
  | error misuse => apply IsLookup.throw

theorem bind {act : SurveyM α} {next : α → SurveyM β} (hact : IsLookup source act)
    (hnext : ∀ a, IsLookup source (next a)) : IsLookup source (act >>= next) := by
  constructor
  . intro survey other hs ho
    rw [perform_bind, perform_bind]
    have ha := hact.answer_eq survey other hs ho
    have hs := hact.recalls survey hs
    have ho := hact.recalls other ho
    generalize perform act survey = one at *
    generalize perform act other = two at *
    obtain ⟨result, one⟩ := one
    obtain ⟨_, two⟩ := two
    cases ha
    cases result with
    | ok a => exact (hnext a).answer_eq one two hs ho
    | error failure => rfl
  . intro survey hs
    rw [perform_bind]
    have hs := hact.recalls survey hs
    generalize perform act survey = done at *
    obtain ⟨result, after⟩ := done
    cases result with
    | ok a => exact (hnext a).recalls after hs
    | error failure => exact hs
  . intro survey other
    rw [perform_bind, perform_bind, hact.perform_remarked]
    generalize perform act survey = done
    obtain ⟨result, after⟩ := done
    cases result with
    | ok a => exact (hnext a).perform_remarked after other
    | error failure => rfl

theorem commits : IsLookup source (commits source) := by
  constructor
  . intro survey other hs ho
    cases hc : survey.commits with
    | some commits =>
      rw [perform_commits_of_some hc]
      have := hs.commits commits hc
      cases hd : other.commits with
      | some others =>
        rw [perform_commits_of_some hd, ← ho.commits others hd, this]
      | none =>
        rw [perform_commits_of_none hd, this]
    | none =>
      rw [perform_commits_of_none hc]
      cases hd : other.commits with
      | some others =>
        rw [perform_commits_of_some hd, ho.commits others hd]
      | none =>
        rw [perform_commits_of_none hd]
  . intro survey hs
    cases hc : survey.commits with
    | some commits =>
      rw [perform_commits_of_some hc]
      exact hs
    | none =>
      rw [perform_commits_of_none hc]
      refine ⟨?_, hs.tags⟩
      intro commits h
      cases ha : source.allCommits <;> simp_all [Except.toOption]
  . intro survey other
    cases hc : survey.commits with
    | some commits =>
      have hr : (survey.remarked other).commits = some commits := hc
      rw [perform_commits_of_some hc, perform_commits_of_some hr]
    | none =>
      have hr : (survey.remarked other).commits = none := hc
      rw [perform_commits_of_none hc, perform_commits_of_none hr]
      rfl

theorem commit (id : String) : IsLookup source (commit source id) := by
  rw [SurveyM.commit]
  apply bind commits
  intro commits
  apply pure

theorem isListed (id : String) : IsLookup source (isListed source id) := by
  rw [SurveyM.isListed]
  apply bind (commit id)
  intro commit
  apply pure

theorem tagTarget (name : String) : IsLookup source (tagTarget source name) := by
  constructor
  . intro survey other hs ho
    cases ht : survey.tags.lookup name with
    | some id =>
      rw [perform_tagTarget_of_some ht]
      have := hs.tags name id ht
      cases hd : other.tags.lookup name with
      | some target =>
        rw [perform_tagTarget_of_some hd, ← ho.tags name target hd, this]
      | none =>
        rw [perform_tagTarget_of_none hd, this]
    | none =>
      rw [perform_tagTarget_of_none ht]
      cases hd : other.tags.lookup name with
      | some target =>
        rw [perform_tagTarget_of_some hd, ho.tags name target hd]
      | none =>
        rw [perform_tagTarget_of_none hd]
  . intro survey hs
    cases ht : survey.tags.lookup name with
    | some id =>
      rw [perform_tagTarget_of_some ht]
      exact hs
    | none =>
      rw [perform_tagTarget_of_none ht]
      refine ⟨hs.commits, ?_⟩
      intro other target h
      rw [List.lookup_append, Option.or_eq_some_iff] at h
      cases h with
      | inl h => exact hs.tags other target h
      | inr h =>
        cases ha : source.tagTarget name with
        | error failure => simp [ha, Except.toOption] at h
        | ok id =>
          rw [ha] at h
          by_cases hname : other = name
          . subst hname
            simpa [Except.toOption, ha] using h.2
          . simp [Except.toOption, List.lookup_cons, beq_false_of_ne hname] at h
  . intro survey other
    cases ht : survey.tags.lookup name with
    | some id =>
      have hr : (survey.remarked other).tags.lookup name = some id := ht
      rw [perform_tagTarget_of_some ht, perform_tagTarget_of_some hr]
    | none =>
      have hr : (survey.remarked other).tags.lookup name = none := ht
      rw [perform_tagTarget_of_none ht, perform_tagTarget_of_none hr]
      rfl

theorem lookup (mode : Mode) (endpoint : Endpoint) (reference : String)
    : IsLookup source (lookup source mode endpoint reference) := by
  rw [SurveyM.lookup]
  apply bind (isListed reference)
  intro listed
  dsimp only
  split
  . apply pure
  . split
    . apply bind commits
      intro commits
      split
      . apply pure
      . apply throw
    . apply throw

theorem textOf (reference : Given String) : IsLookup source (textOf reference) := by
  rw [SurveyM.textOf]
  apply bind (use _)
  intro text
  apply pure

theorem endpointId (endpoint : Endpoint) (reference : Given String)
    : IsLookup source (endpointId source endpoint reference) := by
  rw [SurveyM.endpointId]
  apply bind (textOf reference)
  intro reference
  split
  . apply throw
  . split
    . apply bind (tagTarget _)
      intro id
      split
      . apply lookup
      . apply throw
    . split
      . apply bind commits
        intro commits
        split
        . apply lookup
        . apply throw
      . split
        . apply bind commits
          intro commits
          split
          . apply lookup
          . apply throw
        . apply lookup

theorem commitOf (id : String) : IsLookup source (commitOf source id) := by
  rw [SurveyM.commitOf]
  apply bind (commit id)
  intro commit
  split
  . apply pure
  . apply throw

theorem dateEndpoint (endpoint : Endpoint) (reference : String)
    : IsLookup source (dateEndpoint source endpoint reference) := by
  rw [SurveyM.dateEndpoint]
  split
  . apply pure
  . apply bind (lookup _ _ _)
    intro id
    apply bind (commitOf id)
    intro commit
    apply pure

end IsLookup
end SurveyM
end MethodHistory
