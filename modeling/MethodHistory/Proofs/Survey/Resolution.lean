import MethodHistory.Proofs.Survey.Endpoints

/-!
This module contains the ranges that two references lead to. Whatever is not clear is refused with
the endpoint at fault, and the range in use stays if a range is not resolved.
-/

namespace MethodHistory

variable {α β : Type}

/--
What two texts of positional references lead to: the block between the commits that they denote, or
a failure that names the first one that denotes none.
-/
structure ResolvesPlaces (commits : List Commit) (tags : String → Option String)
    (first last : String) (result : Except Failure Range) : Prop where
  ok_iff : ∀ range, result = .ok range
    ↔ ∃ lower upper, Denotes commits tags first lower ∧ Denotes commits tags last upper
      ∧ range = .block commits lower upper
  error_iff : ∀ failure, result = .error failure
    ↔ ∃ endpoint fault, failure = .endpoint .positional endpoint fault
      ∧ match endpoint with
        | .lower => (∀ commit, ¬Denotes commits tags first commit) ∧ Blames commits tags first fault
        | .upper => (∃ commit, Denotes commits tags first commit)
          ∧ (∀ commit, ¬Denotes commits tags last commit) ∧ Blames commits tags last fault

def lowestDate (lower : Option Commit) (since : Given Instant) : Instant :=
  match lower, since with
  | some commit, _ => commit.date
  | none, .value date => date
  | none, _ => .first

structure Range.IsBoundedBy (range : Range) (lower upper : Option Commit) (since : Given Instant)
    : Prop where
  lower_eq : range.lower = lower.map Commit.id
  upper_eq : range.upper = upper.map Commit.id
  dateMin_eq : range.dateMin = lowestDate lower since
  dateMax_eq : range.dateMax = (upper.map Commit.date).getD .last

/--
What two texts of date endpoints lead to: a range with the bounds that they name, or a failure. The
failure names an endpoint just if that is the first one which names no bound.
-/
structure ResolvesDates (commits : List Commit) (first last : String) (since : Given Instant)
    (result : Except Failure Range) : Prop where
  of_ok : ∀ range, result = .ok range
    → ∃ lower upper, Bounds commits first lower ∧ Bounds commits last upper
      ∧ range.IsBoundedBy lower upper since
  endpoint_iff : ∀ mode endpoint fault, result = .error (.endpoint mode endpoint fault)
    ↔ mode = .date ∧ match endpoint with
      | .lower => (∀ bound, ¬Bounds commits first bound) ∧ fault = .unknownCommit first
      | .upper => (∃ bound, Bounds commits first bound) ∧ (∀ bound, ¬Bounds commits last bound)
        ∧ fault = .unknownCommit last

namespace ResolvesDates

variable {commits : List Commit} {first last : String} {since : Given Instant}

theorem of_bounds {lower upper : Option Commit} (hlower : Bounds commits first lower)
    (hupper : Bounds commits last upper) {result : Except Failure Range}
    (hok : ∀ range, result = .ok range → range.IsBoundedBy lower upper since)
    (hspared : ∀ mode endpoint fault, result ≠ .error (.endpoint mode endpoint fault))
    : ResolvesDates commits first last since result := by
  constructor
  . intro range hrange
    exact ⟨lower, upper, hlower, hupper, hok range hrange⟩
  . intro mode endpoint fault
    constructor
    . intro herror
      exact absurd herror (hspared mode endpoint fault)
    . rintro ⟨-, hblamed⟩
      cases endpoint with
      | lower => exact absurd hlower (hblamed.1 lower)
      | upper => exact absurd hupper (hblamed.2.1 upper)

theorem of_lower (hnone : ∀ bound, ¬Bounds commits first bound)
    : ResolvesDates commits first last since
        (.error (.endpoint .date .lower (.unknownCommit first))) := by
  constructor
  . intro range hrange
    cases hrange
  . intro mode endpoint fault
    constructor
    . intro herror
      cases herror
      exact ⟨rfl, hnone, rfl⟩
    . rintro ⟨rfl, hblamed⟩
      cases endpoint with
      | lower => rw [hblamed.2]
      | upper => exact absurd hblamed.1 (not_exists.2 hnone)

theorem of_upper {lower : Option Commit} (hlower : Bounds commits first lower)
    (hnone : ∀ bound, ¬Bounds commits last bound)
    : ResolvesDates commits first last since
        (.error (.endpoint .date .upper (.unknownCommit last))) := by
  constructor
  . intro range hrange
    cases hrange
  . intro mode endpoint fault
    constructor
    . intro herror
      cases herror
      exact ⟨rfl, ⟨lower, hlower⟩, hnone, rfl⟩
    . rintro ⟨rfl, hblamed⟩
      cases endpoint with
      | lower => exact absurd hlower (hblamed.1 lower)
      | upper => rw [hblamed.2.2]

end ResolvesDates

namespace SurveyM

variable {source : Source} {commits : List Commit} {tags : String → Option String}

/-! Ranges of positional endpoints -/

section

variable {start stop : Given String} {first last : String}

theorem yields_resolveBlock_of_denotes (h : source.Holds commits tags) (hstart : Reads start first)
    (hstop : Reads stop last) {lower upper : Commit} (hlower : Denotes commits tags first lower)
    (hupper : Denotes commits tags last upper)
    : Yields source (resolveBlock source start stop) (.ok (.block commits lower upper)) := by
  rw [resolveBlock]
  apply (yields_commits h).bind
  apply (yields_endpointId_of_denotes h hstart hlower .lower).bind
  apply (yields_commitOf h hlower.mem).bind
  apply (yields_endpointId_of_denotes h hstop hupper .upper).bind
  apply (yields_commitOf h hupper.mem).bind
  apply (Yields.useRange _).bind
  apply Yields.pure

theorem yields_resolveBlock_of_lower (h : source.Holds commits tags) (hstart : Reads start first)
    (hnone : ∀ commit, ¬Denotes commits tags first commit) {fault : EndpointFault}
    (hfault : Blames commits tags first fault)
    : Yields source (resolveBlock source start stop)
        (.error (.endpoint .positional .lower fault)) := by
  rw [resolveBlock]
  apply (yields_commits h).bind
  apply (yields_endpointId_of_blames h hstart hnone hfault .lower).bind_error

theorem yields_resolveBlock_of_upper (h : source.Holds commits tags) (hstart : Reads start first)
    (hstop : Reads stop last) {lower : Commit} (hlower : Denotes commits tags first lower)
    (hnone : ∀ commit, ¬Denotes commits tags last commit) {fault : EndpointFault}
    (hfault : Blames commits tags last fault)
    : Yields source (resolveBlock source start stop)
        (.error (.endpoint .positional .upper fault)) := by
  rw [resolveBlock]
  apply (yields_commits h).bind
  apply (yields_endpointId_of_denotes h hstart hlower .lower).bind
  apply (yields_commitOf h hlower.mem).bind
  apply (yields_endpointId_of_blames h hstop hnone hfault .upper).bind_error

theorem resolvesPlaces_resolveBlock (h : source.Holds commits tags) (hstart : Reads start first)
    (hstop : Reads stop last) {survey : Survey} (hs : survey.Recalls source)
    : ResolvesPlaces commits tags first last
        (perform (resolveBlock source start stop) survey).1 := by
  generalize hresult : (perform (resolveBlock source start stop) survey).1 = result
  have hyields {expected : Except Failure Range}
      (hexpected : Yields source (resolveBlock source start stop) expected) : result = expected :=
    hresult.symm.trans (hexpected.result_eq survey hs)
  have hdenoted {lower upper : Commit} (hlower : Denotes commits tags first lower)
      (hupper : Denotes commits tags last upper) : result = .ok (.block commits lower upper) :=
    hyields (yields_resolveBlock_of_denotes h hstart hstop hlower hupper)
  have hlowest {fault : EndpointFault} (hnone : ∀ commit, ¬Denotes commits tags first commit)
      (hfault : Blames commits tags first fault)
      : result = .error (.endpoint .positional .lower fault) :=
    hyields (yields_resolveBlock_of_lower h hstart hnone hfault)
  have hhighest {lower : Commit} {fault : EndpointFault}
      (hlower : Denotes commits tags first lower)
      (hnone : ∀ commit, ¬Denotes commits tags last commit)
      (hfault : Blames commits tags last fault)
      : result = .error (.endpoint .positional .upper fault) :=
    hyields (yields_resolveBlock_of_upper h hstart hstop hlower hnone hfault)
  obtain ⟨lowest, hblameLower⟩ := exists_blames h.ne_nil tags first
  obtain ⟨highest, hblameUpper⟩ := exists_blames h.ne_nil tags last
  -- Either both texts denote a commit, or one of them is the first that does not.
  have hcases : (∃ lower upper, Denotes commits tags first lower ∧ Denotes commits tags last upper)
      ∨ (∀ commit, ¬Denotes commits tags first commit)
      ∨ (∃ lower, Denotes commits tags first lower)
        ∧ ∀ commit, ¬Denotes commits tags last commit := by
    rw [← not_exists, ← not_exists, ← exists_and_exists_comm]
    tauto
  constructor
  . intro range
    constructor
    . intro hok
      subst hok
      rcases hcases with ⟨lower, upper, hlower, hupper⟩ | hnone | ⟨⟨lower, hlower⟩, hnone⟩
      . exact ⟨lower, upper, hlower, hupper, Except.ok.inj (hdenoted hlower hupper)⟩
      . cases hlowest hnone hblameLower
      . cases hhighest hlower hnone hblameUpper
    . rintro ⟨lower, upper, hlower, hupper, rfl⟩
      exact hdenoted hlower hupper
  . intro failure
    constructor
    . intro herror
      subst herror
      rcases hcases with ⟨lower, upper, hlower, hupper⟩ | hnone | ⟨⟨lower, hlower⟩, hnone⟩
      . cases hdenoted hlower hupper
      . exact ⟨.lower, lowest, Except.error.inj (hlowest hnone hblameLower), hnone, hblameLower⟩
      . exact ⟨.upper, highest, Except.error.inj (hhighest hlower hnone hblameUpper),
          ⟨lower, hlower⟩, hnone, hblameUpper⟩
    . rintro ⟨endpoint, fault, rfl, hblamed⟩
      cases endpoint with
      | lower => exact hlowest hblamed.1 hblamed.2
      | upper =>
        obtain ⟨⟨lower, hlower⟩, hnone, hfault⟩ := hblamed
        exact hhighest hlower hnone hfault

end

/-! Ranges of date endpoints -/

structure SparesEndpoints (act : SurveyM α) : Prop where
  ne_endpoint : ∀ survey mode endpoint fault,
    (perform act survey).1 ≠ .error (.endpoint mode endpoint fault)

namespace SparesEndpoints

theorem pure (a : α) : SparesEndpoints (pure a) := by
  constructor
  intro survey mode endpoint fault h
  cases h

theorem throw (misuse : Misuse) : SparesEndpoints (throw (.misuse misuse) : SurveyM α) := by
  constructor
  intro survey mode endpoint fault h
  cases h

theorem bind {act : SurveyM α} {next : α → SurveyM β} (hact : SparesEndpoints act)
    (hnext : ∀ a, SparesEndpoints (next a)) : SparesEndpoints (act >>= next) := by
  constructor
  intro survey mode endpoint fault
  rw [perform_bind]
  have hact := hact.ne_endpoint survey mode endpoint fault
  generalize perform act survey = done at *
  obtain ⟨result, after⟩ := done
  cases result with
  | ok a => exact (hnext a).ne_endpoint after mode endpoint fault
  | error failure =>
    intro h
    cases h
    exact hact rfl

theorem checkpoint (monitor : Monitor) : SparesEndpoints (checkpoint monitor) := by
  constructor
  intro survey mode endpoint fault
  rw [perform_checkpoint]
  dsimp only
  split
  next =>
    intro h
    cases h
  next =>
    intro h
    cases h

theorem checkpoints (monitor : Monitor) (xs : List α)
    : SparesEndpoints (xs.forM fun _ => SurveyM.checkpoint monitor) := by
  induction xs with
  | nil => apply pure
  | cons x xs ih =>
    rw [List.forM]
    apply (checkpoint monitor).bind
    intro _
    exact ih

theorem allCommits (h : source.allCommits = .ok commits)
    : SparesEndpoints (SurveyM.commits source) := by
  constructor
  intro survey mode endpoint fault
  cases hcommits : survey.commits with
  | some commits =>
    rw [perform_commits_of_some hcommits]
    intro h
    cases h
  | none =>
    rw [perform_commits_of_none hcommits, h]
    intro h
    cases h

theorem earliest (h : source.allCommits = .ok commits) (monitor : Monitor) (since : Given Instant)
    : SparesEndpoints (earliest source monitor since) := by
  cases since with
  | nothing shown => apply pure
  | value date => apply pure
  | misfit kind shown =>
    apply (allCommits h).bind
    intro commits
    split
    . apply throw
    . apply (checkpoint monitor).bind
      intro _
      apply throw

theorem lowerBound (h : source.allCommits = .ok commits) (monitor : Monitor)
    (lower : Option Commit) (since : Given Instant)
    : SparesEndpoints (lowerBound source monitor lower since) := by
  cases lower with
  | some commit => apply pure
  | none => exact earliest h monitor since

theorem useWindow (h : source.allCommits = .ok commits) (monitor : Monitor)
    (lower upper : Option Commit) (dateMin dateMax : Instant)
    : SparesEndpoints (useWindow source monitor lower upper dateMin dateMax) := by
  rw [SurveyM.useWindow]
  apply (allCommits h).bind
  intro commits
  apply (checkpoints monitor commits).bind
  intro _
  constructor
  intro survey mode endpoint fault h
  cases h

end SparesEndpoints

theorem ensures_lowerBound (source : Source) (monitor : Monitor) (lower : Option Commit)
    (since : Given Instant)
    : Ensures (lowerBound source monitor lower since) (· = lowestDate lower since) := by
  cases lower with
  | some commit => exact .pure rfl
  | none =>
    cases since with
    | nothing shown => exact .pure rfl
    | value date => exact .pure rfl
    | misfit kind shown =>
      apply Ensures.after
      intro commits
      split
      . apply Ensures.throw
      . apply Ensures.after
        intro _
        apply Ensures.throw

def windowBetween (source : Source) (monitor : Monitor) (lower upper : Option Commit)
    (since : Given Instant) : SurveyM Range := do
  let dateMin ← lowerBound source monitor lower since
  useWindow source monitor lower upper dateMin ((upper.map (·.date)).getD .last)

theorem ensures_windowBetween (source : Source) (monitor : Monitor) (lower upper : Option Commit)
    (since : Given Instant)
    : Ensures (windowBetween source monitor lower upper since)
        (·.IsBoundedBy lower upper since) := by
  rw [windowBetween]
  apply (ensures_lowerBound source monitor lower since).bind
  rintro dateMin rfl
  rw [useWindow]
  apply Ensures.after
  intro commits
  apply Ensures.after
  intro _
  apply Ensures.after
  intro _
  exact .pure ⟨rfl, rfl, rfl, rfl⟩

theorem spares_windowBetween (h : source.allCommits = .ok commits) (monitor : Monitor)
    (lower upper : Option Commit) (since : Given Instant)
    : SparesEndpoints (windowBetween source monitor lower upper since) := by
  rw [windowBetween]
  apply (SparesEndpoints.lowerBound h monitor lower since).bind
  intro dateMin
  apply SparesEndpoints.useWindow h

section

variable {start stop : Given String} {first last : String}

theorem yields_resolveWindow_of_lower (h : source.Holds commits tags) (hstart : Reads start first)
    (hstop : Reads stop last) (hnone : ∀ bound, ¬Bounds commits first bound) (monitor : Monitor)
    (since : Given Instant)
    : Yields source (resolveWindow source monitor start stop since)
        (.error (.endpoint .date .lower (.unknownCommit first))) := by
  rw [resolveWindow]
  apply (yields_textOf hstart).bind
  apply (yields_textOf hstop).bind
  apply (yields_dateEndpoint_of_not_bounds h hnone .lower).bind_error

theorem yields_resolveWindow_of_upper (h : source.Holds commits tags) (hstart : Reads start first)
    (hstop : Reads stop last) {lower : Option Commit} (hlower : Bounds commits first lower)
    (hnone : ∀ bound, ¬Bounds commits last bound) (monitor : Monitor) (since : Given Instant)
    : Yields source (resolveWindow source monitor start stop since)
        (.error (.endpoint .date .upper (.unknownCommit last))) := by
  rw [resolveWindow]
  apply (yields_textOf hstart).bind
  apply (yields_textOf hstop).bind
  apply (yields_dateEndpoint_of_bounds h hlower .lower).bind
  apply (yields_dateEndpoint_of_not_bounds h hnone .upper).bind_error

theorem exists_perform_resolveWindow (h : source.Holds commits tags) (hstart : Reads start first)
    (hstop : Reads stop last) {lower upper : Option Commit} (hlower : Bounds commits first lower)
    (hupper : Bounds commits last upper) (monitor : Monitor) (since : Given Instant)
    {survey : Survey} (hs : survey.Recalls source)
    : ∃ after : Survey, perform (resolveWindow source monitor start stop since) survey
        = perform (windowBetween source monitor lower upper since) after := by
  rw [resolveWindow]
  obtain ⟨_, hs, hperform⟩ := (yields_textOf hstart).exists_perform_bind _ hs
  rw [hperform]
  obtain ⟨_, hs, hperform⟩ := (yields_textOf hstop).exists_perform_bind _ hs
  rw [hperform]
  obtain ⟨_, hs, hperform⟩ :=
    (yields_dateEndpoint_of_bounds h hlower .lower).exists_perform_bind _ hs
  rw [hperform]
  obtain ⟨_, hs, hperform⟩ :=
    (yields_dateEndpoint_of_bounds h hupper .upper).exists_perform_bind _ hs
  rw [hperform]
  exact ⟨_, rfl⟩

theorem resolvesDates_resolveWindow (h : source.Holds commits tags) (hstart : Reads start first)
    (hstop : Reads stop last) (monitor : Monitor) (since : Given Instant) {survey : Survey}
    (hs : survey.Recalls source)
    : ResolvesDates commits first last since
        (perform (resolveWindow source monitor start stop since) survey).1 := by
  by_cases hlower : ∃ bound, Bounds commits first bound
  . obtain ⟨lower, hlower⟩ := hlower
    by_cases hupper : ∃ bound, Bounds commits last bound
    . obtain ⟨upper, hupper⟩ := hupper
      obtain ⟨after, hperform⟩ :=
        exists_perform_resolveWindow h hstart hstop hlower hupper monitor since hs
      have hensures := ensures_windowBetween source monitor lower upper since
      have hspares := spares_windowBetween h.allCommits_eq monitor lower upper since
      rw [hperform]
      apply ResolvesDates.of_bounds hlower hupper
      . intro range hrange
        exact hensures.of_perform _ _ _ (perform_eq_of_result hrange)
      . exact hspares.ne_endpoint after
    . rw [not_exists] at hupper
      rw [(yields_resolveWindow_of_upper h hstart hstop hlower hupper monitor since).result_eq
        survey hs]
      exact .of_upper hlower hupper
  . rw [not_exists] at hlower
    rw [(yields_resolveWindow_of_lower h hstart hstop hlower monitor since).result_eq survey hs]
    exact .of_lower hlower

/-! Ranges that nobody stops -/

theorem reaches_lowerBound (lower : Option Commit) {since : Given Instant}
    (hsince : ∀ kind shown, since ≠ .misfit kind shown)
    : Reaches (·.IsCalm source) (lowerBound source .never lower since) (lowestDate lower since)
        (·.IsCalm source) := by
  cases lower with
  | some commit => exact .pure fun _ hs => hs
  | none =>
    cases since with
    | nothing shown => exact .pure fun _ hs => hs
    | value date => exact .pure fun _ hs => hs
    | misfit kind shown => exact absurd rfl (hsince kind shown)

theorem exists_range_of_bounds (h : source.Holds commits tags) (hstart : Reads start first)
    (hstop : Reads stop last) {lower upper : Option Commit} (hlower : Bounds commits first lower)
    (hupper : Bounds commits last upper) {since : Given Instant}
    (hsince : ∀ kind shown, since ≠ .misfit kind shown) {survey : Survey}
    (hs : survey.IsCalm source)
    : ∃ range, (perform (resolveWindow source .never start stop since) survey).1 = .ok range := by
  have hreaches : ∃ range, Reaches (·.IsCalm source) (resolveWindow source .never start stop since)
      range (IsSettled source range) := by
    rw [resolveWindow]
    apply Exists.intro
    apply ((IsLookup.textOf _).tells.reaches (@yields_textOf source _ _ hstart).answer_eq).bind
    apply ((IsLookup.textOf _).tells.reaches (@yields_textOf source _ _ hstop).answer_eq).bind
    apply ((IsLookup.dateEndpoint _ _).tells.reaches
      (yields_dateEndpoint_of_bounds h hlower .lower).answer_eq).bind
    apply ((IsLookup.dateEndpoint _ _).tells.reaches
      (yields_dateEndpoint_of_bounds h hupper .upper).answer_eq).bind
    apply (reaches_lowerBound lower hsince).bind
    rw [useWindow]
    apply (IsLookup.commits.tells.reaches ((answer_commits source).trans h.allCommits_eq)).bind
    apply ((tells_checkpoints source commits).reaches (answer_checkpoints commits)).bind
    apply reaches_use
  obtain ⟨range, hreaches⟩ := hreaches
  obtain ⟨_, hperform, -⟩ := hreaches survey hs
  exact ⟨range, congrArg Prod.fst hperform⟩

end

/-! The range in use -/

def SparesRange (act : SurveyM α) : Prop :=
  ∀ survey failure, (perform act survey).1 = .error failure →
    (perform act survey).2.range = survey.range

theorem Settling.sparesRange {monitor : Monitor} {act calmAct : SurveyM Range}
    (h : Settling source monitor act calmAct) : SparesRange act := by
  intro survey failure hfailure
  rw [(h.keeps survey).2, hfailure]
  rfl

end SurveyM

open SurveyM in
/--
A range comes of the two commits that its endpoints denote, or of the dates of those that they name.
If there is none for an endpoint, this one is at fault, the lower one first. A range that is not
resolved for any reason, be it an endpoint, the source or somebody who stops the search, leaves the
one in use.
-/
theorem endpoints_resolve_to_what_they_denote {source : Source} {commits : List Commit}
    {tags : String → Option String} (h : source.Holds commits tags) {survey : Survey}
    (hs : survey.Recalls source) {start stop : Given String} {first last : String}
    (hstart : Reads start first) (hstop : Reads stop last) (since : Given Instant)
    : (∀ endpoint, ∀ commit ∈ commits,
        (perform (endpointId source endpoint start) survey).1 = .ok commit.id
          ↔ Denotes commits tags first commit)
      ∧ (∀ endpoint bound, (perform (dateEndpoint source endpoint first) survey).1 = .ok bound
          ↔ Bounds commits first bound)
      ∧ ResolvesPlaces commits tags first last (perform (resolveBlock source start stop) survey).1
      ∧ (∀ monitor, ResolvesDates commits first last since
          (perform (resolveWindow source monitor start stop since) survey).1)
      ∧ ((∃ lower, Bounds commits first lower) → (∃ upper, Bounds commits last upper) →
          (∀ kind shown, since ≠ .misfit kind shown) → survey.stopRequested = false →
          ∃ range, (perform (resolveWindow source .never start stop since) survey).1 = .ok range)
      ∧ (∀ source lower upper, SparesRange (resolveBlock source lower upper))
      ∧ ∀ source monitor lower upper since,
          SparesRange (resolveWindow source monitor lower upper since) := by
  refine ⟨?_, ?_, resolvesPlaces_resolveBlock h hstart hstop hs, ?_, ?_, ?_, ?_⟩
  . intro endpoint commit hcommit
    exact endpointId_eq_ok_iff h hstart hs endpoint hcommit
  . intro endpoint bound
    exact dateEndpoint_eq_ok_iff h hs endpoint bound
  . intro monitor
    exact resolvesDates_resolveWindow h hstart hstop monitor since hs
  . rintro ⟨lower, hlower⟩ ⟨upper, hupper⟩ hsince hcalm
    exact exists_range_of_bounds h hstart hstop hlower hupper hsince ⟨hs, hcalm⟩
  . intro source lower upper
    exact (@Settling.resolveBlock source .never lower upper).sparesRange
  . intro source monitor lower upper since
    exact (Settling.resolveWindow lower upper since).sparesRange

/-! A start of two ids, beside a tag that leads to a start of one of them -/

namespace Sample

def abbreviable : List Commit :=
  yearly.zipWith (fun commit id => { commit with id }) ["cafe0102", "cafe0101", "beef0101"]

def release (name : String) : Option String :=
  if name = "1.0" then some "beef010" else none

def abbreviableSource : Source where
  allCommits := .ok abbreviable
  tagTarget name := .ok (release name)
  revisionsOf _ := .ok []
  contentAt _ _ := .ok none
  filesAt _ _ := .ok []

theorem holds_abbreviable : abbreviableSource.Holds abbreviable release := by
  constructor
  . rfl
  . exact fun _ => rfl
  . decide
  . decide

end Sample

open SurveyM in
theorem start_of_two_ids_is_refused
    : Denotes Sample.abbreviable Sample.release "tag:1.0" Sample.abbreviable[2]
      ∧ (∀ commit, ¬Denotes Sample.abbreviable Sample.release "cafe010" commit)
      ∧ (perform (resolveBlock Sample.abbreviableSource (.value " tag:1.0 ") (.value "cafe010"))
          (.start false)).1
        = .error (.endpoint .positional .upper (.unknownCommit "cafe010")) := by
  have hstart : Reads (.value " tag:1.0 ") "tag:1.0" := by
    have hstrip : Text.strip " tag:1.0 " = "tag:1.0" := by
      decide +kernel
    exact hstrip ▸ .value " tag:1.0 "
  have hstop : Reads (.value "cafe010") "cafe010" := by
    have hstrip : Text.strip "cafe010" = "cafe010" := by
      decide +kernel
    exact hstrip ▸ .value "cafe010"
  obtain ⟨hendpoint, -, hplaces, -⟩ := endpoints_resolve_to_what_they_denote
    Sample.holds_abbreviable (Survey.recalls_start _ false) hstart hstop (.nothing "")
  have hdenotes : Denotes Sample.abbreviable Sample.release "tag:1.0" Sample.abbreviable[2] := by
    apply (hendpoint .lower _ (List.getElem_mem _)).1
    decide +kernel
  have hrefused : (perform (resolveBlock Sample.abbreviableSource (.value " tag:1.0 ")
      (.value "cafe010")) (.start false)).1
        = .error (.endpoint .positional .upper (.unknownCommit "cafe010")) := by
    decide +kernel
  obtain ⟨endpoint, fault, hfailure, hblamed⟩ := (hplaces.error_iff _).1 hrefused
  cases hfailure
  exact ⟨hdenotes, hblamed.2.1, hrefused⟩

end MethodHistory
