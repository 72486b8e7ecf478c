import MethodHistory.Proofs.Survey.Ranges

/-!
This module contains what the endpoints of a range stand for. A reference names a commit by its id,
or by a start of it that no other id has.
-/

namespace MethodHistory

variable {α β : Type}

/--
Whether a text is the id of a commit, or is no id but the start of this one alone.
-/
structure Identifies (commits : List Commit) (text : String) (commit : Commit) : Prop where
  mem : commit ∈ commits
  isNamed : commit.id = text
    ∨ (∀ other ∈ commits, other.id ≠ text) ∧ 7 ≤ text.length
      ∧ ∀ other ∈ commits, text.toList <+: other.id.toList ↔ other = commit

/--
The id, or the start of an id, that the text of a positional reference stands for.
-/
inductive StandsFor (commits : List Commit) (tags : String → Option String)
    : String → String → Prop
  | tag {name id : String} (h : tags name = some id) : StandsFor commits tags ("tag:" ++ name) id
  | initial {commit : Commit} (h : commits.getLast? = some commit)
      : StandsFor commits tags "initial" commit.id
  | current {commit : Commit} (h : commits.head? = some commit)
      : StandsFor commits tags "current" commit.id
  | literal {text : String} (hnotBlank : text ≠ "") (hnotTag : ∀ name, text ≠ "tag:" ++ name)
      (hnotInitial : text ≠ "initial") (hnotCurrent : text ≠ "current")
      : StandsFor commits tags text text

def Denotes (commits : List Commit) (tags : String → Option String) (text : String)
    (commit : Commit) : Prop :=
  ∃ id, StandsFor commits tags text id ∧ Identifies commits id commit

theorem Denotes.mem {commits : List Commit} {tags : String → Option String} {text : String}
    {commit : Commit} (h : Denotes commits tags text commit) : commit ∈ commits := by
  obtain ⟨id, -, hidentifies⟩ := h
  exact hidentifies.mem

/--
What is said of the text of a positional reference that denotes no commit.
-/
inductive Blames (commits : List Commit) (tags : String → Option String)
    : String → EndpointFault → Prop
  | blank : Blames commits tags "" .notSet
  | tag {name : String} (h : tags name = none)
      : Blames commits tags ("tag:" ++ name) (.unknownTag name)
  | commit {text id : String} (h : StandsFor commits tags text id)
      : Blames commits tags text (.unknownCommit id)

inductive Bounds (commits : List Commit) : String → Option Commit → Prop
  | blank : Bounds commits "" none
  | commit {text : String} {commit : Commit} (hnotBlank : text ≠ "")
      (h : Identifies commits text commit) : Bounds commits text (some commit)

inductive Reads : Given String → String → Prop
  | nothing (shown : String) : Reads (.nothing shown) ""
  | value (text : String) : Reads (.value text) (Text.strip text)

structure Source.Holds (source : Source) (commits : List Commit) (tags : String → Option String)
    : Prop where
  allCommits_eq : source.allCommits = .ok commits
  tagTarget_eq : ∀ name, source.tagTarget name = .ok (tags name)
  ne_nil : commits ≠ []
  nodup : (commits.map Commit.id).Nodup

namespace SurveyM

/-! Acts with one result -/

structure Yields (source : Source) (act : SurveyM α) (result : Except Failure α) : Prop where
  result_eq : ∀ survey, survey.Recalls source → (perform act survey).1 = result
  recalls : ∀ survey, survey.Recalls source → (perform act survey).2.Recalls source

variable {source : Source} {commits : List Commit} {tags : String → Option String}

theorem IsLookup.yields {act : SurveyM α} {result : Except Failure α} (h : IsLookup source act)
    (hanswer : answer act = result) : Yields source act result := by
  constructor
  . intro survey hs
    rw [← hanswer]
    exact h.answer_eq survey _ hs (Survey.recalls_start source false)
  . exact h.recalls

namespace Yields

theorem answer_eq {act : SurveyM α} {result : Except Failure α} (h : Yields source act result)
    : answer act = result :=
  h.result_eq _ (Survey.recalls_start source false)

theorem pure (a : α) : Yields source (pure a) (.ok a) :=
  (IsLookup.pure a).yields rfl

theorem throw (failure : Failure) : Yields source (throw failure : SurveyM α) (.error failure) :=
  (IsLookup.throw failure).yields rfl

theorem useRange (range : Range) : Yields source (useRange range) (.ok ⟨⟩) := by
  constructor
  . intros
    rfl
  . intro survey hs
    exact ⟨hs.commits, hs.tags⟩

theorem exists_perform_bind {act : SurveyM α} {a : α} (hact : Yields source act (.ok a))
    (next : α → SurveyM β) {survey : Survey} (hs : survey.Recalls source)
    : ∃ after : Survey, after.Recalls source
        ∧ perform (act >>= next) survey = perform (next a) after :=
  ⟨_, hact.recalls survey hs, perform_bind_ok (perform_eq_of_result (hact.result_eq survey hs))⟩

theorem bind {act : SurveyM α} {next : α → SurveyM β} {a : α} {result : Except Failure β}
    (hact : Yields source act (.ok a)) (hnext : Yields source (next a) result)
    : Yields source (act >>= next) result := by
  constructor
  . intro survey hs
    obtain ⟨after, hafter, hperform⟩ := hact.exists_perform_bind next hs
    rw [hperform, hnext.result_eq after hafter]
  . intro survey hs
    obtain ⟨after, hafter, hperform⟩ := hact.exists_perform_bind next hs
    rw [hperform]
    exact hnext.recalls after hafter

theorem bind_error {act : SurveyM α} {failure : Failure} (hact : Yields source act (.error failure))
    (next : α → SurveyM β) : Yields source (act >>= next) (.error failure) := by
  have hperform {survey : Survey} (hs : survey.Recalls source)
      : perform (act >>= next) survey = (.error failure, (perform act survey).2) :=
    perform_bind_error (perform_eq_of_result (hact.result_eq survey hs))
  constructor
  . intro survey hs
    rw [hperform hs]
  . intro survey hs
    rw [hperform hs]
    exact hact.recalls survey hs

end Yields

/-! What is looked up -/

theorem yields_commits (h : source.Holds commits tags)
    : Yields source (SurveyM.commits source) (.ok commits) :=
  IsLookup.commits.yields ((answer_commits source).trans h.allCommits_eq)

theorem yields_commit (h : source.Holds commits tags) (id : String)
    : Yields source (commit source id) (.ok (commitIn commits id)) := by
  apply (IsLookup.commit id).yields
  rw [answer_commit, h.allCommits_eq]
  rfl

theorem yields_commitOf (h : source.Holds commits tags) {commit : Commit}
    (hcommit : commit ∈ commits)
    : Yields source (commitOf source commit.id) (.ok commit) :=
  (IsLookup.commitOf commit.id).yields (answer_commitOf h.allCommits_eq h.nodup hcommit)

theorem yields_tagTarget (h : source.Holds commits tags) (name : String)
    : Yields source (tagTarget source name) (.ok (tags name)) := by
  apply (IsLookup.tagTarget name).yields
  rw [answer, perform_tagTarget_of_none rfl, h.tagTarget_eq]

theorem yields_isListed (h : source.Holds commits tags) (id : String)
    : Yields source (isListed source id) (.ok (commitIn commits id).isSome) :=
  (yields_commit h id).bind (.pure _)

theorem isSome_commitIn (commits : List Commit) (id : String)
    : (commitIn commits id).isSome ↔ ∃ commit ∈ commits, commit.id = id := by
  rw [commitIn, List.find?_isSome]
  simp

theorem isPrefixOf_iff (part whole : String)
    : part.isPrefixOf whole ↔ part.toList <+: whole.toList := by
  rw [String.isPrefixOf, String.startsWith_string_iff]

theorem filter_eq_singleton_iff (hnodup : (commits.map Commit.id).Nodup) {text : String}
    {commit : Commit}
    : commits.filter (fun other => text.isPrefixOf other.id) = [commit]
        ↔
      commit ∈ commits ∧ ∀ other ∈ commits, text.toList <+: other.id.toList ↔ other = commit := by
  have hmem (other : Commit) : other ∈ commits.filter (fun other => text.isPrefixOf other.id)
      ↔ other ∈ commits ∧ text.toList <+: other.id.toList := by
    rw [List.mem_filter, isPrefixOf_iff]
  constructor
  . intro hfilter
    simp only [hfilter, List.mem_singleton] at hmem
    refine ⟨((hmem commit).1 rfl).1, ?_⟩
    intro other hother
    rw [hmem other]
    exact (and_iff_right hother).symm
  . rintro ⟨hcommit, honly⟩
    have hfilter := hnodup.of_map.filter fun other => text.isPrefixOf other.id
    rw [← List.perm_singleton, List.perm_ext_iff_of_nodup hfilter (List.nodup_singleton commit)]
    intro other
    rw [hmem, List.mem_singleton]
    constructor
    . rintro ⟨hother, hstarts⟩
      exact (honly other hother).1 hstarts
    . rintro rfl
      exact ⟨hcommit, (honly other hcommit).2 rfl⟩

theorem yields_lookup_of_identifies (h : source.Holds commits tags) {text : String}
    {commit : Commit} (hcommit : Identifies commits text commit) (mode : Mode) (endpoint : Endpoint)
    : Yields source (lookup source mode endpoint text) (.ok commit.id) := by
  obtain ⟨hmem, hid | ⟨hnone, hlength, honly⟩⟩ := hcommit
  . rw [← hid]
    exact (IsLookup.lookup _ _ _).yields (answer_lookup h.allCommits_eq h.nodup hmem mode endpoint)
  . have hlisted : ¬(commitIn commits text).isSome := by
      rw [isSome_commitIn]
      rintro ⟨other, hother, hid⟩
      exact hnone other hother hid
    rw [lookup]
    apply (yields_isListed h text).bind
    rw [if_neg hlisted, shortestStart, if_pos hlength]
    apply (yields_commits h).bind
    rw [(filter_eq_singleton_iff h.nodup).2 ⟨hmem, honly⟩]
    apply Yields.pure

theorem yields_lookup_of_not_identifies (h : source.Holds commits tags) {text : String}
    (hnone : ∀ commit, ¬Identifies commits text commit) (mode : Mode) (endpoint : Endpoint)
    : Yields source (lookup source mode endpoint text)
        (.error (.endpoint mode endpoint (.unknownCommit text))) := by
  have hid : ∀ other ∈ commits, other.id ≠ text := by
    intro other hother hid
    exact hnone other ⟨hother, .inl hid⟩
  have hlisted : ¬(commitIn commits text).isSome := by
    rw [isSome_commitIn]
    rintro ⟨other, hother, hsame⟩
    exact hid other hother hsame
  rw [lookup]
  apply (yields_isListed h text).bind
  rw [if_neg hlisted]
  split
  next hlength =>
    apply (yields_commits h).bind
    dsimp only
    split
    next commit hfilter =>
      obtain ⟨hmem, honly⟩ := (filter_eq_singleton_iff h.nodup).1 hfilter
      exact absurd ⟨hmem, .inr ⟨hid, hlength, honly⟩⟩ (hnone commit)
    next => apply Yields.throw
  next => apply Yields.throw

/-! Positional endpoints -/

theorem yields_textOf {reference : Given String} {text : String} (h : Reads reference text)
    : Yields source (textOf reference) (.ok text) := by
  cases h with
  | nothing shown => exact (IsLookup.textOf _).yields rfl
  | value text => exact (IsLookup.textOf _).yields rfl

theorem startsWith_tag (name : String) : ("tag:" ++ name).startsWith "tag:" := by
  rw [String.startsWith_string_iff, String.toList_append]
  apply List.prefix_append

theorem exists_tag {text : String} (h : text.startsWith "tag:")
    : ∃ name, text = "tag:" ++ name := by
  rw [String.startsWith_string_iff] at h
  obtain ⟨name, hname⟩ := h
  refine ⟨.ofList name, ?_⟩
  rw [← String.toList_inj, ← hname]
  simp

theorem drop_tag (name : String) : (("tag:" ++ name).drop 4).toString = name := by
  apply String.toList_inj.1
  change (String.Slice.copy _).toList = _
  rw [String.toList_copy_drop, String.toList_append]
  rfl

theorem yields_endpointId_of_standsFor (h : source.Holds commits tags) {reference : Given String}
    {text id : String} (hreads : Reads reference text) (hstands : StandsFor commits tags text id)
    {endpoint : Endpoint} {result : Except Failure String}
    (hlookup : Yields source (lookup source .positional endpoint id) result)
    : Yields source (endpointId source endpoint reference) result := by
  rw [endpointId]
  apply (yields_textOf hreads).bind
  cases hstands with
  | @tag name id htag =>
    have htarget := yields_tagTarget h name
    rw [htag] at htarget
    have hempty : ¬("tag:" ++ name).isEmpty := by
      simp
    rw [if_neg hempty, if_pos (startsWith_tag name), drop_tag]
    exact htarget.bind hlookup
  | @initial commit hlast =>
    rw [if_neg (by decide), if_neg (by decide +kernel), initial, if_pos rfl]
    apply (yields_commits h).bind
    rw [hlast]
    exact hlookup
  | @current commit hhead =>
    rw [if_neg (by decide), if_neg (by decide +kernel), if_neg (by decide), current, if_pos rfl]
    apply (yields_commits h).bind
    rw [hhead]
    exact hlookup
  | literal hnotBlank hnotTag hnotInitial hnotCurrent =>
    have hempty : ¬text.isEmpty := by
      rwa [String.isEmpty_iff]
    have htag : ¬text.startsWith "tag:" := by
      intro hstarts
      obtain ⟨name, hname⟩ := exists_tag hstarts
      exact hnotTag name hname
    rw [if_neg hempty, if_neg htag, initial, if_neg hnotInitial, current, if_neg hnotCurrent]
    exact hlookup

theorem yields_endpointId_of_denotes (h : source.Holds commits tags) {reference : Given String}
    {text : String} (hreads : Reads reference text) {commit : Commit}
    (hdenotes : Denotes commits tags text commit) (endpoint : Endpoint)
    : Yields source (endpointId source endpoint reference) (.ok commit.id) := by
  obtain ⟨id, hstands, hidentifies⟩ := hdenotes
  apply yields_endpointId_of_standsFor h hreads hstands
  apply yields_lookup_of_identifies h hidentifies

theorem yields_endpointId_of_blames (h : source.Holds commits tags) {reference : Given String}
    {text : String} (hreads : Reads reference text)
    (hnone : ∀ commit, ¬Denotes commits tags text commit) {fault : EndpointFault}
    (hfault : Blames commits tags text fault) (endpoint : Endpoint)
    : Yields source (endpointId source endpoint reference)
        (.error (.endpoint .positional endpoint fault)) := by
  cases hfault with
  | blank =>
    rw [endpointId]
    apply (yields_textOf hreads).bind
    apply Yields.throw
  | @tag name htag =>
    have htarget := yields_tagTarget h name
    have hempty : ¬("tag:" ++ name).isEmpty := by
      simp
    rw [htag] at htarget
    rw [endpointId]
    apply (yields_textOf hreads).bind
    rw [if_neg hempty, if_pos (startsWith_tag name), drop_tag]
    apply htarget.bind
    apply Yields.throw
  | commit hstands =>
    apply yields_endpointId_of_standsFor h hreads hstands
    apply yields_lookup_of_not_identifies h
    intro commit hidentifies
    exact hnone commit ⟨_, hstands, hidentifies⟩

theorem exists_blames (hne : commits ≠ []) (tags : String → Option String) (text : String)
    : ∃ fault, Blames commits tags text fault := by
  by_cases hblank : text = ""
  . rw [hblank]
    exact ⟨_, .blank⟩
  by_cases htag : ∃ name, text = "tag:" ++ name
  . obtain ⟨name, rfl⟩ := htag
    cases htarget : tags name with
    | none => exact ⟨_, .tag htarget⟩
    | some id => exact ⟨_, .commit (.tag htarget)⟩
  by_cases hinitial : text = "initial"
  . rw [hinitial]
    exact ⟨_, .commit (.initial (List.getLast?_eq_some_getLast hne))⟩
  by_cases hcurrent : text = "current"
  . rw [hcurrent]
    exact ⟨_, .commit (.current (List.head?_eq_some_head hne))⟩
  exact ⟨_, .commit (.literal hblank (not_exists.1 htag) hinitial hcurrent)⟩

/-! Date endpoints -/

theorem yields_dateEndpoint_of_bounds (h : source.Holds commits tags) {text : String}
    {bound : Option Commit} (hbound : Bounds commits text bound) (endpoint : Endpoint)
    : Yields source (dateEndpoint source endpoint text) (.ok bound) := by
  rw [dateEndpoint]
  cases hbound with
  | blank => apply Yields.pure
  | commit hnotBlank hidentifies =>
    rw [if_neg (by rwa [String.isEmpty_iff])]
    apply (yields_lookup_of_identifies h hidentifies .date endpoint).bind
    apply (yields_commitOf h hidentifies.mem).bind
    apply Yields.pure

theorem yields_dateEndpoint_of_not_bounds (h : source.Holds commits tags) {text : String}
    (hnone : ∀ bound, ¬Bounds commits text bound) (endpoint : Endpoint)
    : Yields source (dateEndpoint source endpoint text)
        (.error (.endpoint .date endpoint (.unknownCommit text))) := by
  have hnotBlank : text ≠ "" := by
    rintro rfl
    exact hnone none .blank
  rw [dateEndpoint, if_neg (by rwa [String.isEmpty_iff])]
  apply Yields.bind_error
  apply yields_lookup_of_not_identifies h
  intro commit hidentifies
  exact hnone _ (.commit hnotBlank hidentifies)

variable {start : Given String} {first : String}

/-! Single endpoints -/

theorem exists_denotes_of_ok (h : source.Holds commits tags) (hstart : Reads start first)
    {survey : Survey} (hs : survey.Recalls source) {endpoint : Endpoint} {id : String}
    (hid : (perform (endpointId source endpoint start) survey).1 = .ok id)
    : ∃ commit, Denotes commits tags first commit ∧ commit.id = id := by
  by_cases hdenoted : ∃ commit, Denotes commits tags first commit
  . obtain ⟨commit, hdenotes⟩ := hdenoted
    rw [(yields_endpointId_of_denotes h hstart hdenotes endpoint).result_eq survey hs] at hid
    exact ⟨commit, hdenotes, Except.ok.inj hid⟩
  . obtain ⟨fault, hfault⟩ := exists_blames h.ne_nil tags first
    have hfails := yields_endpointId_of_blames h hstart (not_exists.1 hdenoted) hfault endpoint
    rw [hfails.result_eq survey hs] at hid
    cases hid

theorem endpointId_eq_ok_iff (h : source.Holds commits tags) (hstart : Reads start first)
    {survey : Survey} (hs : survey.Recalls source) (endpoint : Endpoint) {commit : Commit}
    (hcommit : commit ∈ commits)
    : (perform (endpointId source endpoint start) survey).1 = .ok commit.id
      ↔ Denotes commits tags first commit := by
  constructor
  . intro hid
    obtain ⟨other, hother, hsame⟩ := exists_denotes_of_ok h hstart hs hid
    rwa [← List.inj_on_of_nodup_map h.nodup hother.mem hcommit hsame]
  . intro hdenotes
    exact (yields_endpointId_of_denotes h hstart hdenotes endpoint).result_eq survey hs

theorem dateEndpoint_eq_ok_iff (h : source.Holds commits tags) {survey : Survey}
    (hs : survey.Recalls source) (endpoint : Endpoint) (bound : Option Commit)
    : (perform (dateEndpoint source endpoint first) survey).1 = .ok bound
      ↔ Bounds commits first bound := by
  constructor
  . intro hbound
    by_cases hbounded : ∃ other, Bounds commits first other
    . obtain ⟨other, hother⟩ := hbounded
      rw [(yields_dateEndpoint_of_bounds h hother endpoint).result_eq survey hs] at hbound
      rwa [← Except.ok.inj hbound]
    . have hfails := yields_dateEndpoint_of_not_bounds h (not_exists.1 hbounded) endpoint
      rw [hfails.result_eq survey hs] at hbound
      cases hbound
  . intro hbounds
    exact (yields_dateEndpoint_of_bounds h hbounds endpoint).result_eq survey hs

end SurveyM
end MethodHistory
