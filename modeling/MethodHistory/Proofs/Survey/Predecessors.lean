import MethodHistory.Proofs.Survey.Ranges

/-!
This module contains the pairs of a file in a block of commits: each revision in the block stands
behind its predecessor, the newest one of the older revisions, wherever the predecessor lies.
-/

namespace MethodHistory

/-! Neighbours in a list that is sorted by places, the last place first -/

section

variable {α β : Type}

theorem neighbours_map (f : α → β) (xs : List α)
    : neighbours (xs.map f) = (neighbours xs).map (Prod.map f f) := by
  rw [neighbours, neighbours, ← List.map_tail, List.zip_map]

theorem neighbours_cons_cons (x y : α) (xs : List α)
    : neighbours (x :: y :: xs) = (x, y) :: neighbours (y :: xs) := by
  rfl

theorem mem_neighbours_iff {xs : List (Nat × α)} (h : xs.Pairwise (·.1 > ·.1)) {x y : Nat × α}
    : (x, y) ∈ neighbours xs
        ↔
      x ∈ xs ∧ y ∈ xs ∧ y.1 < x.1 ∧ ∀ z ∈ xs, y.1 < z.1 → x.1 ≤ z.1 := by
  induction xs with
  | nil => simp [neighbours]
  | cons first xs ih =>
    rw [List.pairwise_cons] at h
    obtain ⟨hfirst, hxs⟩ := h
    cases xs with
    | nil =>
      constructor
      . intro hmem
        cases hmem
      . rintro ⟨hx, hy, hlt, -⟩
        rw [List.mem_singleton.1 hx, List.mem_singleton.1 hy] at hlt
        exact absurd hlt (Nat.lt_irrefl _)
    | cons second xs =>
      rw [neighbours_cons_cons, List.mem_cons, ih hxs, Prod.mk.injEq]
      have hsecond := hfirst second List.mem_cons_self
      constructor
      . rintro (⟨rfl, rfl⟩ | ⟨hx, hy, hlt, hbetween⟩)
        . refine ⟨List.mem_cons_self, List.mem_cons_of_mem _ List.mem_cons_self, hsecond, ?_⟩
          intro z hz hlt
          rcases List.mem_cons.1 hz with rfl | hz
          . exact Nat.le_refl _
          . -- No element behind the second one lies at a later place than it.
            rcases List.mem_cons.1 hz with rfl | hz
            . exact absurd hlt (Nat.lt_irrefl _)
            . exact absurd hlt (Nat.lt_asymm (List.rel_of_pairwise_cons hxs hz))
        . refine ⟨List.mem_cons_of_mem _ hx, List.mem_cons_of_mem _ hy, hlt, ?_⟩
          intro z hz hyz
          rcases List.mem_cons.1 hz with rfl | hz
          . exact Nat.le_of_lt (hfirst x hx)
          . exact hbetween z hz hyz
      . rintro ⟨hx, hy, hlt, hbetween⟩
        rcases List.mem_cons.1 hy with rfl | hbehind
        . -- The first element has no place in front of it.
          rcases List.mem_cons.1 hx with rfl | hx
          . exact absurd hlt (Nat.lt_irrefl _)
          . exact absurd hlt (Nat.lt_asymm (hfirst x hx))
        . rcases List.mem_cons.1 hx with rfl | hx
          . left
            refine ⟨rfl, ?_⟩
            rcases List.mem_cons.1 hbehind with rfl | hbehind
            . rfl
            . have hle := hbetween second (by simp) (List.rel_of_pairwise_cons hxs hbehind)
              omega
          . right
            exact ⟨hx, hbehind, hlt, fun z hz => hbetween z (List.mem_cons_of_mem _ hz)⟩

theorem pairwise_neighbours {r : α → α → Prop} {xs : List α} (h : xs.Pairwise r)
    : (neighbours xs).Pairwise fun pair next => r pair.2 next.2 := by
  rw [← List.pairwise_map, neighbours, List.map_snd_zip]
  . exact h.tail
  . rw [List.length_tail]
    omega

end

namespace FileHistory

/-! The revisions in a block with their places -/

section

variable {line : List (Nat × Revision)} {lower upper : Nat} {x y : Nat × Revision}

def placedUpTo (line : List (Nat × Revision)) (lower upper : Nat) : List (Nat × Revision) :=
  (line.filter fun x => lower ≤ x.1).head?.toList
    ++ (line.filter fun x => upper ≤ x.1 ∧ x.1 < lower).reverse

theorem upTo_eq_map (line : List (Nat × Revision)) (lower upper : Nat)
    : upTo line lower upper = (placedUpTo line lower upper).map (·.2) := by
  rw [upTo, inFront, inBlock, placedUpTo, List.map_append, List.map_reverse, Option.toList_map]

theorem mem_inFront (hline : line.Pairwise (·.1 < ·.1))
    : x ∈ (line.filter fun x => lower ≤ x.1).head?
        ↔
      x ∈ line ∧ lower ≤ x.1 ∧ ∀ z ∈ line, lower ≤ z.1 → x.1 ≤ z.1 := by
  have hsorted := hline.filter fun x => lower ≤ x.1
  have hmem (z : Nat × Revision)
      : z ∈ line.filter (fun x => lower ≤ x.1) ↔ z ∈ line ∧ lower ≤ z.1 := by
    rw [List.mem_filter, decide_eq_true_iff]
  cases hbehind : line.filter fun x => lower ≤ x.1 with
  | nil =>
    rw [hbehind] at hmem
    constructor
    . intro hnone
      cases hnone
    . rintro ⟨hx, hle, -⟩
      cases (hmem x).2 ⟨hx, hle⟩
  | cons first rest =>
    rw [hbehind] at hmem hsorted
    rw [List.head?_cons, Option.mem_some_iff]
    constructor
    . rintro rfl
      obtain ⟨hx, hle⟩ := (hmem first).1 List.mem_cons_self
      refine ⟨hx, hle, ?_⟩
      intro z hz hlez
      rcases List.mem_cons.1 ((hmem z).2 ⟨hz, hlez⟩) with rfl | hrest
      . exact Nat.le_refl _
      . exact Nat.le_of_lt (List.rel_of_pairwise_cons hsorted hrest)
    . rintro ⟨hx, hle, hfirst⟩
      rcases List.mem_cons.1 ((hmem x).2 ⟨hx, hle⟩) with rfl | hrest
      . rfl
      . obtain ⟨hmemFirst, hleFirst⟩ := (hmem first).1 List.mem_cons_self
        have hlt := List.rel_of_pairwise_cons hsorted hrest
        exact absurd hlt (Nat.not_lt.2 (hfirst first hmemFirst hleFirst))

theorem mem_placedUpTo (hline : line.Pairwise (·.1 < ·.1))
    : x ∈ placedUpTo line lower upper
        ↔
      x ∈ line ∧ (upper ≤ x.1 ∧ x.1 < lower ∨ lower ≤ x.1 ∧ ∀ z ∈ line, lower ≤ z.1 → x.1 ≤ z.1)
    := by
  rw [placedUpTo, List.mem_append, Option.mem_toList, ← Option.mem_def, mem_inFront hline,
    List.mem_reverse, List.mem_filter, decide_eq_true_iff]
  tauto

theorem pairwise_placedUpTo (hline : line.Pairwise (·.1 < ·.1)) (lower upper : Nat)
    : (placedUpTo line lower upper).Pairwise (·.1 > ·.1) := by
  rw [placedUpTo, List.pairwise_append]
  refine ⟨?_, List.pairwise_reverse.2 (hline.filter _), ?_⟩
  . cases (line.filter fun x => lower ≤ x.1).head? with
    | none => exact List.Pairwise.nil
    | some first => exact List.pairwise_singleton _ _
  . intro x hx y hy
    rw [Option.mem_toList, ← Option.mem_def, mem_inFront hline] at hx
    rw [List.mem_reverse, List.mem_filter, decide_eq_true_iff] at hy
    exact Nat.lt_of_lt_of_le hy.2.2 hx.2.1

theorem mem_neighbours_placedUpTo (hline : line.Pairwise (·.1 < ·.1))
    : (x, y) ∈ neighbours (placedUpTo line lower upper)
        ↔
      x ∈ line ∧ y ∈ line ∧ (upper ≤ y.1 ∧ y.1 < lower) ∧ y.1 < x.1
        ∧ ∀ z ∈ line, y.1 < z.1 → x.1 ≤ z.1 := by
  rw [mem_neighbours_iff (pairwise_placedUpTo hline lower upper), mem_placedUpTo hline,
    mem_placedUpTo hline]
  constructor
  . rintro ⟨⟨hx, hplace⟩, ⟨hy, hblock | ⟨hle, hfirst⟩⟩, hlt, hbetween⟩
    . refine ⟨hx, hy, hblock, hlt, ?_⟩
      intro z hz hyz
      rcases Nat.lt_or_ge z.1 lower with hinside | hbehind
      . exact hbetween z ((mem_placedUpTo hline).2 ⟨hz, .inl ⟨by omega, hinside⟩⟩) hyz
      . rcases hplace with hplace | ⟨-, hfirst⟩
        . omega
        . exact hfirst z hz hbehind
    . -- Only the first element lies in front of the block, and none in front of it.
      rcases hplace with hplace | ⟨hle', hfirst'⟩
      . omega
      . exact absurd (hfirst' y hy hle) (Nat.not_le.2 hlt)
  . rintro ⟨hx, hy, hblock, hlt, hbetween⟩
    refine ⟨⟨hx, ?_⟩, ⟨hy, .inl hblock⟩, hlt, ?_⟩
    . rcases Nat.lt_or_ge x.1 lower with hinside | hbehind
      . left
        omega
      . right
        exact ⟨hbehind, fun z hz hle => hbetween z hz (by omega)⟩
    . intro z hz
      exact hbetween z ((mem_placedUpTo hline).1 hz).1

end

/-! Revisions of which some may be at no commit of the line -/

variable {commits : List Commit} {revisions listed : List Revision} {revision : Revision}

theorem mem_onLine {place : Nat}
    : (place, revision) ∈ onLine commits revisions
        ↔
      revision ∈ revisions ∧ positionIn commits revision.commit = some place := by
  rw [onLine, (perm_byPlace _).mem_iff, withPlaces, List.mem_filterMap]
  constructor
  . rintro ⟨other, hother, hplaced⟩
    obtain ⟨found, hfound, heq⟩ := Option.map_eq_some_iff.1 hplaced
    cases heq
    exact ⟨hother, hfound⟩
  . rintro ⟨hmem, hplace⟩
    exact ⟨revision, hmem, by rw [hplace]; rfl⟩

theorem onLine_of_perm (h : IsLine commits) (hnodup : (revisions.map Revision.commit).Nodup)
    (hperm : listed.Perm revisions) : onLine commits listed = onLine commits revisions := by
  have hplaced : (withPlaces commits listed).Perm (withPlaces commits revisions) := by
    rw [withPlaces, withPlaces]
    exact hperm.filterMap _
  have hlisted := pairwise_lt_onLine h ((hperm.map Revision.commit).nodup_iff.2 hnodup)
  have hrevisions := pairwise_lt_onLine h hnodup
  apply List.Perm.eq_of_pairwise (fun x y _ _ hlt hgt => absurd hgt (Nat.lt_asymm hlt)) hlisted
    hrevisions
  exact (perm_byPlace _).trans (hplaced.trans (perm_byPlace _).symm)

theorem ofBlock_of_perm {lower upper : Commit} (h : IsLine commits) (hlower : lower ∈ commits)
    (hnodup : (revisions.map Revision.commit).Nodup) (hperm : listed.Perm revisions) (path : String)
    : ofBlock (positionIn commits) (.block commits lower upper) path listed
        =
      ofBlock (positionIn commits) (.block commits lower upper) path revisions := by
  rw [ofBlock_block h hlower, ofBlock_block h hlower, onLine_of_perm h hnodup hperm]

end FileHistory

def IsOlder (commits : List Commit) (older newer : Revision) : Prop :=
  ∃ place ∈ positionIn commits newer.commit, ∃ behind ∈ positionIn commits older.commit,
    place < behind

instance (commits : List Commit) (older newer : Revision)
    : Decidable (IsOlder commits older newer) :=
  inferInstanceAs (Decidable (∃ place ∈ positionIn commits newer.commit,
    ∃ behind ∈ positionIn commits older.commit, place < behind))

structure IsPredecessor (commits : List Commit) (revisions : List Revision)
    (older newer : Revision) : Prop where
  mem : older ∈ revisions
  isOlder : IsOlder commits older newer
  none_between : ∀ other ∈ revisions, IsOlder commits other newer → ¬IsOlder commits older other

instance (commits : List Commit) (revisions : List Revision) (older newer : Revision)
    : Decidable (IsPredecessor commits revisions older newer) :=
  decidable_of_iff (older ∈ revisions ∧ IsOlder commits older newer
    ∧ ∀ other ∈ revisions, IsOlder commits other newer → ¬IsOlder commits older other)
    ⟨fun h => ⟨h.1, h.2.1, h.2.2⟩, fun h => ⟨h.mem, h.isOlder, h.none_between⟩⟩

def IsInBlock (commits : List Commit) (lower upper : Commit) (revision : Revision) : Prop :=
  ∃ place ∈ positionIn commits revision.commit, upper.position ≤ place ∧ place < lower.position

instance (commits : List Commit) (lower upper : Commit) (revision : Revision)
    : Decidable (IsInBlock commits lower upper revision) :=
  inferInstanceAs (Decidable (∃ place ∈ positionIn commits revision.commit,
    upper.position ≤ place ∧ place < lower.position))

namespace FileHistory

variable {commits : List Commit} {revisions : List Revision} {lower upper : Commit}

theorem mem_pairs_ofBlock (h : IsLine commits) (hlower : lower ∈ commits)
    (hnodup : (revisions.map Revision.commit).Nodup) (path : String) (older newer : Revision)
    : (older, newer)
          ∈ (ofBlock (positionIn commits) (.block commits lower upper) path revisions).pairs
        ↔
      newer ∈ revisions ∧ IsInBlock commits lower upper newer
        ∧ IsPredecessor commits revisions older newer := by
  have hline := pairwise_lt_onLine h hnodup
  rw [pairs_ofBlock h hlower, upTo_eq_map, neighbours_map, List.mem_map]
  constructor
  . rintro ⟨⟨⟨behind, older⟩, ⟨place, newer⟩⟩, hpair, heq⟩
    cases heq
    rw [mem_neighbours_placedUpTo hline, mem_onLine, mem_onLine] at hpair
    obtain ⟨⟨holder, hbehind⟩, ⟨hnewer, hplace⟩, hblock, hlt, hbetween⟩ := hpair
    refine ⟨hnewer, ⟨place, hplace, hblock⟩, holder, ⟨place, hplace, behind, hbehind, hlt⟩, ?_⟩
    rintro other hother ⟨_, hplace', between, hbetween', hlt'⟩ ⟨_, hbetween'', _, hbehind', hlt''⟩
    rw [Option.mem_def] at hplace' hbetween' hbetween'' hbehind'
    rw [hplace, Option.some_inj] at hplace'
    rw [hbetween', Option.some_inj] at hbetween''
    rw [hbehind, Option.some_inj] at hbehind'
    have hle := hbetween (between, other) (mem_onLine.2 ⟨hother, hbetween'⟩) (by omega)
    omega
  . rintro ⟨hnewer, ⟨place, hplace, hblock⟩, holder, ⟨_, hplace', behind, hbehind, hlt⟩, hbetween⟩
    rw [Option.mem_def] at hplace hplace' hbehind
    rw [hplace, Option.some_inj] at hplace'
    subst hplace'
    refine ⟨((behind, older), (place, newer)), ?_, rfl⟩
    rw [mem_neighbours_placedUpTo hline, mem_onLine, mem_onLine]
    refine ⟨⟨holder, hbehind⟩, ⟨hnewer, hplace⟩, hblock, hlt, ?_⟩
    intro ⟨between, other⟩ hother hlt'
    rw [mem_onLine] at hother
    obtain ⟨hother, hplace'⟩ := hother
    have hnot := hbetween other hother ⟨place, hplace, between, hplace', hlt'⟩
    by_contra hle
    exact hnot ⟨between, hplace', behind, hbehind, by omega⟩

theorem pairwise_pairs_ofBlock (h : IsLine commits) (hlower : lower ∈ commits)
    (hnodup : (revisions.map Revision.commit).Nodup) (path : String)
    : (ofBlock (positionIn commits) (.block commits lower upper) path revisions).pairs.Pairwise
        fun pair next => IsOlder commits pair.2 next.2 := by
  have hline := pairwise_lt_onLine h hnodup
  rw [pairs_ofBlock h hlower, upTo_eq_map]
  apply pairwise_neighbours
  rw [List.pairwise_map]
  apply (pairwise_placedUpTo hline lower.position upper.position).imp_of_mem
  intro x y hx hy hlt
  have hx := mem_onLine.1 ((mem_placedUpTo hline).1 hx).1
  have hy := mem_onLine.1 ((mem_placedUpTo hline).1 hy).1
  exact ⟨y.1, hy.2, x.1, hx.2, hlt⟩

end FileHistory

/-! What resolves to a block -/

namespace SurveyM

variable {α β : Type} {source : Source} {commits : List Commit}

theorem Tells.exists_of_bind {act : SurveyM α} {next : α → SurveyM β} (hact : Tells source act)
    {survey : Survey} (hs : survey.IsCalm source) {b : β}
    (h : (perform (act >>= next) survey).1 = .ok b)
    : ∃ a after, answer act = .ok a ∧ after.IsCalm source ∧ (perform (next a) after).1 = .ok b := by
  rw [hact.perform_bind hs] at h
  cases hanswer : answer act with
  | ok a =>
    rw [hanswer] at h
    exact ⟨a, _, rfl, hact.isCalm survey hs, h⟩
  | error failure =>
    rw [hanswer] at h
    cases h

theorem mem_of_answer_commitOf {id : String} {commit : Commit}
    (hcommits : source.allCommits = .ok commits) (hline : IsLine commits)
    (h : answer (commitOf source id) = .ok commit) : commit ∈ commits ∧ commit.id = id := by
  rw [answer, commitOf] at h
  obtain ⟨found, after, hfound, -, hcommit⟩ :=
    (IsLookup.commit id).tells.exists_of_bind (Survey.isCalm_start source) h
  rw [answer_commit, hcommits] at hfound
  cases found with
  | none => cases hcommit
  | some other =>
    cases hcommit
    exact hline.commitIn_eq_some.1 (Except.ok.inj hfound)

theorem answer_resolveBlock {lower upper : Commit} (hcommits : source.allCommits = .ok commits)
    (hline : IsLine commits) (hlower : lower ∈ commits) (hupper : upper ∈ commits)
    {start stop : Given String} (hstart : NamesPlace source .lower start lower)
    (hstop : NamesPlace source .upper stop upper)
    : answer (resolveBlock source start stop) = .ok (.block commits lower upper) := by
  obtain ⟨last, hperform, -⟩ := reaches_resolveBlock hcommits hline hlower hupper hstart hstop _
    (Survey.isCalm_start source)
  rw [answer, hperform]

theorem block_of_answer_resolveBlock {start stop : Given String} {range : Range}
    (hcommits : source.allCommits = .ok commits) (hline : IsLine commits)
    (h : answer (resolveBlock source start stop) = .ok range)
    : ∃ lower ∈ commits, ∃ upper ∈ commits, NamesPlace source .lower start lower
        ∧ NamesPlace source .upper stop upper ∧ range = .block commits lower upper := by
  rw [answer, resolveBlock] at h
  obtain ⟨all, survey, hall, hs, h⟩ :=
    IsLookup.commits.tells.exists_of_bind (Survey.isCalm_start source) h
  rw [answer_commits, hcommits, Except.ok.injEq] at hall
  subst hall
  obtain ⟨id, survey, hstart, hs, h⟩ := (IsLookup.endpointId _ _).tells.exists_of_bind hs h
  obtain ⟨lower, survey, hfoundLower, hs, h⟩ := (IsLookup.commitOf _).tells.exists_of_bind hs h
  obtain ⟨id', survey, hstop, hs, h⟩ := (IsLookup.endpointId _ _).tells.exists_of_bind hs h
  obtain ⟨upper, survey, hfoundUpper, hs, h⟩ := (IsLookup.commitOf _).tells.exists_of_bind hs h
  change Except.ok (Range.block commits lower upper) = .ok range at h
  have hrange := Except.ok.inj h
  obtain ⟨hlower, rfl⟩ := mem_of_answer_commitOf hcommits hline hfoundLower
  obtain ⟨hupper, rfl⟩ := mem_of_answer_commitOf hcommits hline hfoundUpper
  exact ⟨lower, hlower, upper, hupper, hstart, hstop, hrange.symm⟩

end SurveyM

def Source.listing (source : Source) (revisions : List Revision) : Source :=
  { source with revisionsOf := fun _ => .ok revisions }

open SurveyM in
/--
Between two places of a line a file has a pair for each of its revisions in the block that has a
predecessor: the predecessor and the revision, the oldest one first, in whatever order the revisions
are listed. Revisions that are not on the line make no difference.
-/
theorem pairs_block_are_predecessors {source : Source} {commits : List Commit}
    {start stop : Given String} {range : Range} {path : String} {revisions : List Revision}
    (hcommits : source.allCommits = .ok commits) (hline : IsLine commits)
    (hrange : answer (resolveBlock source start stop) = .ok range)
    (hrevisions : source.revisionsOf path = .ok revisions)
    (hnodup : (revisions.map Revision.commit).Nodup)
    : ∃ lower ∈ commits, ∃ upper ∈ commits, ∃ placed : FileHistory,
        NamesPlace source .lower start lower ∧ NamesPlace source .upper stop upper
          ∧ answer (do
            let _ ← resolveBlock source start stop
            history source .never path) = .ok placed
          ∧ (∀ older newer, (older, newer) ∈ placed.pairs
            ↔
            newer ∈ revisions ∧ IsInBlock commits lower upper newer
              ∧ IsPredecessor commits revisions older newer)
          ∧ (placed.pairs.Pairwise fun pair next => IsOlder commits pair.2 next.2)
          ∧ ∀ listed : List Revision, listed.Perm revisions →
            answer (do
              let _ ← resolveBlock (source.listing listed) start stop
              history (source.listing listed) .never path) = .ok placed := by
  obtain ⟨lower, hlower, upper, hupper, hstart, hstop, -⟩ :=
    block_of_answer_resolveBlock hcommits hline hrange
  refine ⟨lower, hlower, upper, hupper,
    .ofBlock (positionIn commits) (.block commits lower upper) path revisions, hstart, hstop, ?_,
    FileHistory.mem_pairs_ofBlock hline hlower hnodup path,
    FileHistory.pairwise_pairs_ofBlock hline hlower hnodup path, ?_⟩
  . apply answer_of_reaches
    apply (reaches_resolveBlock hcommits hline hlower hupper hstart hstop).bind
    exact reaches_history (Source.historyOf_block hcommits hrevisions)
  . intro listed hperm
    rw [← FileHistory.ofBlock_of_perm hline hlower hnodup hperm]
    have hcommits' : (source.listing listed).allCommits = .ok commits := hcommits
    apply @answer_of_reaches _ (source.listing listed)
    apply (reaches_resolveBlock hcommits' hline hlower hupper hstart hstop).bind
    exact reaches_history (Source.historyOf_block hcommits' rfl)

/-! A file that was changed at two commits of three, and once off the line -/

namespace Sample

def unordered : List Revision :=
  (yearly.reverse.map fun commit => ⟨commit.id, commit.date⟩).set 1
    ⟨"lost", startOf ⟨2002, 6, 1, by decide⟩⟩

theorem eq_of_namesPlace {endpoint : Endpoint} {id : String} {commit named : Commit}
    (hcommit : commit ∈ yearly) (hnamed : named ∈ yearly) (hid : commit.id = id)
    (h : SurveyM.NamesPlace (yearlySource.listing unordered) endpoint (.value id) named)
    : named = commit := by
  have hline := isDated_yearly.toIsLine
  subst hid
  have hplace := @SurveyM.namesPlace_id (yearlySource.listing unordered) _ _ rfl hline hcommit
    (isPlain_yearly hcommit) endpoint
  exact hline.eq_of_id hnamed hcommit (Except.ok.inj (h.symm.trans hplace))

end Sample

open SurveyM in
theorem pair_over_revision_off_line
    : ∃ placed : FileHistory,
      answer (do
        let _ ← resolveBlock (Sample.yearlySource.listing Sample.unordered) (.value "2001")
          (.value "2003")
        history (Sample.yearlySource.listing Sample.unordered) .never "A.java") = .ok placed
      ∧ (Sample.unordered[0], Sample.unordered[2]) ∈ placed.pairs
      ∧ ∀ older, (older, Sample.unordered[1]) ∉ placed.pairs := by
  have hnew : Sample.yearly[0] ∈ Sample.yearly := List.getElem_mem _
  have hold : Sample.yearly[2] ∈ Sample.yearly := List.getElem_mem _
  have hline := Sample.isDated_yearly.toIsLine
  let source := Sample.yearlySource.listing Sample.unordered
  have hstart : NamesPlace source .lower (.value "2001") Sample.yearly[2] :=
    namesPlace_id rfl hline hold (Sample.isPlain_yearly hold) _
  have hstop : NamesPlace source .upper (.value "2003") Sample.yearly[0] :=
    namesPlace_id rfl hline hnew (Sample.isPlain_yearly hnew) _
  have hrange := answer_resolveBlock rfl hline hold hnew hstart hstop
  obtain ⟨lower, hlower, upper, hupper, placed, hstart', hstop', hplaced, hpairs, -, -⟩ :=
    @pairs_block_are_predecessors source _ _ _ _ "A.java" _ rfl hline hrange rfl
      (by decide +kernel)
  rw [Sample.eq_of_namesPlace hold hlower rfl hstart',
    Sample.eq_of_namesPlace hnew hupper rfl hstop'] at hpairs
  refine ⟨placed, hplaced, ?_, ?_⟩
  . rw [hpairs]
    decide +kernel
  . intro older
    rw [hpairs]
    have hoff : ¬IsInBlock Sample.yearly Sample.yearly[2] Sample.yearly[0] Sample.unordered[1] := by
      decide +kernel
    exact fun h => hoff h.2.1

end MethodHistory
