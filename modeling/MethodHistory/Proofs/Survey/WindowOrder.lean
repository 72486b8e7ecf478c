import MethodHistory.Proofs.Survey.Predecessors

/-!
This module contains the order in which a history in a window of dates lists the revisions of a
file, whatever their dates are: by date, and those of one date in the reverse of the order in which
the source lists them. In front of them stands the newest one of the revisions that are older than
the window.
-/

namespace MethodHistory

theorem infix_of_mem_neighbours {α : Type} {xs : List α} {x y : α} (h : (x, y) ∈ neighbours xs)
    : [x, y] <:+: xs := by
  induction xs with
  | nil => cases h
  | cons first xs ih =>
    cases xs with
    | nil => cases h
    | cons second xs =>
      rw [neighbours_cons_cons] at h
      rcases List.mem_cons.1 h with h | h
      . cases h
        exact (List.prefix_append [x, y] xs).isInfix
      . exact (ih h).trans (List.suffix_cons first _).isInfix

/--
The revisions in a window, the oldest one first; those of one date stand in the reverse of the order
in which they are listed.
-/
structure IsTimeline (range : Range) (revisions inside : List Revision) : Prop where
  perm : inside.Perm (revisions.filter (range.covers ·.date))
  ascending : inside.Pairwise (·.date ≤ ·.date)
  ties_eq : ∀ place, inside.filter (·.date.place = place)
    = (revisions.filter fun revision => range.covers revision.date
        ∧ revision.date.place = place).reverse

/--
The newest revision in front of a window, the first one that is listed of those with its date.
-/
structure IsBoundary (range : Range) (revisions : List Revision) (boundary : Revision) : Prop where
  isOlder : boundary.date < range.dateMin
  none_between : ∀ other ∈ revisions, boundary.date < other.date → ¬other.date < range.dateMin
  find?_eq : revisions.find? (·.date.place = boundary.date.place) = some boundary

/--
Whether revisions are listed as a source lists them as a rule, the most recent one first.
-/
def IsDescending (revisions : List Revision) : Prop :=
  revisions.Pairwise fun newer older => older.date ≤ newer.date

namespace FileHistory

def inWindow (range : Range) (revisions : List Revision) : List Revision :=
  (revisions.filter (range.covers ·.date)).mergeSort fun a b => b.date ≤ a.date

def beforeWindow (range : Range) (revisions : List Revision) : Option Revision :=
  best? (fun a b => b.date < a.date) (revisions.filter (·.date < range.dateMin))

variable {range : Range} {revisions : List Revision}

theorem ofWindow_of_covers (hlength : 1 < revisions.length)
    (hinside : ∃ revision ∈ revisions, range.covers revision.date) (path : String)
    : ofWindow range path revisions
        =
      ⟨path, inWindow range revisions, beforeWindow range revisions⟩ := by
  rw [ofWindow, if_neg]
  . rfl
  . rintro (hshort | hnone)
    . omega
    . obtain ⟨revision, hrevision, hcovers⟩ := hinside
      rw [List.isEmpty_iff, List.filter_eq_nil_iff] at hnone
      exact hnone revision hrevision hcovers

theorem later_trans (a b c : Revision) (hab : decide (b.date ≤ a.date))
    (hbc : decide (c.date ≤ b.date)) : decide (c.date ≤ a.date) := by
  rw [decide_eq_true_iff] at *
  exact Int.le_trans hbc hab

theorem later_total (a b : Revision) : decide (b.date ≤ a.date) || decide (a.date ≤ b.date) := by
  rw [Bool.or_eq_true, decide_eq_true_iff, decide_eq_true_iff]
  exact Int.le_total b.date.place a.date.place

theorem isTimeline_inWindow (range : Range) (revisions : List Revision)
    : IsTimeline range revisions (inWindow range revisions).reverse := by
  constructor
  . exact (List.reverse_perm _).trans (List.mergeSort_perm _ _)
  . rw [List.pairwise_reverse]
    exact (List.pairwise_mergeSort later_trans later_total _).imp of_decide_eq_true
  . intro place
    rw [List.filter_reverse, inWindow, filter_mergeSort later_trans later_total, List.filter_filter]
    . congr 2
      funext revision
      rw [Bool.and_comm, Bool.decide_and, Bool.decide_eq_true]
    . -- Of two revisions at the same place on the time line each is as late as the other one.
      rw [List.pairwise_iff_forall_sublist]
      intro a b hsublist
      have hplace {x : Revision} (hx : x ∈ [a, b]) : x.date.place = place := by
        simpa using (List.mem_filter.1 (hsublist.subset hx)).2
      rw [decide_eq_true_iff]
      exact Int.le_of_eq ((hplace (by simp)).trans (hplace (by simp)).symm)

theorem beforeWindow_spec (range : Range) (revisions : List Revision)
    : match beforeWindow range revisions with
      | none => ∀ revision ∈ revisions, ¬revision.date < range.dateMin
      | some boundary => IsBoundary range revisions boundary := by
  have hspec := best?_spec (fun revision : Revision => -revision.date.place)
    (revisions.filter (·.date < range.dateMin))
  have hkey : (fun a b : Revision => decide (-a.date.place < -b.date.place))
      = fun a b => decide (b.date < a.date) := by
    funext a b
    rw [decide_eq_decide, Int.neg_lt_neg_iff]
    rfl
  rw [hkey] at hspec
  rw [beforeWindow]
  generalize best? _ _ = best at *
  cases best with
  | none =>
    intro revision hrevision hlt
    exact List.filter_eq_nil_iff.1 hspec revision hrevision (decide_eq_true hlt)
  | some boundary =>
    obtain ⟨hnewest, hfirst⟩ := hspec
    have hboundary := List.mem_filter.1 (List.mem_filter.1 (List.mem_of_head? hfirst)).1
    have holder : boundary.date < range.dateMin := of_decide_eq_true hboundary.2
    refine ⟨holder, ?_, ?_⟩
    . intro other hother hlater hlt
      have hle := hnewest other (List.mem_filter.2 ⟨hother, decide_eq_true hlt⟩)
      exact absurd hlater (Int.not_lt.2 (Int.neg_le_neg_iff.1 hle))
    . rw [← List.head?_filter, ← hfirst, List.filter_filter]
      congr 1
      apply List.filter_congr
      intro other _
      -- All revisions with the date of the boundary are older than the window.
      have hsame : other.date.place = boundary.date.place → other.date < range.dateMin := by
        intro hplace
        exact Int.lt_of_le_of_lt (Int.le_of_eq hplace) holder
      rw [← Bool.decide_and, decide_eq_decide, Int.neg_inj]
      exact (and_iff_left_of_imp hsame).symm

theorem isSome_beforeWindow (range : Range) (revisions : List Revision)
    : (beforeWindow range revisions).isSome
        ↔
      ∃ revision ∈ revisions, revision.date < range.dateMin := by
  have hspec := beforeWindow_spec range revisions
  cases hbefore : beforeWindow range revisions with
  | none =>
    rw [hbefore] at hspec
    simpa using hspec
  | some boundary =>
    rw [hbefore] at hspec
    have hmem := List.mem_of_find?_eq_some hspec.find?_eq
    exact iff_of_true rfl ⟨boundary, hmem, hspec.isOlder⟩

/-! Revisions that are listed from the most recent one on -/

theorem inWindow_of_isDescending (h : IsDescending revisions)
    : inWindow range revisions = revisions.filter (range.covers ·.date) := by
  apply List.mergeSort_of_pairwise
  apply List.Pairwise.filter
  exact h.imp decide_eq_true

theorem beforeWindow_of_isDescending (h : IsDescending revisions)
    : beforeWindow range revisions = (revisions.filter (·.date < range.dateMin)).head? := by
  apply best?_of_pairwise
  apply List.Pairwise.filter
  apply h.imp
  intro newer older hle
  rw [decide_eq_false_iff_not]
  exact Int.not_lt.2 hle

theorem exists_later_append (h : IsDescending revisions) (range : Range)
    : ∃ later, later ++ (revisions.filter (range.covers ·.date)
        ++ revisions.filter (·.date < range.dateMin)) = revisions := by
  let isYoung (revision : Revision) : Bool := range.dateMin ≤ revision.date
  let isLater (revision : Revision) : Bool := range.dateMax < revision.date
  have hyoung : revisions.filter isYoung ++ revisions.filter (!isYoung ·) = revisions := by
    apply filter_append_filter_not
    apply h.imp
    intro newer older hle hmin
    exact decide_eq_true (Int.le_trans (of_decide_eq_true hmin) hle)
  have hlater : (revisions.filter isYoung).filter isLater
      ++ (revisions.filter isYoung).filter (!isLater ·) = revisions.filter isYoung := by
    apply filter_append_filter_not
    apply (h.filter _).imp
    intro newer older hle hmax
    exact decide_eq_true (Int.lt_of_lt_of_le (of_decide_eq_true hmax) hle)
  have hinside : (revisions.filter isYoung).filter (!isLater ·)
      = revisions.filter (range.covers ·.date) := by
    rw [List.filter_filter]
    congr 1
    funext revision
    rw [Range.covers, ← decide_not, ← Bool.decide_and, decide_eq_decide, and_comm]
    exact and_congr_right fun _ => Int.not_lt
  have holder : revisions.filter (!isYoung ·) = revisions.filter (·.date < range.dateMin) := by
    congr 1
    funext revision
    rw [← decide_not, decide_eq_decide]
    exact Int.not_le
  refine ⟨(revisions.filter isYoung).filter isLater, ?_⟩
  rw [← List.append_assoc, ← hinside, hlater, ← holder, hyoung]

theorem infix_of_isDescending (h : IsDescending revisions) (range : Range)
    : inWindow range revisions ++ (beforeWindow range revisions).toList <:+: revisions := by
  obtain ⟨later, hlater⟩ := exists_later_append h range
  rw [inWindow_of_isDescending h, beforeWindow_of_isDescending h]
  obtain ⟨rest, hrest⟩ : ((revisions.filter (·.date < range.dateMin)).head?.toList
      <+: revisions.filter (·.date < range.dateMin)) := by
    cases revisions.filter (·.date < range.dateMin) with
    | nil => exact List.nil_prefix
    | cons first rest => exact List.prefix_append [first] rest
  refine ⟨later, rest, ?_⟩
  rw [List.append_assoc, List.append_assoc, hrest, hlater]

end FileHistory

/-! What a survey finds out of a file in a window -/

namespace SurveyM

theorem ensures_useWindow (source : Source) (monitor : Monitor) (lower upper : Option Commit)
    (dateMin dateMax : Instant)
    : Ensures (useWindow source monitor lower upper dateMin dateMax) (·.mode = .date) := by
  rw [useWindow]
  apply Ensures.after
  intro commits
  apply Ensures.after
  intro _
  apply Ensures.after
  intro _
  exact .pure rfl

theorem ensures_resolveWindow (source : Source) (monitor : Monitor) (start stop : Given String)
    (since : Given Instant)
    : Ensures (resolveWindow source monitor start stop since) (·.mode = .date) := by
  rw [resolveWindow]
  apply Ensures.after
  intro first
  apply Ensures.after
  intro last
  apply Ensures.after
  intro lower
  apply Ensures.after
  intro upper
  apply Ensures.after
  intro dateMin
  apply ensures_useWindow

theorem answer_history_of_window {source : Source} {start stop : Given String}
    {since : Given Instant} {range : Range} {path : String} {revisions : List Revision}
    (hrange : answer (resolveWindow source .never start stop since) = .ok range)
    (hnonempty : range.isEmpty = false) (hrevisions : source.revisionsOf path = .ok revisions)
    : answer (do
        let _ ← resolveWindow source .never start stop since
        history source .never path) = .ok (.ofWindow range path revisions) := by
  have hmode : range.mode = .date := by
    apply (ensures_resolveWindow source .never start stop since).of_perform
    exact perform_eq_of_result hrange
  have hhistory : source.historyOf range path = .ok (.ofWindow range path revisions) := by
    rw [Source.historyOf, if_neg (by simp [hnonempty]), hrevisions, hmode]
    rfl
  apply answer_of_reaches
  apply ((Settling.resolveWindow start stop since).reaches hrange).bind
  exact reaches_history hhistory

end SurveyM

open SurveyM in
/--
With at least two revisions of a file, of which one lies in the window, the history consists of the
boundary and the timeline of those in the window; if the source lists the revisions from the most
recent one on, that is a part of its list, and the two sides of a pair are next to each other in it.
-/
theorem window_history_in_order {source : Source} {start stop : Given String}
    {since : Given Instant} {range : Range} {path : String} {revisions : List Revision}
    (hrange : answer (resolveWindow source .never start stop since) = .ok range)
    (hnonempty : range.isEmpty = false) (hrevisions : source.revisionsOf path = .ok revisions)
    (hlength : 2 ≤ revisions.length) (hinside : ∃ revision ∈ revisions, range.covers revision.date)
    : ∃ dated : FileHistory,
        answer (do
          let _ ← resolveWindow source .never start stop since
          history source .never path) = .ok dated
        ∧ (∃ inside, IsTimeline range revisions inside
          ∧ dated.chronological = dated.boundary.toList ++ inside)
        ∧ (dated.boundary.isSome ↔ ∃ revision ∈ revisions, revision.date < range.dateMin)
        ∧ (∀ boundary ∈ dated.boundary, IsBoundary range revisions boundary)
        ∧ (IsDescending revisions →
          (∃ segment, segment <:+: revisions ∧ dated.chronological = segment.reverse)
          ∧ ∀ older newer, (older, newer) ∈ dated.pairs → [newer, older] <:+: revisions) := by
  have hdated := answer_history_of_window hrange hnonempty hrevisions
  rw [FileHistory.ofWindow_of_covers hlength hinside] at hdated
  refine ⟨_, hdated, ⟨_, FileHistory.isTimeline_inWindow range revisions, rfl⟩,
    FileHistory.isSome_beforeWindow range revisions, ?_, ?_⟩
  . intro boundary hboundary
    have hspec := FileHistory.beforeWindow_spec range revisions
    rw [Option.mem_def] at hboundary
    dsimp only at hboundary
    rw [hboundary] at hspec
    exact hspec
  . intro hdescending
    have hinfix := FileHistory.infix_of_isDescending hdescending range
    have hreverse : FileHistory.chronological ⟨path, FileHistory.inWindow range revisions,
        FileHistory.beforeWindow range revisions⟩ = (FileHistory.inWindow range revisions
          ++ (FileHistory.beforeWindow range revisions).toList).reverse := by
      rw [FileHistory.chronological, List.reverse_append]
      cases FileHistory.beforeWindow range revisions <;> rfl
    refine ⟨⟨_, hinfix, hreverse⟩, ?_⟩
    intro older newer hpair
    rw [FileHistory.pairs_eq, hreverse] at hpair
    have hadjacent := infix_of_mem_neighbours hpair
    rw [← List.reverse_infix, List.reverse_reverse] at hadjacent
    exact hadjacent.trans hinfix

/-! A file with two revisions in the window at one date, and two in front of it at another one -/

namespace Sample

def tied : List Revision :=
  List.zipWith (fun name commit => ⟨name, commit.date⟩)
    ["early 2002", "early 2001", "2003", "late 2002", "late 2001"] (yearly.tail ++ yearly)

end Sample

open SurveyM in
theorem ties_in_window_from_2002
    : ∃ dated : FileHistory,
        answer (do
          let _ ← resolveWindow (Sample.yearlySource.listing Sample.tied) .never (.value "2002")
            (.value "2003") (.nothing "")
          history (Sample.yearlySource.listing Sample.tied) .never "A.java") = .ok dated
        ∧ dated.boundary = some Sample.tied[1]
        ∧ dated.chronological.filter (·.date.place = Sample.tied[0].date.place)
          = [Sample.tied[3], Sample.tied[0]] := by
  let source := Sample.yearlySource.listing Sample.tied
  have hnew : Sample.yearly[0] ∈ Sample.yearly := List.getElem_mem _
  have hmiddle : Sample.yearly[1] ∈ Sample.yearly := List.getElem_mem _
  have hline := Sample.isDated_yearly.toIsLine
  have hstart : NamesDate source .lower (.value "2002") Sample.yearly[1] :=
    namesDate_id rfl hline hmiddle (Sample.isPlain_yearly hmiddle) _
  have hstop : NamesDate source .upper (.value "2003") Sample.yearly[0] :=
    namesDate_id rfl hline hnew (Sample.isPlain_yearly hnew) _
  obtain ⟨last, hresolved, -⟩ := @reaches_resolveWindow source _ _ _ rfl _ _ hstart hstop
    (.nothing "") _ (Survey.isCalm_start source)
  have hrange : answer (resolveWindow source .never (.value "2002") (.value "2003") (.nothing ""))
      = .ok (.window Sample.yearly Sample.yearly[1] Sample.yearly[0]) := by
    rw [answer, hresolved]
  obtain ⟨dated, hdated, ⟨inside, htimeline, hchronological⟩, hsome, hboundary, -⟩ :=
    @window_history_in_order source _ _ _ _ "A.java" Sample.tied hrange (by decide +kernel) rfl
      (by decide) ⟨Sample.tied[0], by decide, by decide +kernel⟩
  have hfront : dated.boundary = some Sample.tied[1] := by
    obtain ⟨boundary, hsome⟩ := Option.isSome_iff_exists.1
      (hsome.2 ⟨Sample.tied[1], by decide, by decide +kernel⟩)
    have hfirst : ∀ revision ∈ Sample.tied,
        revision.date < (Range.window Sample.yearly Sample.yearly[1] Sample.yearly[0]).dateMin →
        Sample.tied.find? (·.date.place = revision.date.place) = some revision →
        revision = Sample.tied[1] := by
      decide +kernel
    have hspec := hboundary boundary hsome
    rw [hsome, hfirst boundary (List.mem_of_find?_eq_some hspec.find?_eq) hspec.isOlder
      hspec.find?_eq]
  refine ⟨dated, hdated, hfront, ?_⟩
  rw [hchronological, hfront, List.filter_append, htimeline.ties_eq]
  decide +kernel

end MethodHistory
