import MethodHistory.Proofs.Rotation
import MethodHistory.Proofs.Run.Steady

/-!
This module contains what a run leaves in the directory of its snapshots: however it ends, there is
nothing but what was there before.
-/

namespace MethodHistory

variable {ν : Type}

structure Run.IsTidy (others : List (SnapshotPath × Entry)) (run : Run ν) : Prop where
  entries_eq : run.directory.entries = others
  isNumbered : run.directory.IsNumbered
  previous_eq : run.slots.previous = none
  actual_eq : run.slots.actual = none

def Run.IsRotating (others : List (SnapshotPath × Entry)) (run : Run ν) : Prop :=
  ∃ contents, run.slots.HaveBeside others run.directory contents

namespace RunM

open Run

variable {miner : Miner ν} {others : List (SnapshotPath × Entry)} {α : Type} {act : RunM ν α}

theorem mirrors_isRotating (h : LeavesFiles act) : Mirrors (Same (IsRotating others)) act := by
  apply Keeps.mirrors
  intro run hrun
  rw [IsRotating, (h run).1, (h run).2]
  exact hrun

theorem mirrors_isTidy (h : LeavesFiles act) : Mirrors (Same (IsTidy others)) act := by
  apply Keeps.mirrors
  rintro run ⟨hentries, hnumbered, hprevious, hactual⟩
  obtain ⟨hslots, hdirectory⟩ := h run
  rw [← hslots] at hprevious hactual
  rw [← hdirectory] at hentries hnumbered
  exact ⟨hentries, hnumbered, hprevious, hactual⟩

theorem isWalkable_isRotating [Scale ν] : IsWalkable miner (Same (IsRotating others)) := by
  constructor
  . constructor
    . intro α act calmAct _
      exact mirrors_isRotating (leavesFiles_inSurvey act)
    . intro fraction
      exact mirrors_isRotating (leavesFiles_report fraction)
  . intro path
    exact mirrors_isRotating (leavesFiles_compare path)
  . intro content
    apply Keeps.mirrors
    rintro run ⟨contents, hrun⟩
    obtain ⟨written, hwrite, hlast⟩ := hrun.write_previous content
    rw [perform_write, hwrite]
    exact ⟨_, hlast⟩
  . intro content
    apply Keeps.mirrors
    rintro run ⟨contents, hrun⟩
    obtain ⟨written, hwrite, hlast⟩ := hrun.write_actual content
    rw [perform_write, hwrite]
    exact ⟨_, hlast⟩
  . apply Keeps.mirrors
    rintro run ⟨contents, hrun⟩
    obtain ⟨swapped, after, hswap, hlast, -⟩ := hrun.swap
    rw [perform_useSlots, hswap]
    exact ⟨_, hlast⟩

theorem keeps_withSlots (h : Keeps (IsRotating others) act) (limits : NameLimits)
    (suffix : String) : Keeps (IsTidy others) (withSlots limits suffix act) := by
  intro run hrun
  rw [withSlots, perform_bind, perform_useSlots]
  cases htrouble : SnapshotPath.trouble? limits suffix with
  | some trouble =>
    rw [Slots.enter_eq_error htrouble]
    exact hrun
  | none =>
    obtain ⟨slots, entered, henter, hhave⟩ := Slots.haveBeside_enter htrouble hrun.isNumbered
    rw [hrun.entries_eq] at hhave
    rw [henter]
    dsimp only
    rw [perform_outcome_bind]
    obtain ⟨contents, hlast⟩ := h { run with slots, directory := entered } ⟨_, hhave⟩
    exact ⟨hlast.entries_close, hlast.isNumbered_close, rfl, rfl⟩

theorem isRunnable_isTidy [Scale ν] : IsRunnable miner (Same (IsTidy others)) := by
  constructor
  . constructor
    . intro α act calmAct _
      exact mirrors_isTidy (leavesFiles_inSurvey act)
    . intro fraction
      exact mirrors_isTidy (leavesFiles_report fraction)
  . intro path
    exact mirrors_isTidy (leavesFiles_inSurvey _)
  . intro request mode
    exact mirrors_isTidy (leavesFiles_inSurvey _)
  . intro phase
    exact mirrors_isTidy fun run => ⟨rfl, rfl⟩
  . intro change _
    exact mirrors_isTidy fun run => ⟨rfl, rfl⟩
  . intro records
    apply Keeps.mirrors
    apply keeps_emit
    . intro run record hrun
      rw [Run.receive]
      dsimp only
      split
      . exact ⟨hrun.entries_eq, hrun.isNumbered, hrun.previous_eq, hrun.actual_eq⟩
      . exact hrun
    . intro run emitted hrun
      exact ⟨hrun.entries_eq, hrun.isNumbered, hrun.previous_eq, hrun.actual_eq⟩
  . intro range path suffix revisions
    apply Keeps.mirrors
    apply keeps_withSlots
    exact (mirrors_walk isWalkable_isRotating range path false revisions).keeps

end RunM

namespace Slots

structure InRotation (slots : Slots) (directory : Directory) (contents : Contents) : Prop where
  paths : ∃ previous actual, slots.previous = some previous ∧ slots.actual = some actual
    ∧ previous ≠ actual ∧ (∀ entry ∈ directory.entries, entry.1 = previous ∨ entry.1 = actual)
    ∧ directory.get? previous = contents.previous.map .file
    ∧ directory.get? actual = contents.actual.map .file
  swap : ∃ swapped after actual fresh, slots.swap directory = .ok (swapped, after)
    ∧ slots.actual = some actual ∧ swapped.previous = some actual ∧ swapped.actual = some fresh
    ∧ slots.previous ≠ some fresh ∧ slots.actual ≠ some fresh
    ∧ after.get? actual = directory.get? actual ∧ after.get? fresh = some (.file .empty)
    ∧ ∀ entry ∈ after.entries, entry.1 = actual ∨ entry.1 = fresh
  close : (slots.close directory).1.previous = none ∧ (slots.close directory).1.actual = none
    ∧ (slots.close directory).2.entries = []

variable {slots : Slots} {directory : Directory} {contents : Contents}

theorem HaveBeside.mem_paths (h : slots.HaveBeside [] directory contents)
    {previous actual : SnapshotPath} (hprevious : slots.previous = some previous)
    (hactual : slots.actual = some actual)
    : ∀ entry ∈ directory.entries, entry.1 = previous ∨ entry.1 = actual := by
  intro entry hentry
  have hmem := List.filter_eq_nil_iff.1 h.besides_eq entry hentry
  rw [hprevious, hactual] at hmem
  simp only [decide_eq_true_eq, not_not, List.mem_cons, List.not_mem_nil, or_false,
    Option.some.injEq] at hmem
  exact hmem.symm

theorem HaveBeside.inRotation (h : slots.HaveBeside [] directory contents)
    : slots.InRotation directory contents := by
  obtain ⟨-, previous, actual, hprevious, hactual, hne, hlp, hla, hold, hnew⟩ := h.toHave
  obtain ⟨swapped, after, hswap, hafter, holder, hfresh⟩ := h.swap
  rw [hactual] at holder
  obtain ⟨-, _, _, holder', hfresh', -, -, -, hkept, hempty⟩ := hafter.toHave
  cases holder.symm.trans holder'
  cases hfresh.symm.trans hfresh'
  have hneFresh {path : SnapshotPath} (hlt : path.number < directory.next)
      : some path ≠ some ⟨directory.next, slots.suffix⟩ := by
    intro heq
    rw [Option.some.inj heq] at hlt
    exact Nat.lt_irrefl _ hlt
  constructor
  . exact ⟨previous, actual, hprevious, hactual, hne, h.mem_paths hprevious hactual, hold, hnew⟩
  . refine ⟨swapped, after, actual, _, hswap, hactual, holder, hfresh, ?_, ?_, ?_, hempty, ?_⟩
    . rw [hprevious]
      exact hneFresh hlp
    . rw [hactual]
      exact hneFresh hla
    . rw [hkept, hnew]
    . exact hafter.mem_paths holder hfresh
  . exact ⟨rfl, rfl, h.entries_close⟩

end Slots

namespace Sample

def log : SnapshotPath × Entry :=
  (⟨0, ".log"⟩, .file .empty)

theorem isNumbered_log : (⟨[log], 1⟩ : Directory).IsNumbered := by
  intro entry hentry
  rw [List.mem_singleton] at hentry
  subst hentry
  exact Nat.zero_lt_one

end Sample

namespace Miner

variable [Scale ν]

/--
Slots rotate without loss in a directory of their own, whatever happens to them, and leave nothing
behind in it. Neither does a run, however it ends.
-/
theorem snapshots_rotate_and_vanish {limits : NameLimits} {suffix : String}
    (hsuffix : SnapshotPath.trouble? limits suffix = none) (steps : List Slots.Step)
    (miner : Miner ν) (request : Request) (sink : Sink) {directory : Directory}
    (hnumbered : directory.IsNumbered) (stopRequested : Bool)
    : let contents := steps.foldl Contents.after ⟨some .empty, some .empty⟩
      let run := (miner.run request (initial sink directory stopRequested)).run
      (∃ slots last, Slots.rotated limits suffix .empty steps = .ok (slots, last)
        ∧ slots.InRotation last contents)
      ∧ run.directory.entries = directory.entries
      ∧ run.slots.previous = none ∧ run.slots.actual = none := by
  intro contents run
  have hempty : Directory.empty.IsNumbered := by
    intro entry hentry
    contradiction
  constructor
  . obtain ⟨opened, entered, henter, hhave⟩ := Slots.haveBeside_enter hsuffix hempty
    obtain ⟨slots, last, htake, hlast⟩ := hhave.takeAll steps
    refine ⟨slots, last, ?_, hlast.inRotation⟩
    rw [Slots.rotated, henter]
    exact htake
  . have hlast : run.IsTidy directory.entries :=
      keeps_run RunM.isRunnable_isTidy request ⟨rfl, hnumbered, rfl, rfl⟩
    exact ⟨hlast.entries_eq, hlast.previous_eq, hlast.actual_eq⟩

theorem snapshots_rotate_and_vanish_with_loss
    : let steps : List Slots.Step :=
        [.writePrevious "old".toUTF8, .writeActual "new".toUTF8, .loseActual, .swap]
      (∃ slots last, Slots.rotated Sample.limits ".java" .empty steps = .ok (slots, last)
        ∧ slots.InRotation last ⟨none, some .empty⟩)
      ∧ ((Sample.miner (Sample.stoppingAt 13)).run Sample.request
          (initial (.buffer .empty) ⟨[Sample.log], 1⟩ false)).run.phase = .cancelled
      ∧ ((Sample.miner (Sample.stoppingAt 13)).run Sample.request
          (initial (.buffer .empty) ⟨[Sample.log], 1⟩ false)).run.directory.entries
        = [Sample.log] := by
  intro steps
  have hsuffix : SnapshotPath.trouble? Sample.limits ".java" = none := by
    decide +kernel
  obtain ⟨hslots, hentries, -⟩ := snapshots_rotate_and_vanish hsuffix steps
    (Sample.miner (Sample.stoppingAt 13)) Sample.request (.buffer .empty) Sample.isNumbered_log
    false
  refine ⟨hslots, ?_, hentries⟩
  decide +kernel

end Miner
end MethodHistory
