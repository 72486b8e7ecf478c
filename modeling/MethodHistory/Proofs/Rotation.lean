import MethodHistory.Proofs.Snapshots

/-!
This module contains what a directory holds while two slots rotate in it: nothing but the files of
the slots and what was there before, whatever is written, rotated or lost.
-/

namespace MethodHistory

namespace Directory

def besides (directory : Directory) (paths : List (Option SnapshotPath))
    : List (SnapshotPath × Entry) :=
  directory.entries.filter fun entry => some entry.1 ∉ paths

def IsNumbered (directory : Directory) : Prop :=
  ∀ entry ∈ directory.entries, entry.1.number < directory.next

variable {directory changed : Directory} {path : SnapshotPath} {slot : Option SnapshotPath}
  {paths : List (Option SnapshotPath)}

theorem besides_congr {others : List (Option SnapshotPath)}
    (h : ∀ entry ∈ directory.entries, some entry.1 ∈ paths ↔ some entry.1 ∈ others)
    : directory.besides paths = directory.besides others := by
  apply List.filter_congr
  intro entry hentry
  exact decide_eq_decide.2 (not_congr (h entry hentry))

theorem besides_erase (h : some path ∈ paths)
    : (directory.erase path).besides paths = directory.besides paths := by
  rw [besides, besides, erase, List.filter_filter]
  apply List.filter_congr
  intro entry _
  by_cases hentry : entry.1 = path
  . subst hentry
    simp [h]
  . simp [hentry]

theorem besides_put {entry : Entry} (h : some path ∈ paths)
    : (directory.put path entry).besides paths = directory.besides paths := by
  calc
    (directory.put path entry).besides paths = (directory.erase path).besides paths := by
      rw [besides, put, List.filter_append, List.filter_cons_of_neg (by simpa using h),
        List.filter_nil, List.append_nil, besides]
    _ = directory.besides paths := besides_erase h

theorem besides_write {content : ByteArray} (h : slot ∈ paths)
    (hwrite : directory.write slot content = .ok changed)
    : changed.besides paths = directory.besides paths := by
  cases slot with
  | none => contradiction
  | some path =>
    rw [write] at hwrite
    split at hwrite
    . contradiction
    . cases hwrite
      exact besides_put h

theorem ne_of_get?_eq_none (h : directory.get? path = none)
    : ∀ entry ∈ directory.entries, entry.1 ≠ path := by
  intro entry hentry heq
  rw [get?, List.lookup_eq_none_iff] at h
  exact ne_of_beq_false (by simpa using h entry hentry) heq.symm

theorem entries_remove {content : Option ByteArray} (h : directory.get? path = content.map .file)
    : (directory.remove (some path)).entries = (directory.erase path).entries := by
  rw [remove, unlink, h]
  cases content with
  | none =>
    have herase : (directory.erase path).entries = directory.entries := by
      apply List.filter_eq_self.2
      intro entry hentry
      exact decide_eq_true (ne_of_get?_eq_none h entry hentry)
    exact herase.symm
  | some content => rfl

theorem besides_remove {content : Option ByteArray} (h : directory.get? path = content.map .file)
    : (directory.remove (some path)).besides paths = directory.besides (paths ++ [some path]) := by
  have hgone := ne_of_get?_eq_none (get?_remove_self h)
  calc
    (directory.remove (some path)).besides paths
        = (directory.remove (some path)).besides (paths ++ [some path]) := by
      apply besides_congr
      intro entry hentry
      simp [hgone entry hentry]
    _ = (directory.erase path).besides (paths ++ [some path]) := by
      rw [besides, entries_remove h, besides]
    _ = directory.besides (paths ++ [some path]) :=
      besides_erase (List.mem_append_right _ List.mem_cons_self)

theorem besides_remove_of_mem {content : Option ByteArray} (h : some path ∈ paths)
    (hget : directory.get? path = content.map .file)
    : (directory.remove (some path)).besides paths = directory.besides paths := by
  rw [besides_remove hget]
  apply besides_congr
  intro entry _
  rw [List.mem_append, List.mem_singleton, or_iff_left_iff_imp]
  intro hentry
  exact hentry ▸ h

theorem besides_nil : directory.besides [] = directory.entries := by
  rw [besides, List.filter_eq_self]
  intro entry _
  exact decide_eq_true List.not_mem_nil

theorem IsNumbered.erase (h : directory.IsNumbered) (path : SnapshotPath)
    : (directory.erase path).IsNumbered := by
  intro entry hentry
  exact h entry (List.mem_filter.1 hentry).1

theorem IsNumbered.put {entry : Entry} (h : directory.IsNumbered)
    (hpath : path.number < directory.next) : (directory.put path entry).IsNumbered := by
  intro other hother
  rw [Directory.put, List.mem_append, List.mem_singleton] at hother
  cases hother with
  | inl hother => exact h.erase path other hother
  | inr hother =>
    subst hother
    exact hpath

theorem IsNumbered.remove (h : directory.IsNumbered) (slot : Option SnapshotPath)
    : (directory.remove slot).IsNumbered := by
  cases slot with
  | none => exact h
  | some path =>
    rw [Directory.remove, unlink]
    cases directory.get? path with
    | none => exact h
    | some entry =>
      cases entry with
      | file content => exact h.erase path
      | directory => exact h

theorem IsNumbered.write {content : ByteArray} (h : directory.IsNumbered)
    (hpath : path.number < directory.next)
    (hwrite : directory.write (some path) content = .ok changed) : changed.IsNumbered := by
  rw [Directory.write] at hwrite
  split at hwrite
  . contradiction
  . cases hwrite
    exact h.put hpath

theorem create_eq_ok {limits : NameLimits} {suffix : String}
    (h : directory.create limits suffix = .ok (path, changed))
    : path = ⟨directory.next, suffix⟩
      ∧ changed = { directory.put path (.file .empty) with next := directory.next + 1 } := by
  rw [create] at h
  split at h
  . contradiction
  . cases h
    exact ⟨rfl, rfl⟩

theorem IsNumbered.create {limits : NameLimits} {suffix : String} (h : directory.IsNumbered)
    (hcreate : directory.create limits suffix = .ok (path, changed)) : changed.IsNumbered := by
  obtain ⟨rfl, rfl⟩ := create_eq_ok hcreate
  have hlater : IsNumbered { directory with next := directory.next + 1 } := by
    intro entry hentry
    exact Nat.lt_succ_of_lt (h entry hentry)
  exact hlater.put (Nat.lt_succ_self directory.next)

theorem IsNumbered.besides_create {limits : NameLimits} {suffix : String}
    (h : directory.IsNumbered) (hcreate : directory.create limits suffix = .ok (path, changed))
    : changed.besides (some path :: paths) = directory.besides paths := by
  obtain ⟨hpath, hchanged⟩ := create_eq_ok hcreate
  have hne : ∀ entry ∈ directory.entries, entry.1 ≠ path := by
    intro entry hentry heq
    have hlt := h entry hentry
    rw [heq, hpath] at hlt
    exact Nat.lt_irrefl _ hlt
  calc
    changed.besides (some path :: paths) = directory.besides (some path :: paths) := by
      rw [hchanged]
      exact besides_put List.mem_cons_self
    _ = directory.besides paths := by
      apply besides_congr
      intro entry hentry
      simp [hne entry hentry]

end Directory

/--
What can happen to slots from their opening to their closing. A file can be lost at any time.
-/
inductive Slots.Step where
  | writePrevious (content : ByteArray)
  | writeActual (content : ByteArray)
  | swap
  | losePrevious
  | loseActual

namespace Contents

def after (contents : Contents) : Slots.Step → Contents
  | .writePrevious content => { contents with previous := some content }
  | .writeActual content => { contents with actual := some content }
  | .swap => ⟨contents.actual, some .empty⟩
  | .losePrevious => { contents with previous := none }
  | .loseActual => { contents with actual := none }

end Contents

namespace Slots

def take (slots : Slots) (directory : Directory) : Step → Except SnapshotFault (Slots × Directory)
  | .writePrevious content => return (slots, ← directory.write slots.previous content)
  | .writeActual content => return (slots, ← directory.write slots.actual content)
  | .swap => slots.swap directory
  | .losePrevious => .ok (slots, directory.remove slots.previous)
  | .loseActual => .ok (slots, directory.remove slots.actual)

def rotated (limits : NameLimits) (suffix : String) (directory : Directory) (steps : List Step)
    : Except SnapshotFault (Slots × Directory) := do
  let opened ← (closed limits suffix).enter directory
  steps.foldlM (fun state step => state.1.take state.2 step) opened

/--
Slots with some contents in a directory that has nothing but their files besides some other entries.
-/
structure HaveBeside (others : List (SnapshotPath × Entry)) (slots : Slots) (directory : Directory)
    (contents : Contents) : Prop extends slots.Have directory contents where
  isNumbered : directory.IsNumbered
  besides_eq : directory.besides [slots.actual, slots.previous] = others

variable {others : List (SnapshotPath × Entry)} {slots : Slots} {directory : Directory}
  {contents : Contents}

theorem haveBeside_enter {limits : NameLimits} {suffix : String}
    (h : SnapshotPath.trouble? limits suffix = none) (hnumbered : directory.IsNumbered)
    : ∃ slots entered, (closed limits suffix).enter directory = .ok (slots, entered)
      ∧ slots.HaveBeside directory.entries entered ⟨some .empty, some .empty⟩ := by
  obtain ⟨slots, entered, henter, hhold⟩ := hold_enter h directory
  obtain ⟨previous, one, hone, -⟩ := Directory.exists_create directory h
  obtain ⟨actual, two, htwo, -⟩ := Directory.exists_create one h
  cases henter.symm.trans (enter_eq hone htwo)
  have hnumberedOne := hnumbered.create hone
  refine ⟨_, _, henter, hhold, hnumberedOne.create htwo, ?_⟩
  calc
    entered.besides [some actual, some previous] = one.besides [some previous] :=
      hnumberedOne.besides_create htwo
    _ = directory.besides [] := hnumbered.besides_create hone
    _ = directory.entries := Directory.besides_nil

theorem HaveBeside.write_previous (h : slots.HaveBeside others directory contents)
    (content : ByteArray)
    : ∃ written, directory.write slots.previous content = .ok written
      ∧ slots.HaveBeside others written { contents with previous := some content } := by
  obtain ⟨written, hwrite, hhave⟩ := h.toHave.write_previous content
  obtain ⟨-, previous, actual, hprevious, hactual, -, hlt, -⟩ := h.toHave
  refine ⟨written, hwrite, hhave, ?_, ?_⟩
  . rw [hprevious] at hwrite
    exact h.isNumbered.write hlt hwrite
  . rw [Directory.besides_write _ hwrite]
    . exact h.besides_eq
    . simp

theorem HaveBeside.write_actual (h : slots.HaveBeside others directory contents)
    (content : ByteArray)
    : ∃ written, directory.write slots.actual content = .ok written
      ∧ slots.HaveBeside others written { contents with actual := some content } := by
  obtain ⟨written, hwrite, hhave⟩ := h.toHave.write_actual content
  obtain ⟨-, previous, actual, hprevious, hactual, -, -, hlt, -⟩ := h.toHave
  refine ⟨written, hwrite, hhave, ?_, ?_⟩
  . rw [hactual] at hwrite
    exact h.isNumbered.write hlt hwrite
  . rw [Directory.besides_write _ hwrite]
    . exact h.besides_eq
    . simp

theorem HaveBeside.swap (h : slots.HaveBeside others directory contents)
    : ∃ swapped after, slots.swap directory = .ok (swapped, after)
      ∧ swapped.HaveBeside others after ⟨contents.actual, some .empty⟩
      ∧ swapped.previous = slots.actual ∧ swapped.actual = some ⟨directory.next, slots.suffix⟩ := by
  obtain ⟨swapped, after, hswap, hhave⟩ := h.toHave.swap
  obtain ⟨hsuffix, previous, actual, hprevious, hactual, -, hlt, -, hget, -⟩ := h.toHave
  obtain ⟨fresh, created, hcreate, -, -, -, hother⟩ := Directory.exists_create directory hsuffix
  cases hswap.symm.trans (swap_eq hcreate)
  rw [← (hother previous hlt).2] at hget
  refine ⟨_, _, hswap, ⟨hhave, (h.isNumbered.create hcreate).remove _, ?_⟩, rfl, ?_⟩
  . calc
      (created.remove slots.previous).besides [some fresh, slots.actual]
          = created.besides [some fresh, slots.actual, slots.previous] := by
        rw [hprevious]
        exact Directory.besides_remove hget
      _ = directory.besides [slots.actual, slots.previous] := h.isNumbered.besides_create hcreate
      _ = others := h.besides_eq
  . rw [(Directory.create_eq_ok hcreate).1]

theorem HaveBeside.besides_lose (h : slots.HaveBeside others directory contents)
    {slot : Option SnapshotPath} (hslot : slot ∈ [slots.actual, slots.previous])
    : (directory.remove slot).besides [slots.actual, slots.previous] = others := by
  obtain ⟨-, previous, actual, hprevious, hactual, -, -, -, hold, hnew⟩ := h.toHave
  have hbesides := h.besides_eq
  rw [hactual, hprevious] at hslot hbesides ⊢
  rw [List.mem_cons, List.mem_singleton] at hslot
  obtain rfl | rfl := hslot
  . rw [Directory.besides_remove_of_mem List.mem_cons_self hnew, hbesides]
  . rw [Directory.besides_remove_of_mem (List.mem_cons_of_mem _ List.mem_cons_self) hold, hbesides]

theorem HaveBeside.lose_previous (h : slots.HaveBeside others directory contents)
    : slots.HaveBeside others (directory.remove slots.previous)
        { contents with previous := none } :=
  ⟨h.toHave.lose_previous, h.isNumbered.remove _,
    h.besides_lose (List.mem_cons_of_mem _ List.mem_cons_self)⟩

theorem HaveBeside.lose_actual (h : slots.HaveBeside others directory contents)
    : slots.HaveBeside others (directory.remove slots.actual)
        { contents with actual := none } :=
  ⟨h.toHave.lose_actual, h.isNumbered.remove _, h.besides_lose List.mem_cons_self⟩

theorem HaveBeside.take (h : slots.HaveBeside others directory contents) (step : Step)
    : ∃ taken after, slots.take directory step = .ok (taken, after)
      ∧ taken.HaveBeside others after (contents.after step) := by
  cases step with
  | writePrevious content =>
    obtain ⟨written, hwrite, hhave⟩ := h.write_previous content
    rw [Slots.take, hwrite]
    exact ⟨slots, written, rfl, hhave⟩
  | writeActual content =>
    obtain ⟨written, hwrite, hhave⟩ := h.write_actual content
    rw [Slots.take, hwrite]
    exact ⟨slots, written, rfl, hhave⟩
  | swap =>
    obtain ⟨swapped, after, hswap, hhave, -⟩ := h.swap
    exact ⟨swapped, after, hswap, hhave⟩
  | losePrevious => exact ⟨slots, _, rfl, h.lose_previous⟩
  | loseActual => exact ⟨slots, _, rfl, h.lose_actual⟩

theorem HaveBeside.takeAll (h : slots.HaveBeside others directory contents) (steps : List Step)
    : ∃ taken after,
        steps.foldlM (fun state step => state.1.take state.2 step) (slots, directory)
          = .ok (taken, after)
      ∧ taken.HaveBeside others after (steps.foldl Contents.after contents) := by
  induction steps generalizing slots directory contents with
  | nil => exact ⟨slots, directory, rfl, h⟩
  | cons step steps ih =>
    obtain ⟨taken, after, htake, hhave⟩ := h.take step
    rw [List.foldlM_cons, htake]
    exact ih hhave

theorem HaveBeside.entries_close (h : slots.HaveBeside others directory contents)
    : (slots.close directory).2.entries = others := by
  obtain ⟨-, previous, actual, hprevious, hactual, hne, -, -, hold, hnew⟩ := h.toHave
  have hnew' : (directory.remove (some previous)).get? actual = contents.actual.map .file := by
    rw [Directory.get?_remove_of_ne hne.symm, hnew]
  have hbesides := h.besides_eq
  rw [hprevious, hactual] at hbesides
  calc
    (slots.close directory).2.entries
        = ((directory.remove (some previous)).remove (some actual)).besides [] := by
      rw [close, hprevious, hactual, Directory.besides_nil]
    _ = (directory.remove (some previous)).besides [some actual] := Directory.besides_remove hnew'
    _ = directory.besides [some actual, some previous] := Directory.besides_remove hold
    _ = others := hbesides

theorem HaveBeside.isNumbered_close (h : slots.HaveBeside others directory contents)
    : (slots.close directory).2.IsNumbered :=
  (h.isNumbered.remove _).remove _

end Slots
end MethodHistory
