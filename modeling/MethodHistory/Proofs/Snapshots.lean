import Mathlib.Data.List.TakeWhile
import MethodHistory.Slots

/-!
This module contains the laws of a directory of snapshots and of the two slots of a walk: what is
written to a slot is read from it, and a swap makes the newer version the older one.
-/

namespace MethodHistory

theorem SnapshotPath.trouble?_of_long {limits : NameLimits} {suffix : String}
    (hnull : '\x00' ∉ suffix.toList) (hslash : '/' ∉ suffix.toList)
    (hlong : limits.name < stemLength + suffix.utf8ByteSize)
    : trouble? limits suffix = some .nameTooLong := by
  have hfirst : suffix.toList.takeWhile (· ≠ '/') = suffix.toList := by
    rw [List.takeWhile_eq_self_iff]
    intro c hc
    rw [decide_eq_true_iff]
    intro heq
    exact hslash (heq ▸ hc)
  rw [trouble?, hfirst, List.drop_length, String.ofList_toList]
  simp [hnull, hlong]

namespace Directory

variable {directory : Directory} {path other : SnapshotPath} {entry : Entry}

theorem get?_erase_of_ne (h : other ≠ path)
    : (directory.erase path).get? other = directory.get? other := by
  rw [erase, get?, get?]
  dsimp only
  induction directory.entries with
  | nil => rfl
  | cons pair pairs ih =>
    obtain ⟨place, content⟩ := pair
    by_cases hplace : place = path
    . subst hplace
      rw [List.filter_cons_of_neg (by simp), List.lookup_cons, beq_false_of_ne h, ih]
    . rw [List.filter_cons_of_pos (by simpa using hplace), List.lookup_cons, List.lookup_cons, ih]

theorem get?_erase_self : (directory.erase path).get? path = none := by
  rw [erase, get?]
  dsimp only
  induction directory.entries with
  | nil => rfl
  | cons pair pairs ih =>
    obtain ⟨place, content⟩ := pair
    by_cases hplace : place = path
    . rw [List.filter_cons_of_neg (by simpa using hplace), ih]
    . rw [List.filter_cons_of_pos (by simpa using hplace), List.lookup_cons,
        beq_false_of_ne (Ne.symm hplace), ih]

theorem get?_put_self : (directory.put path entry).get? path = some entry := by
  have herase : (directory.erase path).entries.lookup path = none := get?_erase_self
  rw [put, get?]
  dsimp only
  rw [List.lookup_append, herase, List.lookup_cons_self]
  rfl

theorem get?_put_of_ne (h : other ≠ path)
    : (directory.put path entry).get? other = directory.get? other := by
  have herase : (directory.erase path).entries.lookup other = directory.entries.lookup other :=
    get?_erase_of_ne h
  rw [put, get?, get?]
  dsimp only
  rw [List.lookup_append, herase, List.lookup_cons, beq_false_of_ne h]
  simp

theorem get?_remove_of_ne {path : SnapshotPath} (h : other ≠ path)
    : (directory.remove (some path)).get? other = directory.get? other := by
  rw [remove, unlink]
  cases directory.get? path with
  | none => rfl
  | some entry =>
    cases entry with
    | file content => exact get?_erase_of_ne h
    | directory => rfl

@[simp]
theorem next_remove (path : Option SnapshotPath)
    : (directory.remove path).next = directory.next := by
  rw [remove]
  cases hunlink : directory.unlink path with
  | error fault => rfl
  | ok erased =>
    cases path with
    | none => simp [unlink] at hunlink
    | some path =>
      rw [unlink] at hunlink
      split at hunlink
      . cases hunlink
        rfl
      . contradiction
      . contradiction

theorem create_eq (directory : Directory) {limits : NameLimits} {suffix : String}
    (h : SnapshotPath.trouble? limits suffix = none)
    : directory.create limits suffix = .ok (⟨directory.next, suffix⟩,
      { directory.put ⟨directory.next, suffix⟩ (.file .empty) with
        next := directory.next + 1 }) := by
  rw [create, h]

theorem exists_create (directory : Directory) {limits : NameLimits} {suffix : String}
    (h : SnapshotPath.trouble? limits suffix = none)
    : ∃ path created, directory.create limits suffix = .ok (path, created)
      ∧ path.number = directory.next ∧ created.next = directory.next + 1
      ∧ created.get? path = some (.file .empty)
      ∧ ∀ other : SnapshotPath, other.number < directory.next →
        other ≠ path ∧ created.get? other = directory.get? other := by
  refine ⟨_, _, create_eq directory h, rfl, rfl, ?_, ?_⟩
  . exact @get?_put_self directory ⟨directory.next, suffix⟩ (.file .empty)
  . intro other hlt
    have hne : other ≠ ⟨directory.next, suffix⟩ := by
      intro heq
      rw [heq] at hlt
      exact Nat.lt_irrefl _ hlt
    exact ⟨hne, @get?_put_of_ne directory ⟨directory.next, suffix⟩ other (.file .empty) hne⟩

theorem create_eq_error {limits : NameLimits} {suffix : String} {trouble : FileTrouble}
    (h : SnapshotPath.trouble? limits suffix = some trouble)
    : directory.create limits suffix = .error (.path trouble) := by
  rw [create, h]

theorem write_eq {content : ByteArray} {old : Option ByteArray}
    (h : directory.get? path = old.map .file)
    : directory.write (some path) content = .ok (directory.put path (.file content)) := by
  rw [write, h]
  cases old <;> rfl

theorem read?_eq {content : Option ByteArray} (h : directory.get? path = content.map .file)
    : directory.read? path = content := by
  rw [read?, h]
  cases content <;> rfl

theorem get?_remove_self {content : Option ByteArray}
    (h : directory.get? path = content.map .file)
    : (directory.remove (some path)).get? path = none := by
  rw [remove, unlink, h]
  cases content with
  | none => exact h
  | some content => exact get?_erase_self

end Directory

structure Contents where
  previous : Option ByteArray
  actual : Option ByteArray

namespace Slots

structure Have (slots : Slots) (directory : Directory) (contents : Contents) : Prop where
  suffix_eq : SnapshotPath.trouble? slots.limits slots.suffix = none
  paths : ∃ previous actual, slots.previous = some previous ∧ slots.actual = some actual
    ∧ previous ≠ actual ∧ previous.number < directory.next ∧ actual.number < directory.next
    ∧ directory.get? previous = contents.previous.map .file
    ∧ directory.get? actual = contents.actual.map .file

abbrev Hold (slots : Slots) (directory : Directory) (older newer : ByteArray) : Prop :=
  slots.Have directory ⟨some older, some newer⟩

section

variable {limits : NameLimits} {suffix : String} {slots : Slots} {directory one two : Directory}
  {previous actual : SnapshotPath}

theorem enter_eq (hone : directory.create limits suffix = .ok (previous, one))
    (htwo : one.create limits suffix = .ok (actual, two))
    : (closed limits suffix).enter directory = .ok (⟨limits, suffix, previous, actual⟩, two) := by
  rw [enter, closed]
  dsimp only
  rw [hone]
  change Except.bind (one.create limits suffix) _ = _
  rw [htwo]
  rfl

theorem enter_eq_error {trouble : FileTrouble}
    (h : SnapshotPath.trouble? limits suffix = some trouble) (directory : Directory)
    : (closed limits suffix).enter directory = .error (.path trouble) := by
  rw [enter, closed, Directory.create_eq_error h]
  rfl

theorem swap_eq (h : directory.create slots.limits slots.suffix = .ok (actual, one))
    : slots.swap directory =
      .ok (⟨slots.limits, slots.suffix, slots.actual, actual⟩, one.remove slots.previous) := by
  rw [swap, h]
  rfl

end

theorem hold_enter {limits : NameLimits} {suffix : String}
    (h : SnapshotPath.trouble? limits suffix = none) (directory : Directory)
    : ∃ slots entered, (closed limits suffix).enter directory = .ok (slots, entered)
      ∧ slots.Hold entered .empty .empty := by
  obtain ⟨previous, one, hone, hpn, hnext, hp, -⟩ := Directory.exists_create directory h
  obtain ⟨actual, two, htwo, han, hnext', ha, hother⟩ := Directory.exists_create one h
  have hlt : previous.number < one.next := by omega
  refine ⟨⟨limits, suffix, previous, actual⟩, two, enter_eq hone htwo, h, previous, actual, rfl,
    rfl, ?_, ?_, ?_, ?_, ha⟩
  . exact (hother previous hlt).1
  . omega
  . omega
  . rw [(hother previous hlt).2, hp]
    rfl

variable {slots : Slots} {directory : Directory} {contents : Contents}

theorem Have.write_previous (h : slots.Have directory contents) (content : ByteArray)
    : ∃ written, directory.write slots.previous content = .ok written
      ∧ slots.Have written { contents with previous := some content } := by
  obtain ⟨hsuffix, previous, actual, hprevious, hactual, hne, hlp, hla, holder, hnewer⟩ := h
  refine ⟨directory.put previous (.file content), ?_, hsuffix, previous, actual, hprevious, hactual,
    hne, hlp, hla, Directory.get?_put_self, ?_⟩
  . rw [hprevious, Directory.write_eq holder]
  . rw [Directory.get?_put_of_ne hne.symm, hnewer]

theorem Have.write_actual (h : slots.Have directory contents) (content : ByteArray)
    : ∃ written, directory.write slots.actual content = .ok written
      ∧ slots.Have written { contents with actual := some content } := by
  obtain ⟨hsuffix, previous, actual, hprevious, hactual, hne, hlp, hla, holder, hnewer⟩ := h
  refine ⟨directory.put actual (.file content), ?_, hsuffix, previous, actual, hprevious, hactual,
    hne, hlp, hla, ?_, Directory.get?_put_self⟩
  . rw [hactual, Directory.write_eq hnewer]
  . rw [Directory.get?_put_of_ne hne, holder]

theorem Have.swap (h : slots.Have directory contents)
    : ∃ swapped after, slots.swap directory = .ok (swapped, after)
      ∧ swapped.Have after ⟨contents.actual, some .empty⟩ := by
  obtain ⟨hsuffix, previous, actual, hprevious, hactual, hne, hlp, hla, holder, hnewer⟩ := h
  obtain ⟨fresh, created, hcreate, hfn, hnext, hf, hother⟩ :=
    Directory.exists_create directory hsuffix
  obtain ⟨hpf, -⟩ := hother previous hlp
  obtain ⟨haf, hactualFile⟩ := hother actual hla
  refine ⟨⟨slots.limits, slots.suffix, actual, fresh⟩, created.remove previous, ?_, hsuffix, actual,
    fresh, rfl, rfl, haf, ?_, ?_, ?_, ?_⟩
  . rw [swap_eq hcreate, hprevious, hactual]
  . rw [Directory.next_remove]
    omega
  . rw [Directory.next_remove]
    omega
  . rw [Directory.get?_remove_of_ne hne.symm, hactualFile, hnewer]
  . rw [Directory.get?_remove_of_ne hpf.symm, hf]
    rfl

theorem Have.lose_previous (h : slots.Have directory contents)
    : slots.Have (directory.remove slots.previous) { contents with previous := none } := by
  obtain ⟨hsuffix, previous, actual, hprevious, hactual, hne, hlp, hla, holder, hnewer⟩ := h
  refine ⟨hsuffix, previous, actual, hprevious, hactual, hne, ?_, ?_, ?_, ?_⟩
  . rwa [Directory.next_remove]
  . rwa [Directory.next_remove]
  . rw [hprevious]
    exact Directory.get?_remove_self holder
  . rw [hprevious, Directory.get?_remove_of_ne hne.symm, hnewer]

theorem Have.lose_actual (h : slots.Have directory contents)
    : slots.Have (directory.remove slots.actual) { contents with actual := none } := by
  obtain ⟨hsuffix, previous, actual, hprevious, hactual, hne, hlp, hla, holder, hnewer⟩ := h
  refine ⟨hsuffix, previous, actual, hprevious, hactual, hne, ?_, ?_, ?_, ?_⟩
  . rwa [Directory.next_remove]
  . rwa [Directory.next_remove]
  . rw [hactual, Directory.get?_remove_of_ne hne, holder]
  . rw [hactual]
    exact Directory.get?_remove_self hnewer

theorem Have.read_previous (h : slots.Have directory contents)
    : slots.previous.bind directory.read? = contents.previous := by
  obtain ⟨_, previous, actual, hprevious, _, _, _, _, holder, _⟩ := h
  rw [hprevious]
  exact Directory.read?_eq holder

theorem Have.read_actual (h : slots.Have directory contents)
    : slots.actual.bind directory.read? = contents.actual := by
  obtain ⟨_, previous, actual, _, hactual, _, _, _, _, hnewer⟩ := h
  rw [hactual]
  exact Directory.read?_eq hnewer

end Slots
end MethodHistory
