import MethodHistory.Local
import MethodHistory.Proofs.Firsts
import MethodHistory.Proofs.Run.Reference
import MethodHistory.Proofs.Survey.Endpoints

/-!
This module contains what the repositories on this machine are as sources. Their commits have ids of
their own and stand in the order of the log; their files are those of a tree that fit the package.
As long as an object store fails as it is known to, only single histories and contents are missed.
-/

namespace MethodHistory

inductive ObjectFault.IsDangling : ObjectFault → Prop where
  | value (reason : String) : IsDangling (.value reason)
  | object (reason : String) : IsDangling (.object reason)
  | name (reason : String) : IsDangling (.name reason)

inductive ObjectFault.IsRefusal : ObjectFault → Prop where
  | command (reason : String) : IsRefusal (.command reason)
  | value (reason : String) : IsRefusal (.value reason)

theorem filterM_ok {α ε : Type} (p : α → Bool) (xs : List α)
    : (xs.filterM fun x => (.ok (p x) : Except ε Bool)) = .ok (xs.filter p) := by
  have hrest (kept : List α) : (xs.filterAuxM (fun x => (.ok (p x) : Except ε Bool)) kept)
      = .ok ((xs.filter p).reverse ++ kept) := by
    induction xs generalizing kept with
    | nil => rfl
    | cons x xs ih =>
      change xs.filterAuxM _ (bif p x then x :: kept else kept) = _
      rw [ih, List.filter_cons]
      cases p x
      . rfl
      . simp
  rw [List.filterM, hrest, List.append_nil]
  exact congrArg Except.ok (List.reverse_reverse _)

theorem fittingPaths_value (package suffix : String) (paths : List String)
    : fittingPaths (.value package) (.value suffix) paths
        =
      .ok (paths.filter (fitsPackage package · suffix)) := by
  have hfits (path : String) : fittingPaths.fits (.value package) (.value suffix) path
      = .ok (fitsPackage package path suffix) := by
    have hdirectory : packageDirectory "" = "" := by
      decide +kernel
    have hempty : "".isEmpty = true := by
      decide
    have hboth : fitsPackage package path suffix
        = (fitsPackage "" path suffix && fitsPackage package path "") := by
      simp [fitsPackage, hdirectory, hempty]
    rw [hboth]
    change (if fitsPackage "" path suffix then Except.ok (fitsPackage package path "")
      else Except.ok false) = _
    cases fitsPackage "" path suffix with
    | false => rw [if_neg Bool.false_ne_true, Bool.false_and]
    | true => rw [if_pos rfl, Bool.true_and]
  rw [fittingPaths, funext hfits, filterM_ok]
  rfl

namespace Local

theorem map_id_commitsOf (entries : List LogEntry)
    : (commitsOf entries).map Commit.id = entries.map LogEntry.id := by
  conv_rhs => rw [← List.zipIdx_map_fst 0 entries]
  rw [commitsOf, List.map_map, List.map_map]
  rfl

theorem position_of_getElem? {entries : List LogEntry} {i : Nat} {commit : Commit}
    (h : (commitsOf entries)[i]? = some commit) : commit.position = i := by
  rw [commitsOf, List.getElem?_map, List.getElem?_zipIdx] at h
  obtain ⟨entry, hentry, rfl⟩ := Option.map_eq_some_iff.1 h
  obtain ⟨_, -, rfl⟩ := Option.map_eq_some_iff.1 hentry
  exact Nat.zero_add i

def readable (tags : List (String × Except ObjectFault String)) : List (String × String) :=
  tags.filterMap fun tag => tag.2.toOption.map (tag.1, ·)

def unreadable (tags : List (String × Except ObjectFault String)) : List String :=
  (tags.filter (!·.2.isOk)).map Prod.fst

theorem foldlM_takeTag {tags : List (String × Except ObjectFault String)}
    (h : ∀ name fault, (name, .error fault) ∈ tags → fault.IsDangling)
    (rows : List (String × String) × List String)
    : tags.foldlM takeTag rows = .ok (rows.1 ++ readable tags, rows.2 ++ unreadable tags) := by
  induction tags generalizing rows with
  | nil => simp [readable, unreadable, pure, Except.pure]
  | cons tag tags ih =>
    obtain ⟨name, id⟩ := tag
    have hrest := ih fun name fault hmem => h name fault (List.mem_cons_of_mem _ hmem)
    rw [List.foldlM_cons]
    cases id with
    | ok id =>
      change tags.foldlM takeTag (rows.1 ++ [(name, id)], rows.2) = _
      rw [hrest, List.append_assoc]
      rfl
    | error fault =>
      have hpassed : takeTag rows (name, .error fault) = .ok (rows.1, rows.2 ++ [name]) := by
        cases h name fault List.mem_cons_self <;> rfl
      rw [hpassed]
      change tags.foldlM takeTag (rows.1, rows.2 ++ [name]) = _
      rw [hrest, List.append_assoc]
      rfl

namespace Repository

variable {repository : Repository} {entries : List LogEntry} {package suffix : String}

structure HasLog (repository : Repository) (entries : List LogEntry) : Prop where
  hasHead : repository.hasHead
  log_eq : repository.log = .ok entries
  ne_nil : entries ≠ []
  nodup : (entries.map LogEntry.id).Nodup

structure FailsPlainly (repository : Repository) : Prop where
  tags : ∀ name fault, (name, .error fault) ∈ repository.tags → fault.IsDangling
  fileLog : ∀ path fault, repository.fileLog path = .error fault → fault.IsRefusal
  tree : ∀ commit fault, repository.tree commit = .error fault → fault.IsDangling
  content : ∀ commit entries, repository.tree commit = .ok entries → ∀ entry ∈ entries,
    ∀ fault, entry.content = .error fault →
      fault.IsRefusal ∨ fault = .noEntry ∨ ∃ reason, fault = .object reason

theorem tagRows_eq (h : repository.FailsPlainly)
    : repository.tagRows = .ok (readable repository.tags, unreadable repository.tags) :=
  foldlM_takeTag h.tags ([], [])

theorem allCommits_eq (h : repository.HasLog entries)
    : repository.allCommits = .ok (commitsOf entries) := by
  rw [allCommits, h.hasHead, h.log_eq]
  cases entries with
  | nil => exact absurd rfl h.ne_nil
  | cons entry entries => rfl

theorem holds_source (h : repository.HasLog entries) (hfaults : repository.FailsPlainly)
    (package : Given String)
    : (repository.source package).Holds (commitsOf entries)
        fun name => (readable repository.tags).reverse.lookup name where
  allCommits_eq := allCommits_eq h
  tagTarget_eq name := by
    change repository.tagTarget name = _
    rw [tagTarget, tagRows_eq hfaults]
    rfl
  ne_nil hnil := by
    have hids := map_id_commitsOf entries
    rw [hnil] at hids
    exact h.ne_nil (List.map_eq_nil_iff.1 hids.symm)
  nodup := by
    rw [map_id_commitsOf]
    exact h.nodup

theorem failsSoftly_source (h : repository.FailsPlainly) (package : Given String)
    : (repository.source package).FailsSoftly := by
  constructor
  . intro path failure hfailure
    change repository.revisionsOf path = _ at hfailure
    rw [revisionsOf] at hfailure
    cases hlog : repository.fileLog path with
    | ok revisions =>
      rw [hlog] at hfailure
      contradiction
    | error fault =>
      rw [hlog] at hfailure
      cases h.fileLog path fault hlog
      all_goals
        cases hfailure
        exact ⟨_, rfl⟩
  . intro path commit failure hfailure
    change repository.contentAt path commit = _ at hfailure
    rw [contentAt] at hfailure
    cases htree : repository.tree commit with
    | error fault =>
      rw [htree] at hfailure
      cases h.tree commit fault htree
      all_goals
        cases hfailure
        exact ⟨_, rfl⟩
    | ok entries =>
      rw [htree] at hfailure
      dsimp only at hfailure
      cases hfind : entries.find? (·.path = path) with
      | none =>
        rw [hfind] at hfailure
        contradiction
      | some entry =>
        rw [hfind] at hfailure
        dsimp only at hfailure
        cases hcontent : entry.content with
        | ok content =>
          rw [hcontent] at hfailure
          contradiction
        | error fault =>
          rw [hcontent] at hfailure
          rcases h.content commit entries htree entry (List.mem_of_find?_eq_some hfind) fault
            hcontent with hrefusal | rfl | ⟨reason, rfl⟩
          . cases hrefusal
            all_goals
              cases hfailure
              exact ⟨_, rfl⟩
          . contradiction
          . cases hfailure
            exact ⟨_, rfl⟩

theorem filesAt_source {commit : String} {tree : List TreeEntry}
    (h : repository.tree commit = .ok tree)
    : (repository.source (.value package)).filesAt commit (.value suffix)
        =
      .ok (((tree.filter (·.isFile)).map (·.path)).filter (fitsPackage package · suffix)) := by
  change repository.filesAt (.value package) commit (.value suffix) = _
  rw [filesAt, h]
  exact fittingPaths_value package suffix _

theorem contentAt_source {commit : String} {tree : List TreeEntry} {entry : TreeEntry}
    {content : ByteArray} (h : repository.tree commit = .ok tree)
    (hnodup : (tree.map (·.path)).Nodup) (hentry : entry ∈ tree)
    (hcontent : entry.content = .ok content) (package : Given String)
    : (repository.source package).contentAt entry.path commit = .ok (some content) := by
  have hfind : tree.find? (·.path = entry.path) = some entry :=
    (find?_key_eq_some_iff hnodup).2 ⟨hentry, rfl⟩
  change repository.contentAt entry.path commit = _
  rw [contentAt, h]
  dsimp only
  rw [hfind]
  dsimp only
  rw [hcontent]

end Repository
end Local
end MethodHistory
