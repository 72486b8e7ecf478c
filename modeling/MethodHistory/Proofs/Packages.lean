import MethodHistory.Source
import Mathlib.Data.List.Infix
import Mathlib.Data.List.Basic

/-!
This module contains the paths that fit a package. The directory of a package is looked for as a
text, wherever it starts and ends in a path. So a path fits if the names of the package are
components of it that follow one another, but also if the first component only ends with its name,
or the last one only starts with its name.
-/

namespace MethodHistory

theorem occursIn_iff {part whole : List Char} : occursIn part whole ↔ part <:+: whole := by
  induction whole with
  | nil => rw [occursIn, List.isEmpty_iff, List.infix_nil]
  | cons c cs ih =>
    rw [occursIn, Bool.or_eq_true, List.isPrefixOf_iff_prefix, ih, List.infix_cons_iff]

/-! Parts between separators -/

section

variable {α : Type} {part : List α} {parts rest : List (List α)}

def seamed : List (List α) → List (List α) → List (List α)
  | [], rest => rest
  | [part], rest => rest.modifyHead (part ++ ·)
  | part :: next :: parts, rest => part :: seamed (next :: parts) rest

theorem seamed_cons (h : parts ≠ []) (part : List α) (rest : List (List α))
    : seamed (part :: parts) rest = part :: seamed parts rest := by
  cases parts with
  | nil => contradiction
  | cons next parts => rfl

theorem seamed_ne_nil (parts : List (List α)) (h : rest ≠ []) : seamed parts rest ≠ [] := by
  fun_induction seamed parts rest with
  | case1 => exact h
  | case2 part rest => exact mt List.modifyHead_eq_nil_iff.1 h
  | case3 => exact List.cons_ne_nil _ _

theorem seamed_nil_left (rest : List (List α)) : seamed [[]] rest = rest := by
  cases rest <;> rfl

theorem seamed_nil_right (h : parts ≠ []) : seamed parts [[]] = parts := by
  induction parts with
  | nil => contradiction
  | cons part parts ih =>
    by_cases hparts : parts = []
    . rw [hparts, seamed, List.modifyHead_cons, List.append_nil]
    . rw [seamed_cons hparts, ih hparts]

theorem seamed_cons_right (h : parts ≠ []) (part : List α) (rest : List (List α))
    : seamed parts (part :: rest) = seamed parts [part] ++ rest := by
  induction parts with
  | nil => contradiction
  | cons first parts ih =>
    by_cases hparts : parts = []
    . rw [hparts]
      rfl
    . rw [seamed_cons hparts, seamed_cons hparts, ih hparts, List.cons_append]

theorem exists_seamed_suffix (h : parts ≠ []) (rest : List (List α))
    : ∃ last, seamed [last] rest <:+ seamed parts rest := by
  induction parts with
  | nil => contradiction
  | cons part parts ih =>
    by_cases hparts : parts = []
    . rw [hparts]
      exact ⟨part, List.suffix_refl _⟩
    . obtain ⟨last, hlast⟩ := ih hparts
      rw [seamed_cons hparts]
      exact ⟨last, hlast.trans (List.suffix_cons _ _)⟩

theorem intercalate_append (sep : List α) (hone : parts ≠ []) (hother : rest ≠ [])
    : sep.intercalate (parts ++ rest) = sep.intercalate parts ++ sep ++ sep.intercalate rest := by
  induction parts with
  | nil => contradiction
  | cons part parts ih =>
    cases parts with
    | nil =>
      cases rest with
      | nil => contradiction
      | cons next rest =>
        rw [List.singleton_append, List.intercalate_cons_cons, List.intercalate_singleton]
    | cons next parts =>
      rw [List.cons_append, List.cons_append, List.intercalate_cons_cons, ← List.cons_append,
        ih (List.cons_ne_nil _ _), List.intercalate_cons_cons]
      simp only [List.append_assoc]

theorem intercalate_infix (sep : List α) (h : parts <:+: rest)
    : sep.intercalate parts <:+: sep.intercalate rest := by
  obtain ⟨before, behind, rfl⟩ := h
  by_cases hparts : parts = []
  . rw [hparts]
    exact List.nil_infix
  have hfront : sep.intercalate parts <:+: sep.intercalate (before ++ parts) := by
    by_cases hbefore : before = []
    . rw [hbefore, List.nil_append]
    . rw [intercalate_append sep hbefore hparts]
      exact (List.suffix_append _ _).isInfix
  by_cases hbehind : behind = []
  . rw [hbehind, List.append_nil]
    exact hfront
  . rw [intercalate_append sep (List.append_ne_nil_of_right_ne_nil _ hparts) hbehind,
      List.append_assoc]
    exact hfront.trans (List.prefix_append _ _).isInfix

theorem intercalate_seamed (sep : List α) (hparts : parts ≠ []) (hrest : rest ≠ [])
    : sep.intercalate (seamed parts rest) = sep.intercalate parts ++ sep.intercalate rest := by
  induction parts with
  | nil => contradiction
  | cons part parts ih =>
    by_cases h : parts = []
    . rw [h]
      cases rest with
      | nil => contradiction
      | cons next rest =>
        cases rest with
        | nil => simp [seamed]
        | cons other rest => simp [seamed, List.intercalate_cons_cons]
    . have hsingle : [part] ≠ [] := List.cons_ne_nil _ _
      rw [seamed_cons h, ← List.singleton_append,
        intercalate_append sep hsingle (seamed_ne_nil parts hrest), ih h,
        ← List.singleton_append (l := parts), intercalate_append sep hsingle h]
      simp only [List.append_assoc]

variable [DecidableEq α] {a : α}

theorem splitOn_append (one other : List α)
    : (one ++ other).splitOn a = seamed (one.splitOn a) (other.splitOn a) := by
  induction one with
  | nil => rw [List.nil_append, List.splitOn_nil, seamed_nil_left]
  | cons c one ih =>
    have hparts : one.splitOn a ≠ [] := List.splitOn_ne_nil a one
    rw [List.cons_append, List.splitOn_cons_eq_if_modifyHead, ih,
      List.splitOn_cons_eq_if_modifyHead]
    split
    next => rw [seamed_cons hparts]
    next =>
      cases h : one.splitOn a with
      | nil => contradiction
      | cons part parts =>
        cases parts with
        | nil => cases other.splitOn a <;> rfl
        | cons next parts => rfl

theorem not_mem_of_mem_splitOn {part whole : List α} (h : part ∈ whole.splitOn a) : a ∉ part := by
  induction whole generalizing part with
  | nil =>
    rw [List.splitOn_nil, List.mem_singleton] at h
    rw [h]
    exact List.not_mem_nil
  | cons c whole ih =>
    rw [List.splitOn_cons_eq_if_modifyHead] at h
    split at h
    next =>
      rcases List.mem_cons.1 h with rfl | h
      . exact List.not_mem_nil
      . exact ih h
    next hc =>
      obtain ⟨first, parts, hparts⟩ := List.exists_cons_of_ne_nil (List.splitOn_ne_nil a whole)
      rw [hparts] at h ih
      rcases List.mem_cons.1 h with rfl | h
      . rw [List.mem_cons, not_or]
        exact ⟨fun heq => hc (beq_iff_eq.2 heq.symm), ih List.mem_cons_self⟩
      . exact ih (List.mem_cons_of_mem _ h)

theorem infix_iff_splitOn_infix {part whole : List α}
    : part <:+: whole
        ↔
      ∃ x y, seamed [x] (seamed (part.splitOn a) [y]) <:+: whole.splitOn a := by
  have hpart : part.splitOn a ≠ [] := List.splitOn_ne_nil a part
  constructor
  . rintro ⟨before, behind, rfl⟩
    obtain ⟨x, hx⟩ := exists_seamed_suffix (List.splitOn_ne_nil a before)
      (seamed (part.splitOn a) (behind.splitOn a))
    obtain ⟨y, rest, hbehind⟩ := List.exists_cons_of_ne_nil (List.splitOn_ne_nil a behind)
    rw [List.append_assoc, splitOn_append, splitOn_append]
    refine ⟨x, y, List.IsInfix.trans ?_ hx.isInfix⟩
    rw [hbehind, seamed_cons_right hpart y rest]
    obtain ⟨first, parts, hfirst⟩ :=
      List.exists_cons_of_ne_nil (seamed_ne_nil (part.splitOn a) (List.cons_ne_nil y []))
    rw [hfirst]
    exact (List.prefix_append _ _).isInfix
  . rintro ⟨x, y, hinfix⟩
    have hseam := seamed_ne_nil (part.splitOn a) (List.cons_ne_nil y [])
    have hjoined := intercalate_infix [a] hinfix
    rw [List.intercalate_splitOn, intercalate_seamed [a] (List.cons_ne_nil x []) hseam,
      intercalate_seamed [a] hpart (List.cons_ne_nil y []), List.intercalate_splitOn] at hjoined
    have hmiddle : part <:+: [a].intercalate [x] ++ (part ++ [a].intercalate [y]) :=
      (List.prefix_append _ _).isInfix.trans (List.suffix_append _ _).isInfix
    exact hmiddle.trans hjoined

end

/-! Packages and the paths in them -/

def packageName (package : String) : List Char :=
  Text.trim (· = '.') (Text.trim Text.isBlank package.toList)

def packageNames (package : String) : List (List Char) :=
  (packageName package).splitOn '.'

def components (path : String) : List (List Char) :=
  path.toList.splitOn '/'

def IsInPackage (package path : String) : Prop :=
  packageName package = [] ∨ packageNames package <:+: (components path).dropLast

/--
Whether the path of a package is in a path, from anywhere in a component to anywhere in a component.
-/
def LooksInPackage (package path : String) : Prop :=
  ∃ x y, seamed [x] (seamed (components (packageDirectory package)) [y]) <:+: components path

def EndsAs (suffix path : String) : Prop :=
  suffix = "" ∨ suffix = "*" ∨ suffix.toList <:+ path.toList

instance (package path : String) : Decidable (IsInPackage package path) :=
  inferInstanceAs (Decidable (_ ∨ _))

instance (suffix path : String) : Decidable (EndsAs suffix path) :=
  inferInstanceAs (Decidable (_ ∨ _ ∨ _))

theorem packageDirectory_eq (package : String)
    : packageDirectory package
        =
      .ofList ((packageName package).map fun c => if c = '.' then '/' else c) := by
  simp only [packageDirectory, packageName, decide_eq_true_eq]

theorem endsWith_iff {path suffix : String}
    : path.endsWith suffix ↔ suffix.toList <:+ path.toList := by
  rw [← String.endsWith_toSlice, String.Slice.endsWith_string_iff, String.copy_toSlice]

theorem splitOn_map_slash {cs : List Char} (h : ∀ name ∈ cs.splitOn '.', '/' ∉ name)
    : (cs.map fun c => if c = '.' then '/' else c).splitOn '/' = cs.splitOn '.' := by
  induction cs with
  | nil => rfl
  | cons c cs ih =>
    rw [List.splitOn_cons_eq_if_modifyHead] at h
    rw [List.map_cons, List.splitOn_cons_eq_if_modifyHead, List.splitOn_cons_eq_if_modifyHead]
    by_cases hc : c = '.'
    . rw [if_pos (beq_iff_eq.2 hc)] at h
      rw [if_pos hc, if_pos (by rfl), if_pos (beq_iff_eq.2 hc)]
      rw [ih fun name hname => h name (List.mem_cons_of_mem _ hname)]
    . rw [if_neg (mt beq_iff_eq.1 hc)] at h
      obtain ⟨name, names, hnames⟩ := List.exists_cons_of_ne_nil (List.splitOn_ne_nil '.' cs)
      rw [hnames, List.modifyHead_cons, List.forall_mem_cons, List.mem_cons, not_or] at h
      have hslash : ¬(c == '/') = true := fun heq => h.1.1 (beq_iff_eq.1 heq).symm
      have hrest := ih (by rw [hnames, List.forall_mem_cons]; exact ⟨h.1.2, h.2⟩)
      rw [if_neg hc, if_neg hslash, if_neg (mt beq_iff_eq.1 hc), hrest]

theorem looksInPackage_of_isInPackage {package path : String} (h : IsInPackage package path)
    : LooksInPackage package path := by
  rw [LooksInPackage, components, packageDirectory_eq, String.toList_ofList]
  rcases h with hempty | hnames
  . rw [hempty, List.map_nil, List.splitOn_nil]
    obtain ⟨name, names, hpath⟩ := List.exists_cons_of_ne_nil (List.splitOn_ne_nil '/' path.toList)
    rw [components, hpath]
    refine ⟨name, [], ?_⟩
    rw [seamed_nil_left, seamed, List.modifyHead_cons, List.append_nil]
    exact (List.prefix_append [name] names).isInfix
  . have hcomponents := hnames.trans (List.dropLast_prefix _).isInfix
    rw [splitOn_map_slash fun name hname => not_mem_of_mem_splitOn (hcomponents.subset hname)]
    refine ⟨[], [], ?_⟩
    rw [seamed_nil_left, seamed_nil_right (List.splitOn_ne_nil _ _)]
    exact hcomponents

theorem fitsPackage_iff_infix {package path suffix : String}
    : fitsPackage package path suffix
        ↔
      EndsAs suffix path ∧ (packageDirectory package).toList <:+: path.toList := by
  have hempty : (packageDirectory package).isEmpty
      → (packageDirectory package).toList <:+: path.toList := by
    intro h
    rw [String.isEmpty_iff.1 h]
    exact List.nil_infix
  simp only [fitsPackage, EndsAs, Bool.and_eq_true, Bool.or_eq_true, decide_eq_true_eq,
    String.isEmpty_iff, endsWith_iff, occursIn_iff, or_assoc]
  rw [or_iff_right_of_imp fun h => hempty (String.isEmpty_iff.2 h)]

/--
A path fits a package if and only if it ends as it has to and is in the package, or only looks as if
it were, because longer names of directories or files have the path of the package in them.
-/
theorem fitsPackage_iff (package path suffix : String)
    : fitsPackage package path suffix
        ↔
      EndsAs suffix path ∧ (IsInPackage package path ∨ LooksInPackage package path) := by
  have hlooks : LooksInPackage package path
      ↔ (packageDirectory package).toList <:+: path.toList := infix_iff_splitOn_infix.symm
  rw [or_iff_right_of_imp looksInPackage_of_isInPackage, hlooks, fitsPackage_iff_infix]

theorem not_all_fitting_paths_in_package
    : ¬∀ package path suffix,
        fitsPackage package path suffix ↔ EndsAs suffix path ∧ IsInPackage package path := by
  intro h
  have hfits : fitsPackage "demo" "src/demography/A.java" ".java" :=
    fitsPackage_iff_infix.2 (by decide)
  exact absurd ((h _ _ _).1 hfits).2 (by decide)

end MethodHistory
