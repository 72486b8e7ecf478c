import MethodHistory.Text.Words
import Mathlib.Data.List.TakeWhile
import Mathlib.Data.List.Basic

/-!
This module contains the words of texts in different layouts: normal forms are equal if and only if
the words are, and texts without blanks at the seam can be joined word by word.
-/

namespace MethodHistory
namespace Text

def IsWord (word : List Char) : Prop :=
  word ≠ [] ∧ ∀ c ∈ word, isBlank c = false

theorem words_close_of_ne_nil {word : List Char} (h : word ≠ []) (rest : List (List Char))
    : words.close word rest = word.reverse :: rest := by
  rw [words.close, if_neg (mt List.isEmpty_iff.1 h)]

theorem words_go_cons_of_isBlank {c : Char} (h : isBlank c) (word cs : List Char)
    : words.go word (c :: cs) = words.close word (words cs) := by
  rw [words.go, if_pos h, words]

theorem words_go_cons_of_not_isBlank {c : Char} (h : isBlank c = false) (word cs : List Char)
    : words.go word (c :: cs) = words.go (c :: word) cs := by
  rw [words.go, if_neg (Bool.eq_false_iff.1 h)]

theorem words_go_eq_close (word cs : List Char)
    : words.go word cs
        =
      words.close ((cs.takeWhile (!isBlank ·)).reverse ++ word)
        (words (cs.dropWhile (!isBlank ·))) := by
  induction cs generalizing word with
  | nil => rfl
  | cons c cs ih =>
    cases h : isBlank c with
    | true =>
      rw [words_go_cons_of_isBlank h, List.takeWhile_cons_of_neg (by simp [h]),
        List.dropWhile_cons_of_neg (by simp [h]), words.eq_def (c :: cs),
        words_go_cons_of_isBlank h]
      rfl
    | false =>
      rw [words_go_cons_of_not_isBlank h, ih, List.takeWhile_cons_of_pos (by simp [h]),
        List.dropWhile_cons_of_pos (by simp [h]), List.reverse_cons, List.append_assoc]
      rfl

theorem isWord_of_mem_words_close {word w : List Char} {rest : List (List Char)}
    (hword : ∀ c ∈ word, isBlank c = false) (hrest : ∀ w ∈ rest, IsWord w)
    (hw : w ∈ words.close word rest) : IsWord w := by
  by_cases hnil : word = []
  . rw [hnil] at hw
    exact hrest w hw
  . rw [words_close_of_ne_nil hnil] at hw
    rcases List.mem_cons.1 hw with rfl | hw
    . refine ⟨mt List.reverse_eq_nil_iff.1 hnil, ?_⟩
      intro c hc
      exact hword c (List.mem_reverse.1 hc)
    . exact hrest w hw

theorem isWord_of_mem_words_go {word cs w : List Char} (hword : ∀ c ∈ word, isBlank c = false)
    (hw : w ∈ words.go word cs) : IsWord w := by
  induction cs generalizing word w with
  | nil => exact isWord_of_mem_words_close hword (by simp) hw
  | cons c cs ih =>
    cases h : isBlank c with
    | true =>
      rw [words_go_cons_of_isBlank h] at hw
      exact isWord_of_mem_words_close hword (fun w hw => ih (by simp) hw) hw
    | false =>
      rw [words_go_cons_of_not_isBlank h] at hw
      exact ih (List.forall_mem_cons.2 ⟨h, hword⟩) hw

theorem words_of_isWord {word : List Char} (h : IsWord word) : words word = [word] := by
  have hall : ∀ c ∈ word, !isBlank c := by
    intro c hc
    rw [h.2 c hc]
    rfl
  rw [words, words_go_eq_close, List.takeWhile_eq_self_iff.2 hall,
    List.dropWhile_eq_nil_iff.2 hall, List.append_nil,
    words_close_of_ne_nil (mt List.reverse_eq_nil_iff.1 h.1), List.reverse_reverse]
  rfl

theorem words_close_append (word : List Char) (rest more : List (List Char))
    : words.close word (rest ++ more) = words.close word rest ++ more := by
  rw [words.close, words.close]
  split <;> rfl

theorem words_go_append_blank {blank : Char} (h : isBlank blank) (word cs rest : List Char)
    : words.go word (cs ++ blank :: rest) = words.go word cs ++ words rest := by
  induction cs generalizing word with
  | nil =>
    rw [List.nil_append, words_go_cons_of_isBlank h, words.go, ← words_close_append,
      List.nil_append]
  | cons c cs ih =>
    rw [List.cons_append]
    cases hc : isBlank c with
    | true =>
      rw [words_go_cons_of_isBlank hc, words_go_cons_of_isBlank hc, words.eq_def (cs ++ _), ih,
        words_close_append]
      rfl
    | false => rw [words_go_cons_of_not_isBlank hc, words_go_cons_of_not_isBlank hc, ih]

theorem words_append_blank {blank : Char} (h : isBlank blank) (cs rest : List Char)
    : words (cs ++ blank :: rest) = words cs ++ words rest :=
  words_go_append_blank h [] cs rest

theorem words_cons_of_isBlank {blank : Char} (h : isBlank blank) (cs : List Char)
    : words (blank :: cs) = words cs :=
  words_append_blank h [] cs

theorem words_append_cons {blank : Char} (h : isBlank blank) {word : List Char}
    (hword : IsWord word) (cs : List Char)
    : words (word ++ blank :: cs) = word :: words cs := by
  rw [words_append_blank h, words_of_isWord hword, List.singleton_append]

theorem words_joined {ws : List (List Char)} (h : ∀ w ∈ ws, IsWord w) : words (joined ws) = ws := by
  induction ws with
  | nil => rfl
  | cons word ws ih =>
    rw [List.forall_mem_cons] at h
    cases ws with
    | nil =>
      change words (word ++ []) = _
      rw [List.append_nil, words_of_isWord h.1]
    | cons next ws =>
      have hblank : isBlank ' ' := by
        decide
      change words (word ++ ' ' :: joined (next :: ws)) = _
      rw [words_append_cons hblank h.1, ih h.2]

theorem words_normalize (text : String) : words (normalize text).toList = words text.toList := by
  rw [normalize, String.toList_ofList]
  apply words_joined
  intro w hw
  exact isWord_of_mem_words_go (by simp) hw

theorem normalize_eq_iff {one other : String}
    : normalize one = normalize other ↔ words one.toList = words other.toList := by
  constructor
  . intro h
    rw [← words_normalize one, h, words_normalize]
  . intro h
    rw [normalize, normalize, h]

theorem toList_normalize_of_isWord {word : List Char} (h : IsWord word)
    : (normalize (.ofList word)).toList = word := by
  rw [normalize, String.toList_ofList, String.toList_ofList, words_of_isWord h]
  exact List.append_nil _

/-! Texts without blanks at one side -/

def IsFlushLeft (cs : List Char) : Prop :=
  ∀ c ∈ cs.head?, isBlank c = false

def IsFlushRight (cs : List Char) : Prop :=
  ∀ c ∈ cs.getLast?, isBlank c = false

instance (cs : List Char) : Decidable (IsFlushLeft cs) :=
  decidable_of_iff (cs.head?.all (!isBlank ·)) (by simp [IsFlushLeft, Option.all_eq_true])

instance (cs : List Char) : Decidable (IsFlushRight cs) :=
  decidable_of_iff (cs.getLast?.all (!isBlank ·)) (by simp [IsFlushRight, Option.all_eq_true])

theorem IsFlushRight.of_append {cs rest : List Char} (h : IsFlushRight (cs ++ rest))
    : IsFlushRight rest := by
  intro c hc
  refine h c ?_
  rw [List.getLast?_append, hc]
  rfl

theorem isFlushRight_strip (text : String) : IsFlushRight (strip text).toList := by
  intro c hc
  rw [strip, String.toList_ofList, trim, trimEnd, List.getLast?_reverse] at hc
  have hhead := List.head?_dropWhile_not isBlank (text.toList.dropWhile isBlank).reverse
  rw [hc] at hhead
  exact hhead

theorem takeWhile_ne_nil_of_isFlushLeft {cs : List Char} (h : IsFlushLeft cs) (hcs : cs ≠ [])
    : cs.takeWhile (!isBlank ·) ≠ [] := by
  cases cs with
  | nil => contradiction
  | cons c cs =>
    rw [List.takeWhile_cons_of_pos (by simp [h c rfl])]
    exact List.cons_ne_nil _ _

theorem words_eq_cons_of_isFlushLeft {cs : List Char} (h : IsFlushLeft cs) (hcs : cs ≠ [])
    : words cs = cs.takeWhile (!isBlank ·) :: words (cs.dropWhile (!isBlank ·)) := by
  have htake := takeWhile_ne_nil_of_isFlushLeft h hcs
  rw [words, words_go_eq_close, List.append_nil,
    words_close_of_ne_nil (mt List.reverse_eq_nil_iff.1 htake), List.reverse_reverse]

theorem words_ne_nil_of_mem {cs : List Char} {c : Char} (hc : c ∈ cs) (h : isBlank c = false)
    : words cs ≠ [] := by
  induction cs with
  | nil => contradiction
  | cons d cs ih =>
    cases hd : isBlank d with
    | false =>
      have hflush : IsFlushLeft (d :: cs) := by
        rintro _ ⟨⟩
        exact hd
      rw [words_eq_cons_of_isFlushLeft hflush (List.cons_ne_nil _ _)]
      exact List.cons_ne_nil _ _
    | true =>
      rcases List.mem_cons.1 hc with rfl | hc
      . rw [h] at hd
        contradiction
      . rw [words_cons_of_isBlank hd]
        exact ih hc

theorem eq_nil_iff_of_isFlushLeft {cs : List Char} (h : IsFlushLeft cs)
    : cs = [] ↔ words cs = [] := by
  constructor
  . rintro rfl
    rfl
  . intro hwords
    by_contra hcs
    rw [words_eq_cons_of_isFlushLeft h hcs] at hwords
    contradiction

theorem isPrefix_iff_of_isFlushLeft {part cs : List Char} (h : IsFlushLeft cs)
    (hpart : part.all (!isBlank ·)) : part <+: cs ↔ part <+: (words cs).headD [] := by
  have hhead : (words cs).headD [] = cs.takeWhile (!isBlank ·) := by
    by_cases hcs : cs = []
    . rw [hcs]
      rfl
    . rw [words_eq_cons_of_isFlushLeft h hcs]
      rfl
  rw [hhead]
  constructor
  . rintro ⟨rest, rfl⟩
    rw [List.takeWhile_append_of_pos (List.all_eq_true.1 hpart)]
    exact List.prefix_append _ _
  . intro hprefix
    exact hprefix.trans (List.takeWhile_prefix _)

def resumed (ws : List (List Char)) (cs : List Char) : List (List Char) :=
  match ws.getLast? with
  | none => words cs
  | some word => ws.dropLast ++ words.go word.reverse cs

theorem resumed_close {ws : List (List Char)} (h : ws ≠ []) (word cs : List Char)
    : resumed (words.close word ws) cs = words.close word (resumed ws cs) := by
  rw [words.close, words.close]
  split
  next => rfl
  next =>
    cases ws with
    | nil => contradiction
    | cons w ws =>
      rw [resumed, List.getLast?_cons_cons, resumed]
      cases hlast : (w :: ws).getLast? with
      | none => simp at hlast
      | some last => rfl

theorem words_go_append {cs : List Char} (h : IsFlushRight cs) (word rest : List Char)
    : words.go word (cs ++ rest) = resumed (words.go word cs) rest := by
  induction cs generalizing word with
  | nil =>
    rw [List.nil_append, words.go, words.close]
    split
    next hempty =>
      rw [List.isEmpty_iff.1 hempty]
      rfl
    next =>
      rw [resumed]
      change _ = [] ++ words.go word.reverse.reverse rest
      rw [List.reverse_reverse, List.nil_append]
  | cons c cs ih =>
    have hcs : IsFlushRight cs := by
      intro last hlast
      apply h last
      rw [List.getLast?_cons, hlast]
      rfl
    rw [List.cons_append]
    cases hc : isBlank c with
    | true =>
      have hwords : words cs ≠ [] := by
        cases hlast : cs.getLast? with
        | none =>
          rw [List.getLast?_eq_none_iff] at hlast
          have hlast := h c (by rw [hlast]; rfl)
          rw [hc] at hlast
          contradiction
        | some last => exact words_ne_nil_of_mem (List.mem_of_getLast? hlast) (hcs last hlast)
      rw [words_go_cons_of_isBlank hc, words_go_cons_of_isBlank hc, resumed_close hwords, words,
        ih hcs, words]
    | false => rw [words_go_cons_of_not_isBlank hc, words_go_cons_of_not_isBlank hc, ih hcs]

theorem words_go_of_isFlushLeft {cs : List Char} (h : IsFlushLeft cs) (word : List Char)
    : words.go word cs
        =
      match words cs with
      | [] => words.close word []
      | w :: ws => (word.reverse ++ w) :: ws := by
  by_cases hcs : cs = []
  . rw [hcs]
    rfl
  . have hwords := words_eq_cons_of_isFlushLeft h hcs
    have htake : (cs.takeWhile (!isBlank ·)).reverse ++ word ≠ [] := by
      intro hnil
      rw [List.append_eq_nil_iff, List.reverse_eq_nil_iff] at hnil
      exact takeWhile_ne_nil_of_isFlushLeft h hcs hnil.1
    rw [words_go_eq_close, words_close_of_ne_nil htake, hwords, List.reverse_append,
      List.reverse_reverse]

theorem words_append_congr {one one' other other' : List Char} (hone : IsFlushRight one)
    (hone' : IsFlushRight one') (hother : IsFlushLeft other) (hother' : IsFlushLeft other')
    (h : words one = words one') (h' : words other = words other')
    : words (one ++ other) = words (one' ++ other') := by
  rw [words, words_go_append hone, words, words_go_append hone', ← words, ← words, h, resumed,
    resumed]
  cases (words one').getLast? with
  | none => exact h'
  | some word =>
    dsimp only
    rw [words_go_of_isFlushLeft hother, words_go_of_isFlushLeft hother', h']

end Text
end MethodHistory
