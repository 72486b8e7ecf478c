import MethodHistory.Proofs.Text.Words
import Mathlib.Data.List.Chain
import Mathlib.Data.List.Pairwise

/-!
This module contains what the normal form of a text is: a canonical form of the words that the text
reads as. The words are told by the text alone, as the longest stretches without a blank.
-/

namespace MethodHistory
namespace Text

/-! The words that a text reads as -/

/--
A text as its words from front to back. A word goes on to the next blank or to the end, and the next
one starts behind a blank, so none of them is part of a longer stretch without blanks.
-/
inductive ReadsAs : List Char → List (List Char) → Prop where
  | nil : ReadsAs [] []
  | blank {c : Char} {cs : List Char} {ws : List (List Char)} (h : isBlank c)
      (hrest : ReadsAs cs ws) : ReadsAs (c :: cs) ws
  | word {word cs : List Char} {ws : List (List Char)} (h : IsWord word)
      (hend : ∀ c ∈ cs.head?, isBlank c) (hrest : ReadsAs cs ws) : ReadsAs (word ++ cs) (word :: ws)

theorem words_of_readsAs {cs : List Char} {ws : List (List Char)} (h : ReadsAs cs ws)
    : words cs = ws := by
  induction h with
  | nil => rfl
  | blank h hrest ih => rw [words_cons_of_isBlank h, ih]
  | @word word cs ws h hend hrest ih =>
    cases cs with
    | nil =>
      rw [List.append_nil, words_of_isWord h, ← ih]
      rfl
    | cons c cs => rw [words_append_cons (hend c rfl) h, ← ih, words_cons_of_isBlank (hend c rfl)]

theorem readsAs_close {word cs : List Char} {ws : List (List Char)}
    (hword : ∀ c ∈ word, isBlank c = false) (hend : ∀ c ∈ cs.head?, isBlank c)
    (hrest : ReadsAs cs ws) : ReadsAs (word.reverse ++ cs) (words.close word ws) := by
  by_cases hnil : word = []
  . rw [hnil]
    exact hrest
  . rw [words_close_of_ne_nil hnil]
    refine .word ⟨mt List.reverse_eq_nil_iff.1 hnil, ?_⟩ hend hrest
    intro c hc
    exact hword c (List.mem_reverse.1 hc)

theorem readsAs_words_go {word : List Char} (hword : ∀ c ∈ word, isBlank c = false)
    (cs : List Char) : ReadsAs (word.reverse ++ cs) (words.go word cs) := by
  induction cs generalizing word with
  | nil => exact readsAs_close hword (by simp) .nil
  | cons c cs ih =>
    cases hc : isBlank c with
    | true =>
      rw [words_go_cons_of_isBlank hc]
      refine readsAs_close hword ?_ (.blank hc (ih (List.forall_mem_nil _)))
      rintro _ ⟨⟩
      exact hc
    | false =>
      rw [words_go_cons_of_not_isBlank hc, List.append_cons, ← List.reverse_cons]
      exact ih (List.forall_mem_cons.2 ⟨hc, hword⟩)

theorem readsAs_iff {cs : List Char} {ws : List (List Char)} : ReadsAs cs ws ↔ words cs = ws := by
  constructor
  . exact words_of_readsAs
  . rintro rfl
    exact readsAs_words_go (List.forall_mem_nil _) cs

theorem words_append_of_forall_isBlank {blanks : List Char} (h : ∀ c ∈ blanks, isBlank c)
    (rest : List Char) : words (blanks ++ rest) = words rest := by
  induction blanks with
  | nil => rfl
  | cons c blanks ih =>
    rw [List.forall_mem_cons] at h
    rw [List.cons_append, words_cons_of_isBlank h.1, ih h.2]

theorem words_append_blanks {blanks : List Char} (hne : blanks ≠ []) (h : ∀ c ∈ blanks, isBlank c)
    (one other : List Char) : words (one ++ blanks ++ other) = words one ++ words other := by
  cases blanks with
  | nil => contradiction
  | cons c blanks =>
    rw [List.forall_mem_cons] at h
    rw [List.append_assoc, List.cons_append, words_append_blank h.1,
      words_append_of_forall_isBlank h.2]

/-! Single spaces between words -/

structure IsSpaced (cs : List Char) : Prop where
  left : IsFlushLeft cs
  right : IsFlushRight cs
  eq_space : ∀ c ∈ cs, isBlank c → c = ' '
  single : cs.IsChain fun c next => isBlank c → isBlank next = false

theorem IsWord.isSpaced {word : List Char} (h : IsWord word) : IsSpaced word := by
  refine ⟨?_, ?_, ?_, ?_⟩
  . exact fun c hc => h.2 c (List.mem_of_mem_head? hc)
  . exact fun c hc => h.2 c (List.mem_of_getLast? hc)
  . intro c hc hblank
    rw [h.2 c hc] at hblank
    contradiction
  . apply List.Pairwise.isChain
    exact List.pairwise_of_forall_mem_list fun c hc next hnext hblank => h.2 next hnext

theorem IsSpaced.cons_word {word cs : List Char} (h : IsSpaced cs) (hword : IsWord word)
    (hcs : cs ≠ []) : IsSpaced (word ++ ' ' :: cs) := by
  have hspaced := hword.isSpaced
  refine ⟨?_, ?_, ?_, ?_⟩
  . intro c hc
    rw [List.head?_append_of_ne_nil _ hword.1] at hc
    exact hspaced.left c hc
  . intro c hc
    rw [List.getLast?_append_of_ne_nil _ (List.cons_ne_nil _ _),
      List.getLast?_cons_of_ne_nil hcs] at hc
    exact h.right c hc
  . rw [List.forall_mem_append, List.forall_mem_cons]
    exact ⟨hspaced.eq_space, fun _ => rfl, h.eq_space⟩
  . rw [List.isChain_append, List.isChain_cons]
    refine ⟨hspaced.single, ⟨?_, h.single⟩, ?_⟩
    . exact fun c hc _ => h.left c hc
    . intro c hc _ _ hblank
      rw [hspaced.right c hc] at hblank
      contradiction

theorem isSpaced_joined {ws : List (List Char)} (h : ∀ w ∈ ws, IsWord w)
    : IsSpaced (joined ws) := by
  induction ws with
  | nil => exact ⟨by decide, by decide, List.forall_mem_nil _, .nil⟩
  | cons word ws ih =>
    rw [List.forall_mem_cons] at h
    cases ws with
    | nil =>
      change IsSpaced (word ++ [])
      rw [List.append_nil]
      exact h.1.isSpaced
    | cons next ws =>
      have hne : joined (next :: ws) ≠ [] := by
        intro hnil
        have hwords := words_joined h.2
        rw [hnil] at hwords
        contradiction
      exact (ih h.2).cons_word h.1 hne

/-! The canonical form -/

/--
A form of texts that is the same for two texts if and only if they read as the same words, and that
is one of these texts, with single spaces between the words. Blanks between two texts, however many
and whichever, join their words.
-/
structure IsCanonical (form : String → String) : Prop where
  idempotent : ∀ text, form (form text) = form text
  eq_iff : ∀ one other, form one = form other
    ↔ ∃ ws, ReadsAs one.toList ws ∧ ReadsAs other.toList ws
  spaced : ∀ text, IsSpaced (form text).toList
  append : ∀ one blanks other ws ws', blanks ≠ "" → (∀ c ∈ blanks.toList, isBlank c) →
    ReadsAs one.toList ws → ReadsAs other.toList ws' →
    form (one ++ blanks ++ other) = .ofList (joined (ws ++ ws'))

theorem isCanonical_normalize : IsCanonical normalize := by
  refine ⟨?_, ?_, ?_, ?_⟩
  . exact fun text => normalize_eq_iff.2 (words_normalize text)
  . intro one other
    rw [normalize_eq_iff]
    constructor
    . intro h
      exact ⟨_, readsAs_iff.2 h, readsAs_iff.2 rfl⟩
    . rintro ⟨ws, hone, hother⟩
      rw [readsAs_iff.1 hone, readsAs_iff.1 hother]
  . intro text
    rw [normalize, String.toList_ofList]
    apply isSpaced_joined
    intro w hw
    exact isWord_of_mem_words_go (List.forall_mem_nil _) hw
  . intro one blanks other ws ws' hne hblanks hone hother
    rw [normalize, String.toList_append, String.toList_append,
      words_append_blanks (mt String.toList_eq_nil_iff.1 hne) hblanks, readsAs_iff.1 hone,
      readsAs_iff.1 hother]

theorem IsCanonical.eq_normalize {form : String → String} (h : IsCanonical form)
    : form = normalize := by
  funext text
  have hspace : ∀ c ∈ " ".toList, isBlank c := by
    intro c hc
    rw [List.mem_singleton.1 hc]
    rfl
  have hwords : ReadsAs text.toList (words text.toList) := readsAs_iff.2 rfl
  have hlonger : ReadsAs (text ++ " " ++ "").toList (words text.toList) := by
    rw [readsAs_iff, String.toList_append, String.toList_append,
      words_append_blanks (by decide) hspace]
    exact List.append_nil _
  have happend := h.append text " " "" _ _ (by decide) hspace hwords .nil
  rw [List.append_nil] at happend
  rw [(h.eq_iff text _).2 ⟨_, hwords, hlonger⟩, happend, normalize]

end Text
end MethodHistory
