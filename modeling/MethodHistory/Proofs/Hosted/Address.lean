import MethodHistory.Hosted.Address
import MethodHistory.Proofs.Text.Pattern
import MethodHistory.Proofs.Text.Words

/-!
This module contains the grammar of addresses: an address is split in exactly one way, and a text
that is split is recognised as an address of the host.
-/

namespace MethodHistory
namespace Hosted
namespace Address

def IsPart (cs : List Char) : Prop :=
  cs ≠ [] ∧ '/' ∉ cs

/--
Whether a text is the address of a repository, whose name is written with its ending.
-/
def Writes (text owner name : List Char) : Prop :=
  IsPart owner ∧ IsPart name ∧
    ∃ start ∈ ["http".toList, "https".toList], ∃ behind ∈ [[], ['/']],
      text = start ++ "://github.com/".toList ++ owner ++ '/' :: (name ++ behind)

instance (cs : List Char) : Decidable (IsPart cs) :=
  inferInstanceAs (Decidable (_ ∧ _))

instance (text owner name : List Char) : Decidable (Writes text owner name) :=
  inferInstanceAs (Decidable (_ ∧ _ ∧ ∃ start ∈ _, ∃ behind ∈ _, _ = _))

def withoutEnding (name : List Char) : List Char :=
  if 4 < name.length ∧ ".git".toList <:+ name then name.take (name.length - 4) else name

theorem withoutEnding_append {name : List Char} (h : name ≠ [])
    : withoutEnding (name ++ ".git".toList) = name := by
  have hlength : (name ++ ".git".toList).length = name.length + 4 := List.length_append
  have hpos := List.length_pos_of_ne_nil h
  rw [withoutEnding, hlength, if_pos ⟨by omega, List.suffix_append _ _⟩, Nat.add_sub_cancel,
    List.take_left]

theorem withoutEnding_of_forall_ne {name : List Char}
    (h : ∀ front, front ≠ [] → name ≠ front ++ ".git".toList) : withoutEnding name = name := by
  rw [withoutEnding, if_neg]
  rintro ⟨hlength, front, rfl⟩
  refine h front ?_ rfl
  rintro rfl
  exact absurd hlength (Nat.lt_irrefl _)

theorem isRun_isInPart_iff {cs : List Char} : Text.IsRun isInPart cs ↔ IsPart cs := by
  simp only [Text.IsRun, IsPart, isInPart, decide_eq_true_eq, and_congr_right_iff]
  intro _
  constructor
  . intro h hslash
    exact h _ hslash rfl
  . rintro h c hc rfl
    exact h hc

/-! The start of an address -/

variable {pieces : Text.Pattern} {captured : List (List Char)} {text rest : List Char}

theorem exists_start (h : Text.Pattern.captured? (host ++ pieces) text = some captured)
    : ∃ start ∈ ["http".toList, "https".toList], ∃ rest,
        text = start ++ "://github.com/".toList ++ rest
          ∧ Text.Pattern.captured? pieces rest = some captured := by
  obtain ⟨behind, rfl, hbehind⟩ := Text.Pattern.captured?_exactly_eq_some_iff.1 h
  obtain ⟨middle, hmiddle, hcaptured⟩ := Text.Pattern.captured?_perhaps_eq_some hbehind
  obtain ⟨rest, rfl, hrest⟩ := Text.Pattern.captured?_exactly_eq_some_iff.1 hcaptured
  rcases hmiddle with rfl | rfl
  . exact ⟨"https".toList, by simp, rest, by simp, hrest⟩
  . exact ⟨"http".toList, by simp, rest, by simp, hrest⟩

theorem isSome_captured?_host {start : List Char}
    (h : (Text.Pattern.captured? pieces rest).isSome)
    (hstart : start ∈ ["http".toList, "https".toList])
    : (Text.Pattern.captured? (host ++ pieces)
        (start ++ "://github.com/".toList ++ rest)).isSome := by
  have hrest := Text.Pattern.isSome_captured?_exactly "://github.com/".toList h
  rcases List.mem_pair.1 hstart with rfl | rfl
  . exact Text.Pattern.isSome_captured?_exactly "http".toList
      (Text.Pattern.isSome_captured?_perhaps hrest (.inr rfl))
  . exact Text.Pattern.isSome_captured?_exactly "http".toList
      (Text.Pattern.isSome_captured?_perhaps hrest (.inl rfl))

theorem rest_eq_of_starts {one other rest' : List Char}
    (hone : one ∈ ["http".toList, "https".toList])
    (hother : other ∈ ["http".toList, "https".toList])
    (h : one ++ "://github.com/".toList ++ rest = other ++ "://github.com/".toList ++ rest')
    : rest = rest' := by
  rcases List.mem_pair.1 hone with rfl | rfl <;> rcases List.mem_pair.1 hother with rfl | rfl
  . exact List.append_cancel_left h
  . simp at h
  . simp at h
  . exact List.append_cancel_left h

/-! Owner and name -/

theorem captured?_behind {front behind : List Char} (hflush : Text.IsFlushRight (front ++ behind))
    (h : Text.Pattern.captured? [.perhaps "/".toList, .ending] behind = some captured)
    : captured = [] ∧ behind ∈ [[], ['/']] := by
  obtain ⟨last, hlast, hending⟩ := Text.Pattern.captured?_perhaps_eq_some h
  obtain ⟨hend, hcaptured⟩ := Text.Pattern.captured?_ending_eq_some hending
  refine ⟨(Option.some.inj hcaptured).symm, ?_⟩
  -- A text without blanks at its end does not end with a line feed.
  have hnil : last = [] := by
    rcases hend with hnil | rfl
    . exact hnil
    . rcases hlast with rfl | rfl <;> exact absurd (hflush '\n' (by simp)) (by decide)
  rcases hlast with rfl | rfl <;> simp [hnil]

theorem exists_name (hflush : Text.IsFlushRight text)
    (h : namePattern.captured? text = some captured)
    : ∃ name, IsPart name ∧ captured = [withoutEnding name]
        ∧ ∃ behind ∈ [[], ['/']], text = name ++ behind := by
  obtain ⟨run, rest, others, hrun, rfl, rfl, hrest⟩ := Text.Pattern.captured?_run_eq_some h
  obtain ⟨behind, hbehind, hslash⟩ := Text.Pattern.captured?_perhaps_eq_some hrest
  rw [isRun_isInPart_iff] at hrun
  rcases hbehind with rfl | rfl
  . rw [← List.append_assoc] at hflush
    obtain ⟨rfl, hbehind⟩ := captured?_behind hflush hslash
    refine ⟨run ++ ".git".toList, ⟨?_, ?_⟩, ?_, behind, hbehind, ?_⟩
    . exact List.append_ne_nil_of_left_ne_nil hrun.1 _
    . rw [List.mem_append, not_or]
      exact ⟨hrun.2, by decide⟩
    . rw [withoutEnding_append hrun.1]
    . rw [List.append_assoc]
  . obtain ⟨rfl, hbehind⟩ := captured?_behind hflush hslash
    refine ⟨run, hrun, ?_, rest, hbehind, rfl⟩
    rw [withoutEnding_of_forall_ne]
    -- A name in front of an ending is tried before the run that has the ending in it.
    rintro front hfront rfl
    have hshorter : Text.IsRun isInPart front :=
      isRun_isInPart_iff.2 ⟨hfront, fun hmem => hrun.2 (List.mem_append_left _ hmem)⟩
    have hnone := Text.Pattern.captured?_shorter_eq_none h hshorter (List.append_assoc _ _ _)
      (by rw [List.length_append]; exact Nat.lt_add_of_pos_right (by decide))
    have hsome : (Text.Pattern.captured? [.perhaps ".git".toList, .perhaps "/".toList, .ending]
        (".git".toList ++ rest)).isSome :=
      Text.Pattern.isSome_captured?_perhaps (Option.isSome_of_eq_some hslash) (.inl rfl)
    rw [hnone] at hsome
    contradiction

theorem isSome_captured?_name {name behind : List Char} (hname : IsPart name)
    (hbehind : behind ∈ [[], ['/']]) : (namePattern.captured? (name ++ behind)).isSome := by
  have hend : (Text.Pattern.captured? [.ending] []).isSome :=
    Text.Pattern.isSome_captured?_ending rfl
  have hslash : (Text.Pattern.captured? [.perhaps "/".toList, .ending] behind).isSome := by
    refine Text.Pattern.isSome_captured?_perhaps hend ?_
    rcases List.mem_pair.1 hbehind with rfl | rfl
    . exact .inr rfl
    . exact .inl rfl
  exact Text.Pattern.isSome_captured?_run (Text.Pattern.isSome_captured?_perhaps hslash (.inr rfl))
    (isRun_isInPart_iff.2 hname)

theorem takeWhile_part {part rest : List Char} (hpart : IsPart part)
    (hrest : ∀ c ∈ rest.head?, c = '/') : (part ++ rest).takeWhile (· ≠ '/') = part := by
  have hall : ∀ c ∈ part, decide (c ≠ '/') := by
    intro c hc
    rw [decide_eq_true_eq]
    rintro rfl
    exact hpart.2 hc
  rw [List.takeWhile_append_of_pos hall]
  cases rest with
  | nil => exact List.append_nil part
  | cons c rest =>
    rw [List.takeWhile_cons_of_neg (by simp [hrest c rfl]), List.append_nil]

theorem head?_behind {behind : List Char} (h : behind ∈ [[], ['/']])
    : ∀ c ∈ behind.head?, c = '/' := by
  rcases List.mem_pair.1 h with rfl | rfl
  . rintro _ ⟨⟩
  . rintro _ ⟨⟩
    rfl

theorem Writes.eq_of_writes {owner name owner' name' : List Char} (h : Writes text owner name)
    (h' : Writes text owner' name') : owner = owner' ∧ name = name' := by
  obtain ⟨howner, hname, start, hstart, behind, hbehind, rfl⟩ := h
  obtain ⟨howner', hname', start', hstart', behind', hbehind', heq⟩ := h'
  rw [List.append_assoc _ owner, List.append_assoc _ owner'] at heq
  have hpath := rest_eq_of_starts hstart hstart' heq
  have hslash (rest : List Char) : ∀ c ∈ ('/' :: rest).head?, c = '/' := by
    simp
  have howners := congrArg (List.takeWhile (· ≠ '/')) hpath
  rw [takeWhile_part howner (hslash _), takeWhile_part howner' (hslash _)] at howners
  refine ⟨howners, ?_⟩
  rw [howners, List.append_cancel_left_eq, List.cons.injEq] at hpath
  have hnames := congrArg (List.takeWhile (· ≠ '/')) hpath.2
  rw [takeWhile_part hname (head?_behind hbehind), takeWhile_part hname' (head?_behind hbehind')]
    at hnames
  exact hnames

theorem captured?_eq_some_iff (hflush : Text.IsFlushRight text)
    : pattern.captured? text = some captured
        ↔
      ∃ owner name, Writes text owner name ∧ captured = [owner, withoutEnding name] := by
  have hsplit {captured : List (List Char)} (h : pattern.captured? text = some captured)
      : ∃ owner name, Writes text owner name ∧ captured = [owner, withoutEnding name] := by
    obtain ⟨start, hstart, path, rfl, hpath⟩ := exists_start h
    obtain ⟨owner, rest, others, howner, rfl, rfl, hrest⟩ :=
      Text.Pattern.captured?_run_eq_some hpath
    obtain ⟨rest, rfl, hname⟩ := Text.Pattern.captured?_exactly_eq_some_iff.1 hrest
    obtain ⟨name, hpart, rfl, behind, hbehind, rfl⟩ :=
      exists_name hflush.of_append.of_append.of_append hname
    rw [isRun_isInPart_iff] at howner
    refine ⟨owner, name, ⟨howner, hpart, start, hstart, behind, hbehind, ?_⟩, rfl⟩
    simp
  constructor
  . exact hsplit
  . rintro ⟨owner, name, hwrites, rfl⟩
    have hsome : (pattern.captured? text).isSome := by
      obtain ⟨howner, hname, start, hstart, behind, hbehind, rfl⟩ := hwrites
      have hrest := Text.Pattern.isSome_captured?_exactly "/".toList
        (isSome_captured?_name hname hbehind)
      rw [List.append_assoc _ owner]
      exact isSome_captured?_host
        (Text.Pattern.isSome_captured?_run hrest (isRun_isInPart_iff.2 howner)) hstart
    obtain ⟨captured, hcaptured⟩ := Option.isSome_iff_exists.1 hsome
    obtain ⟨owner', name', hwrites', rfl⟩ := hsplit hcaptured
    obtain ⟨rfl, rfl⟩ := hwrites.eq_of_writes hwrites'
    exact hcaptured

theorem isHosted_of_writes {address : String} {owner name : List Char}
    (h : Writes address.toList owner name) : isHosted address := by
  obtain ⟨-, -, start, hstart, behind, -, haddress⟩ := h
  rw [isHosted, haddress, List.append_assoc _ owner]
  have hrest (rest : List Char) : (Text.Pattern.captured? [] rest).isSome := rfl
  exact isSome_captured?_host (hrest _) hstart

/--
A text is split if it is the address of a repository once the blanks around it are gone, and only
then. There is one way to split it, and it is recognised as an address of the host.
-/
theorem ofText?_eq_some_iff (text : String)
    : (∀ address, ofText? text = some address
          ↔
        ∃ owner name, Writes (Text.strip text).toList owner name
          ∧ address = ⟨.ofList owner, .ofList (withoutEnding name)⟩)
      ∧ (ofText? text = none ↔ ∀ owner name, ¬Writes (Text.strip text).toList owner name)
      ∧ ∀ owner name, Writes (Text.strip text).toList owner name → isHosted (Text.strip text) := by
  have hcaptured (captured : List (List Char))
      : pattern.captured? (Text.strip text).toList = some captured
        ↔ ∃ owner name, Writes (Text.strip text).toList owner name
          ∧ captured = [owner, withoutEnding name] :=
    captured?_eq_some_iff (Text.isFlushRight_strip text)
  have hsome (address : Address) : ofText? text = some address
      ↔ ∃ owner name, Writes (Text.strip text).toList owner name
        ∧ address = ⟨.ofList owner, .ofList (withoutEnding name)⟩ := by
    constructor
    . intro h
      rw [ofText?] at h
      split at h
      next owner name hpattern =>
        obtain ⟨owner', name', hwrites, heq⟩ := (hcaptured _).1 hpattern
        rw [List.cons.injEq, List.cons.injEq] at heq
        obtain ⟨rfl, rfl, -⟩ := heq
        exact ⟨owner, name', hwrites, (Option.some.inj h).symm⟩
      next => contradiction
    . rintro ⟨owner, name, hwrites, rfl⟩
      rw [ofText?, (hcaptured _).2 ⟨owner, name, hwrites, rfl⟩]
  refine ⟨hsome, ⟨?_, ?_⟩, fun owner name => isHosted_of_writes⟩
  . intro hnone owner name hwrites
    rw [(hsome _).2 ⟨owner, name, hwrites, rfl⟩] at hnone
    contradiction
  . intro h
    cases haddress : ofText? text with
    | none => rfl
    | some address =>
      obtain ⟨owner, name, hwrites, -⟩ := (hsome address).1 haddress
      exact absurd hwrites (h owner name)

theorem ofText?_of_repeated_ending
    : Writes (Text.strip " https://github.com/apache/lang.git.git/\n").toList "apache".toList
          "lang.git.git".toList
      ∧ ofText? " https://github.com/apache/lang.git.git/\n" = some ⟨"apache", "lang.git"⟩
      ∧ isHosted (Text.strip " https://github.com/apache/lang.git.git/\n") := by
  have hwrites : Writes (Text.strip " https://github.com/apache/lang.git.git/\n").toList
      "apache".toList "lang.git.git".toList := by
    decide
  have hall := ofText?_eq_some_iff " https://github.com/apache/lang.git.git/\n"
  exact ⟨hwrites, (hall.1 _).2 ⟨_, _, hwrites, by decide⟩, hall.2.2 _ _ hwrites⟩

end Address
end Hosted
end MethodHistory
