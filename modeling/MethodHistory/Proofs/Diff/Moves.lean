import MethodHistory.Proofs.Diff.AccountedFor
import Mathlib.Data.List.Nodup
import Mathlib.Data.List.Pairwise

/-!
This module contains where the ends of moves lie: of a move whose one end is inside an end of
another move, the other end stands on its own.
-/

namespace MethodHistory

def IsWithin (body : List Statement) (inner outer : Fragment) : Prop :=
  ∃ enclosure ∈ enclosures body, enclosure.head = outer ∧ inner ∈ enclosure.inner

/-! No stray is inside another one -/

theorem Stray.IsRootOf.head_notMem {stray : Stray} {group : List Enclosure}
    (h : stray.IsRootOf group) (hnodup : (group.map Enclosure.head).Nodup)
    : ∀ enclosure ∈ group, stray.head ∉ enclosure.inner := by
  obtain ⟨inside, rfl, -, hclosed⟩ := h
  rw [Enclosure.around, List.map_cons, List.nodup_cons] at hnodup
  rw [Enclosure.around, List.forall_mem_cons]
  exact ⟨hnodup.1, fun enclosure hmem hhead => hnodup.1 (hclosed enclosure hmem hhead)⟩

namespace Come

variable {strays : List Stray} {groups : List (List Enclosure)}

theorem eq_of_shared (hnodup : groups.flatten.Nodup) {one other : List Enclosure}
    (hone : one ∈ groups) (hother : other ∈ groups) {enclosure : Enclosure} (h : enclosure ∈ one)
    (h' : enclosure ∈ other) : one = other := by
  have : Std.Symm (@List.Disjoint Enclosure) := ⟨fun _ _ => List.disjoint_symm⟩
  by_contra hne
  have hdisjoint := (List.nodup_flatten.1 hnodup).2
  exact hdisjoint.forall hone hother hne h h'

theorem exists_group (h : List.Forall₂ Stray.IsRootOf strays groups) {stray : Stray}
    (hstray : stray ∈ strays) : ∃ group ∈ groups, stray.IsRootOf group := by
  induction h with
  | nil => contradiction
  | cons hroot _ ih =>
    rcases List.mem_cons.1 hstray with rfl | hstray
    . exact ⟨_, List.mem_cons_self, hroot⟩
    . obtain ⟨group, hgroup, hroot⟩ := ih hstray
      exact ⟨group, List.mem_cons_of_mem _ hgroup, hroot⟩

theorem exists_group_of_mem (h : List.Forall₂ Stray.IsRootOf strays groups) {fragment : Fragment}
    (hfragment : fragment ∈ strays.map Stray.head ++ strays.flatMap Stray.nested)
    : ∃ group ∈ groups, ∃ stray : Stray,
        stray.IsRootOf group ∧ fragment ∈ group.map Enclosure.head := by
  have hstray : ∃ stray ∈ strays, fragment ∈ stray.head :: stray.nested := by
    rcases List.mem_append.1 hfragment with hhead | hnested
    . obtain ⟨stray, hstray, rfl⟩ := List.mem_map.1 hhead
      exact ⟨stray, hstray, List.mem_cons_self⟩
    . obtain ⟨stray, hstray, hnested⟩ := List.mem_flatMap.1 hnested
      exact ⟨stray, hstray, List.mem_cons_of_mem _ hnested⟩
  obtain ⟨stray, hstray, hmem⟩ := hstray
  obtain ⟨group, hgroup, hroot⟩ := exists_group h hstray
  exact ⟨group, hgroup, stray, hroot, hroot.sublist.subset hmem⟩

theorem not_isWithin {body : List Statement} (h : Come strays (enclosures body))
    (hnodup : (pieces body).Nodup) {stray : Stray} (hstray : stray ∈ strays) {outer : Fragment}
    (houter : outer ∈ strays.map Stray.head ++ strays.flatMap Stray.nested)
    : ¬IsWithin body stray.head outer := by
  obtain ⟨groups, hroots, hgroups⟩ := h
  have hmem : ∀ group ∈ groups, ∀ enclosure ∈ group, enclosure ∈ groups.flatten :=
    fun group hgroup enclosure henclosure => List.mem_flatten.2 ⟨group, hgroup, henclosure⟩
  have hheads : (groups.flatten.map Enclosure.head).Nodup := by
    obtain ⟨taken, hperm, hsublist⟩ := subperm_map hgroups Enclosure.head
    exact hperm.nodup_iff.1 (hnodup.sublist hsublist)
  rintro ⟨enclosure, henclosure, rfl, hinner⟩
  -- The enclosure belongs to the group of a stray, so what is inside it does, the stray as well.
  obtain ⟨group, hgroup, other, hother, hhead⟩ := exists_group_of_mem hroots houter
  obtain ⟨same, hsame, hsameHead⟩ := List.mem_map.1 hhead
  obtain rfl := List.inj_on_of_nodup_map hnodup (hgroups.subset (hmem group hgroup same hsame))
    henclosure hsameHead
  obtain ⟨root, hroot, hrootHead⟩ := List.mem_map.1 (hother.isClosed same hsame hinner)
  obtain ⟨own, hown, hownRoot⟩ := exists_group hroots hstray
  obtain ⟨inside, rfl, -, -⟩ := id hownRoot
  obtain rfl := List.inj_on_of_nodup_map hheads (hmem group hgroup root hroot)
    (hmem _ hown _ List.mem_cons_self) hrootHead
  obtain rfl := eq_of_shared hheads.of_map hgroup hown hroot List.mem_cons_self
  have hsublist := (List.sublist_flatten_of_mem hgroup).map Enclosure.head
  exact hownRoot.head_notMem (hheads.sublist hsublist) same hsame hinner

end Come

theorem isClosed_enclosures (body : List Statement) : Enclosure.IsClosed (enclosures body) :=
  (@spec_enclosures_of_forall body .body fun statement _ => isRootOf_ofStatement .body statement).2

/--
Statements and parts with equal texts have equal texts inside them.
-/
def AgreeInside (olds news : List Statement) : Prop :=
  ∀ old ∈ enclosures olds, ∀ new ∈ enclosures news, old.head.text = new.head.text →
    ∀ text, text ∈ old.inner.map Fragment.text ↔ text ∈ new.inner.map Fragment.text

def Enclosure.texts (enclosure : Enclosure) : String × List String :=
  (enclosure.head.text, enclosure.inner.map Fragment.text)

theorem AgreeInside.of_texts {olds news : List Statement} {old new : List (String × List String)}
    (hold : (enclosures olds).map Enclosure.texts = old)
    (hnew : (enclosures news).map Enclosure.texts = new)
    (h : ∀ row ∈ old, ∀ other ∈ new, row.1 = other.1 → row.2 = other.2)
    : AgreeInside olds news := by
  subst hold hnew
  rw [List.forall_mem_map] at h
  intro enclosure hmem other hother htext text
  have hrow := h enclosure hmem (Enclosure.texts other) (List.mem_map_of_mem hother) htext
  change enclosure.inner.map Fragment.text = other.inner.map Fragment.text at hrow
  rw [hrow]

theorem map_text_pieces (body : List Statement)
    : (pieces body).map Fragment.text = ((enclosures body).map Enclosure.texts).map Prod.fst := by
  rw [pieces, List.map_map, List.map_map]
  rfl

theorem AgreeInside.symm {olds news : List Statement} (h : AgreeInside olds news)
    : AgreeInside news olds :=
  fun new hnew old hold htext text => (h old hold new hnew htext.symm text).symm

theorem IsWithin.transfer {body otherBody : List Statement}
    {inner outer otherInner otherOuter : Fragment} (h : IsWithin body inner outer)
    (hagree : AgreeInside body otherBody)
    (hnodup : ((pieces otherBody).map Fragment.text).Nodup)
    (hinner : inner.text = otherInner.text) (houter : outer.text = otherOuter.text)
    (hinnerMem : otherInner ∈ pieces otherBody) (houterMem : otherOuter ∈ pieces otherBody)
    : IsWithin otherBody otherInner otherOuter := by
  obtain ⟨enclosure, henclosure, rfl, hmem⟩ := h
  obtain ⟨other, hother, rfl⟩ := List.mem_map.1 houterMem
  have hinside := (hagree enclosure henclosure other hother houter _).1 (List.mem_map_of_mem hmem)
  obtain ⟨same, hsame, htext⟩ := List.mem_map.1 hinside
  have hpiece : same ∈ pieces otherBody := isClosed_enclosures otherBody other hother hsame
  obtain rfl := List.inj_on_of_nodup_map hnodup hpiece hinnerMem (htext.trans hinner)
  exact ⟨other, hother, rfl, hsame⟩

namespace BodyDiff

structure AreApart (olds news : List Statement) (moves : List Move) : Prop where
  sources : ∀ move ∈ moves, ∀ other ∈ moves, ¬IsWithin olds move.source other.source
  targets : ∀ move ∈ moves, ∀ other ∈ moves, ¬IsWithin news move.target other.target

/--
Moves of which each has an end that stands on its own, as both ends do if the order has changed, or
if all texts are distinct.
-/
structure StandOut (olds news : List Statement) (moves : List Move) : Prop where
  either : ∀ move ∈ moves,
    (∀ other ∈ moves, ¬IsWithin olds move.source other.source)
      ∨ ∀ other ∈ moves, ¬IsWithin news move.target other.target
  ordering : ∀ move ∈ moves, move.kind = .statementOrderingChange →
    (∀ other ∈ moves, ¬IsWithin olds move.source other.source)
      ∧ ∀ other ∈ moves, ¬IsWithin news move.target other.target
  distinct : ((pieces olds).map Fragment.text).Nodup → ((pieces news).map Fragment.text).Nodup →
    AgreeInside olds news → AreApart olds news moves

section

variable {deleted inserted : List Stray} {olds news : List Statement} {move : Move}

theorem source_not_isWithin (hcome : Come deleted (enclosures olds))
    (hnodup : (pieces olds).Nodup) {stray : Stray} (hstray : stray ∈ deleted)
    : ∀ other ∈ (resolution deleted inserted).moves,
        ¬IsWithin olds stray.head other.source := by
  intro other hother
  apply hcome.not_isWithin hnodup hstray
  exact (subperm_sources deleted inserted).subset (List.mem_map_of_mem hother)

theorem target_not_isWithin (hcome : Come inserted (enclosures news))
    (hnodup : (pieces news).Nodup) {stray : Stray} (hstray : stray ∈ inserted)
    : ∀ other ∈ (resolution deleted inserted).moves,
        ¬IsWithin news stray.head other.target := by
  intro other hother
  apply hcome.not_isWithin hnodup hstray
  exact (subperm_targets deleted inserted).subset (List.mem_map_of_mem hother)

theorem exists_inserted_of_mem {landing : Landing}
    (h : landing ∈ ((resolution deleted inserted).landed.map Prod.snd).filter (·.place.isSome)
      ++ ((resolution deleted inserted).pulled.map Prod.fst ++ (resolution deleted inserted).added))
    : ∃ stray ∈ inserted, landing.head = stray.head := by
  have hmem := (settles_resolution deleted inserted).inserted_perm.subset h
  obtain ⟨stray, hstray, rfl⟩ := List.mem_map.1 hmem
  exact ⟨stray, hstray, rfl⟩

theorem exists_stray_of_mem_moves (h : move ∈ (resolution deleted inserted).moves)
    : (∃ stray ∈ deleted, move.source = stray.head)
        ∨ ∃ stray ∈ inserted, move.target = stray.head := by
  rcases List.mem_append.1 h with h | h
  . obtain ⟨landed, hlanded, rfl⟩ := List.mem_map.1 h
    have hmem := (settles_resolution deleted inserted).deleted_perm.subset
      (List.mem_append_left _ (List.mem_map_of_mem hlanded))
    exact .inl ⟨landed.1, hmem, rfl⟩
  . obtain ⟨pulled, hpulled, rfl⟩ := List.mem_map.1 h
    right
    apply exists_inserted_of_mem
    exact List.mem_append_right _ (List.mem_append_left _ (List.mem_map_of_mem hpulled))

theorem exists_strays_of_ordering (h : move ∈ (resolution deleted inserted).moves)
    (hkind : move.kind = .statementOrderingChange)
    : (∃ stray ∈ deleted, move.source = stray.head)
        ∧ ∃ stray ∈ inserted, move.target = stray.head := by
  rcases List.mem_append.1 h with h | h
  . obtain ⟨landed, hlanded, rfl⟩ := List.mem_map.1 h
    have hmem := (settles_resolution deleted inserted).deleted_perm.subset
      (List.mem_append_left _ (List.mem_map_of_mem hlanded))
    refine ⟨⟨landed.1, hmem, rfl⟩, ?_⟩
    dsimp only [moveKind] at hkind
    split at hkind
    next hplace =>
      apply exists_inserted_of_mem
      apply List.mem_append_left
      rw [List.mem_filter]
      exact ⟨List.mem_map_of_mem hlanded, Option.isSome_iff_exists.2 ⟨_, hplace⟩⟩
    next => contradiction
  . obtain ⟨_, -, rfl⟩ := List.mem_map.1 h
    contradiction

end

theorem areApart_of_either {olds news : List Statement} {moves : List Move}
    (heither : ∀ move ∈ moves, (∀ other ∈ moves, ¬IsWithin olds move.source other.source)
      ∨ ∀ other ∈ moves, ¬IsWithin news move.target other.target)
    (htext : ∀ move ∈ moves, move.source.text = move.target.text)
    (hsources : moves.map Move.source ⊆ pieces olds)
    (htargets : moves.map Move.target ⊆ pieces news) (hagree : AgreeInside olds news)
    (holds : ((pieces olds).map Fragment.text).Nodup)
    (hnews : ((pieces news).map Fragment.text).Nodup) : AreApart olds news moves := by
  have hsource : ∀ move ∈ moves, move.source ∈ pieces olds :=
    fun move hmove => hsources (List.mem_map_of_mem hmove)
  have htarget : ∀ move ∈ moves, move.target ∈ pieces news :=
    fun move hmove => htargets (List.mem_map_of_mem hmove)
  -- If one end of a move is inside an end of another move, the same holds of their other ends.
  constructor
  . intro move hmove other hother hwithin
    have hwithin' := hwithin.transfer hagree hnews (htext move hmove) (htext other hother)
      (htarget move hmove) (htarget other hother)
    rcases heither move hmove with h | h
    . exact h other hother hwithin
    . exact h other hother hwithin'
  . intro move hmove other hother hwithin
    have hwithin' := hwithin.transfer hagree.symm holds (htext move hmove).symm
      (htext other hother).symm (hsource move hmove) (hsource other hother)
    rcases heither move hmove with h | h
    . exact h other hother hwithin'
    . exact h other hother hwithin

theorem standOut_moves (threshold : Float) {old new : Option Node}
    (hold : (pieces (Statement.ofBody old)).Nodup) (hnew : (pieces (Statement.ofBody new)).Nodup)
    : StandOut (Statement.ofBody old) (Statement.ofBody new)
        (outcome threshold (Statement.ofBody old) (Statement.ofBody new)).moves := by
  obtain ⟨hdeleted, hinserted⟩ := comeFrom_bodies threshold old new
  have heither : ∀ move ∈ (outcome threshold (Statement.ofBody old) (Statement.ofBody new)).moves,
      (∀ other ∈ (outcome threshold (Statement.ofBody old) (Statement.ofBody new)).moves,
        ¬IsWithin (Statement.ofBody old) move.source other.source)
      ∨ ∀ other ∈ (outcome threshold (Statement.ofBody old) (Statement.ofBody new)).moves,
        ¬IsWithin (Statement.ofBody new) move.target other.target := by
    intro move hmove
    rcases exists_stray_of_mem_moves hmove with ⟨stray, hstray, hsource⟩ | ⟨stray, hstray, htarget⟩
    . left
      rw [hsource]
      exact source_not_isWithin hdeleted hold hstray
    . right
      rw [htarget]
      exact target_not_isWithin hinserted hnew hstray
  refine ⟨heither, ?_, ?_⟩
  . intro move hmove hkind
    obtain ⟨⟨start, hstart, hsource⟩, stop, hstop, htarget⟩ :=
      exists_strays_of_ordering hmove hkind
    rw [hsource, htarget]
    exact ⟨source_not_isWithin hdeleted hold hstart, target_not_isWithin hinserted hnew hstop⟩
  . intro holdTexts hnewTexts hagree
    apply areApart_of_either heither _ _ _ hagree holdTexts hnewTexts
    . exact fun move => text_eq_of_mem_moves _ _
    . exact (((subperm_sources _ _).trans hdeleted.subperm).subset)
    . exact (((subperm_targets _ _).trans hinserted.subperm).subset)

end BodyDiff

/-! A call that leaves a conditional which moves itself -/

namespace BodyDiff

theorem steps_of_disjoint {isPairable : Statement → Statement → Bool} {olds news : List Statement}
    (h : ∀ old ∈ olds, ∀ new ∈ news, old.text ≠ new.text)
    : steps isPairable olds news = gapSteps isPairable olds news := by
  rw [steps_eq_inGaps]
  rcases @inGaps_cases _ _ _ _ Statement.text _ (gapSteps_nil isPairable) olds news with
    ⟨front, run, back, front', run', back', hdivision, -⟩ | ⟨-, hgaps⟩
  . obtain ⟨rfl, rfl, hrun, hkeys, -⟩ := hdivision
    obtain ⟨old, hold⟩ := List.exists_mem_of_ne_nil run hrun
    have hkey := List.mem_map_of_mem (f := Statement.text) hold
    rw [hkeys] at hkey
    obtain ⟨new, hnew, htext⟩ := List.mem_map.1 hkey
    exact absurd htext.symm (h old (by simp [hold]) new (by simp [hnew]))
  . exact hgaps

theorem steps_of_split {isPairable : Statement → Statement → Bool} {olds news : List Statement}
    {run : CommonRun} (h : Alignment.split Statement.text (fun _ => true) olds news = run)
    (hsize : run.size ≠ 0)
    : steps isPairable olds news
        =
      steps isPairable (olds.take run.oldStart) (news.take run.newStart)
        ++ steps isPairable (olds.drop (run.oldStart + run.size))
          (news.drop (run.newStart + run.size)) := by
  subst h
  rw [steps, align, if_neg hsize, List.flatMap_append, List.flatMap_cons]
  rfl

theorem split_of_exchanged {loop loop' one one' other other' item : Statement}
    (hone : one'.text = one.text) (hother : other'.text = other.text)
    (hnodup : [loop.text, loop'.text, one.text, other.text, item.text].Nodup)
    : Alignment.split Statement.text (fun _ => true) [loop, one, other] [loop', other', one', item]
        =
      ⟨1, 2, 1⟩ := by
  simp only [List.nodup_cons, List.mem_cons, List.not_mem_nil, or_false, not_or] at hnodup
  obtain ⟨⟨hloops, hloop, hloop', hitem⟩, ⟨hone', hother', -⟩, ⟨hne, hitem'⟩, hitem'', -⟩ := hnodup
  simp [Alignment.split, Alignment.longestRun, Alignment.longestRun.go, Alignment.runLengths,
    Alignment.firstMax, Alignment.extend, Alignment.sharedFront, hone, hother, hloops, hloop,
    hloop', hitem, hitem', hitem'', hne, Ne.symm hne, Ne.symm hone', Ne.symm hother']

theorem moves_of_pulled {old new pulled added inner : Fragment} {place target : Place}
    (htext : new.text = old.text) (hpulled : pulled.text = added.text) (hplace : place ≠ target)
    : (resolution [⟨old, place, [pulled]⟩]
        [⟨new, target, [inner]⟩, ⟨added, target, []⟩]).moves
        =
      [⟨.statementParentChange, old, new⟩, ⟨.statementParentChange, pulled, added⟩] := by
  have hvanished : vanished [⟨old, place, [pulled]⟩] [⟨new, target, [inner]⟩, ⟨added, target, []⟩]
      = ([(⟨old, place, [pulled]⟩, some ⟨new, target⟩)], [⟨added, target⟩, ⟨inner, none⟩]) :=
    @firstFit_cons_of_fits _ _
      (fun (stray : Stray) (landing : Landing) => decide (landing.head.text = stray.head.text))
      _ ⟨new, target⟩ (decide_eq_true htext) [] [⟨added, target⟩, ⟨inner, none⟩]
  have harrived : arrived [⟨old, place, [pulled]⟩] [⟨new, target, [inner]⟩, ⟨added, target, []⟩]
      = ([(⟨added, target⟩, some pulled)], []) := by
    rw [arrived, hvanished]
    exact @firstFit_cons_of_fits _ _
      (fun (landing : Landing) (head : Fragment) => decide (head.text = landing.head.text))
      ⟨added, target⟩ _ (decide_eq_true hpulled) [] []
  have hkind : moveKind ⟨old, place, [pulled]⟩ ⟨new, target⟩ = .statementParentChange :=
    if_neg fun h => hplace (Option.some.inj h).symm
  rw [Resolution.moves, resolution, hvanished, harrived, ← hkind]
  rfl

theorem moves_of_landed {old new call call' pulled inner : Fragment} {place target : Place}
    (htext : new.text = old.text) (hcall : call'.text = call.text) (hne : call.text ≠ old.text)
    (hplace : place ≠ target)
    : (resolution [⟨old, place, [pulled]⟩, ⟨call, target, []⟩]
        [⟨call', target, []⟩, ⟨new, target, [inner]⟩]).moves
        =
      [⟨.statementParentChange, old, new⟩, ⟨.statementOrderingChange, call, call'⟩] := by
  have hvanished : vanished [⟨old, place, [pulled]⟩, ⟨call, target, []⟩]
      [⟨call', target, []⟩, ⟨new, target, [inner]⟩]
      = ([(⟨old, place, [pulled]⟩, some ⟨new, target⟩), (⟨call, target, []⟩, some ⟨call', target⟩)],
        [⟨inner, none⟩]) := by
    simp [vanished, landings, firstFit, htext, hcall, hne]
  have harrived : arrived [⟨old, place, [pulled]⟩, ⟨call, target, []⟩]
      [⟨call', target, []⟩, ⟨new, target, [inner]⟩] = ([], [pulled]) := by
    rw [arrived, hvanished]
    rfl
  have hparent : moveKind ⟨old, place, [pulled]⟩ ⟨new, target⟩ = .statementParentChange :=
    if_neg fun h => hplace (Option.some.inj h).symm
  have hordering : moveKind ⟨call, target, []⟩ ⟨call', target⟩ = .statementOrderingChange :=
    if_pos rfl
  rw [Resolution.moves, resolution, hvanished, harrived, ← hparent, ← hordering]
  rfl

end BodyDiff

namespace Sample

theorem texts_of_loops
    : (Fragment.ofNode (callAt "f();" 0)).text = "f();"
      ∧ (Fragment.ofNode (conditionalFrom 0)).text = "if (a) \x7b f(); \x7d"
      ∧ (Fragment.ofNode emptyLoop).text = "while (b) \x7b \x7d"
      ∧ (Fragment.ofNode fullLoop).text = "while (b) \x7b if (a) \x7b f(); \x7d \x7d" := by
  decide +kernel

theorem headings_of_loops
    : fullLoop.normalChildText "condition" = emptyLoop.normalChildText "condition"
      ∧ fullLoop.header .bodied = emptyLoop.header .bodied := by
  decide +kernel

theorem text_callAt (start : Nat) : (Statement.ofNode (callAt "f();" start)).text = "f();" := by
  rw [ofNode_callAt]
  exact texts_of_loops.1

theorem text_conditionalFrom (start : Nat)
    : (Statement.ofNode (conditionalFrom start)).text = "if (a) \x7b f(); \x7d" := by
  rw [ofNode_conditionalFrom]
  exact texts_of_loops.2.1

theorem text_fullLoop
    : (Statement.ofNode fullLoop).text = "while (b) \x7b if (a) \x7b f(); \x7d \x7d" :=
  (Statement.text_ofNode _).trans texts_of_loops.2.2.2

theorem text_emptyLoop : (Statement.ofNode emptyLoop).text = "while (b) \x7b \x7d" :=
  (Statement.text_ofNode _).trans texts_of_loops.2.2.1

theorem nested_conditionalFrom (start : Nat)
    : (Statement.ofNode (conditionalFrom start)).nested
        =
      [.ofNode (callAt "f();" (start + 9))] := by
  rw [ofNode_conditionalFrom, Statement.nested_compound, List.flatMap_singleton,
    ofNode_callAt, Statement.fragments, List.flatMap_singleton, Statement.nested_of_leaf rfl]
  rfl

theorem stray_callAt (place : Place) (text : String) (start : Nat)
    : Stray.ofStatement place (Statement.ofNode (callAt text start))
        =
      ⟨.ofNode (callAt text start), place, []⟩ := by
  rw [ofNode_callAt, Stray.ofStatement, Statement.nested_of_leaf rfl]
  rfl

theorem stray_conditionalFrom (place : Place) (start : Nat)
    : Stray.ofStatement place (Statement.ofNode (conditionalFrom start))
        =
      ⟨.ofNode (conditionalFrom start), place, [.ofNode (callAt "f();" (start + 9))]⟩ := by
  rw [Stray.ofStatement, nested_conditionalFrom, ofNode_conditionalFrom]
  rfl

theorem ofNode_fullLoop
    : Statement.ofNode fullLoop
        =
      .compound (.ofNode fullLoop) (emptyLoop.normalChildText "condition")
        (emptyLoop.header .bodied)
        [⟨"body", .ofNode (spanned "block" "body" 12 "\x7b if (a) \x7b f(); \x7d \x7d"
          [conditionalFrom 14]), [Statement.ofNode (conditionalFrom 14)]⟩]
        none := by
  rw [← headings_of_loops.1, ← headings_of_loops.2]
  exact ofNode_loopWith _ _ (.inr ⟨14, rfl⟩)

theorem ofNode_emptyLoop
    : Statement.ofNode emptyLoop
        =
      .compound (.ofNode emptyLoop) (emptyLoop.normalChildText "condition")
        (emptyLoop.header .bodied)
        [⟨"body", .ofNode (spanned "block" "body" 12 "\x7b \x7d" []), []⟩]
        none :=
  ofNode_loopWith _ _ (.inl rfl)

theorem pair_loops (threshold : Float) (place : Place)
    : BodyDiff.pair threshold (Statement.ofNode fullLoop) (Statement.ofNode emptyLoop) place
        =
      .delete (.ofStatement ((place.within (.ofNode emptyLoop)).inRole "body")
        (Statement.ofNode (conditionalFrom 14))) := by
  have hinner (place : Place) : BodyDiff.lists threshold [Statement.ofNode (conditionalFrom 14)] []
      place = .delete (.ofStatement place (Statement.ofNode (conditionalFrom 14))) := by
    rw [BodyDiff.lists_eq, BodyDiff.steps_of_disjoint (by simp), BodyDiff.gapSteps_drop]
    rfl
  rw [ofNode_fullLoop, ofNode_emptyLoop, BodyDiff.pair_compound, BodyDiff.heading_self,
    Findings.nothing_append]
  change Findings.join [BodyDiff.lists threshold [Statement.ofNode (conditionalFrom 14)] [] _] ++ _
    = _
  rw [hinner]
  rfl

theorem isPairable_loops (threshold : Float)
    : BodyDiff.isPairable threshold (Statement.ofNode fullLoop) (Statement.ofNode emptyLoop) := by
  rw [BodyDiff.isPairable, ofNode_fullLoop, ofNode_emptyLoop, Bool.and_eq_true]
  exact ⟨decide_eq_true rfl, rfl⟩

theorem lists_conditional (threshold : Float)
    : BodyDiff.lists threshold (Statement.ofBody (some conditionalInLoop))
        (Statement.ofBody (some conditionalBehindLoop)) .body
        =
      ⟨[], [.ofStatement ((Place.body.within (.ofNode emptyLoop)).inRole "body")
          (Statement.ofNode (conditionalFrom 14))],
        [.ofStatement .body (Statement.ofNode (conditionalFrom 16)),
          .ofStatement .body (Statement.ofNode (callAt "f();" 32))]⟩ := by
  have htexts : ∀ old ∈ [Statement.ofNode fullLoop], ∀ new ∈ [Statement.ofNode emptyLoop,
      Statement.ofNode (conditionalFrom 16), Statement.ofNode (callAt "f();" 32)],
      old.text ≠ new.text := by
    rw [List.forall_mem_singleton, List.forall_mem_cons, List.forall_mem_cons,
      List.forall_mem_singleton, text_fullLoop, text_emptyLoop, text_conditionalFrom, text_callAt]
    decide
  have hgap : BodyDiff.gapSteps (BodyDiff.isPairable threshold) [Statement.ofNode fullLoop]
      [Statement.ofNode emptyLoop, Statement.ofNode (conditionalFrom 16),
        Statement.ofNode (callAt "f();" 32)]
      = [.pair (Statement.ofNode fullLoop) (Statement.ofNode emptyLoop),
        .add (Statement.ofNode (conditionalFrom 16)),
        .add (Statement.ofNode (callAt "f();" 32))] := by
    simp [BodyDiff.gapSteps, BodyDiff.pairUp, isPairable_loops]
  rw [ofBody_conditionalInLoop, ofBody_conditionalBehindLoop, BodyDiff.lists_eq,
    BodyDiff.steps_of_disjoint htexts, hgap]
  change Findings.join [BodyDiff.pair threshold _ _ .body, .insert _, .insert _] = _
  rw [pair_loops]
  rfl

theorem moves_conditional (threshold : Float)
    : (BodyDiff.outcome threshold (Statement.ofBody (some conditionalInLoop))
        (Statement.ofBody (some conditionalBehindLoop))).moves
        =
      [⟨.statementParentChange, .ofNode (conditionalFrom 14), .ofNode (conditionalFrom 16)⟩,
        ⟨.statementParentChange, .ofNode (callAt "f();" 23), .ofNode (callAt "f();" 32)⟩] := by
  have hplace : (Place.body.within (.ofNode emptyLoop)).inRole "body" ≠ Place.body := by
    decide +kernel
  rw [BodyDiff.outcome, lists_conditional, stray_conditionalFrom, stray_conditionalFrom,
    stray_callAt]
  exact BodyDiff.moves_of_pulled rfl rfl hplace

theorem enclosures_callAt (text : String) (start : Nat)
    : (Statement.ofNode (callAt text start)).enclosures
        =
      Enclosure.around (.ofNode (callAt text start)) [] := by
  rw [ofNode_callAt]
  exact Statement.enclosures_of_leaf rfl

theorem enclosures_conditionalFrom (start : Nat)
    : (Statement.ofNode (conditionalFrom start)).enclosures
        =
      Enclosure.around (.ofNode (conditionalFrom start))
        (Enclosure.around (.ofNode (callAt "f();" (start + 9))) []) := by
  rw [ofNode_conditionalFrom, Statement.enclosures_compound, List.flatMap_singleton]
  change Enclosure.around _ ((enclosures [Statement.ofNode (callAt "f();" (start + 9))]) ++ []) = _
  rw [enclosures, List.flatMap_singleton, enclosures_callAt]
  rfl

theorem enclosures_conditionalInLoop
    : enclosures (Statement.ofBody (some conditionalInLoop))
        =
      Enclosure.around (.ofNode fullLoop)
        (Enclosure.around (.ofNode (conditionalFrom 14))
          (Enclosure.around (.ofNode (callAt "f();" 23)) [])) := by
  rw [ofBody_conditionalInLoop, enclosures, List.flatMap_singleton, ofNode_fullLoop,
    Statement.enclosures_compound, List.flatMap_singleton]
  change Enclosure.around _ ((enclosures [Statement.ofNode (conditionalFrom 14)]) ++ []) = _
  rw [enclosures, List.flatMap_singleton, enclosures_conditionalFrom]
  rfl

/-! A conditional that leaves a loop, in front of two calls that change places -/

def loopBeforeCalls : Node :=
  spanned "block" "body" 0
    "\x7b while (b) \x7b if (a) \x7b f(); \x7d \x7d g(); h(); \x7d"
    [fullLoop, callAt "g();" 32, callAt "h();" 37]

def callsExchanged : Node :=
  spanned "block" "body" 0
    "\x7b while (b) \x7b \x7d h(); g(); if (a) \x7b f(); \x7d \x7d"
    [emptyLoop, callAt "h();" 16, callAt "g();" 21, conditionalFrom 26]

theorem ofBody_loopBeforeCalls
    : Statement.ofBody (some loopBeforeCalls)
        =
      [Statement.ofNode fullLoop, Statement.ofNode (callAt "g();" 32),
        Statement.ofNode (callAt "h();" 37)] := by
  rfl

theorem ofBody_callsExchanged
    : Statement.ofBody (some callsExchanged)
        =
      [Statement.ofNode emptyLoop, Statement.ofNode (callAt "h();" 16),
        Statement.ofNode (callAt "g();" 21), Statement.ofNode (conditionalFrom 26)] := by
  rfl

theorem texts_of_calls
    : (Fragment.ofNode (callAt "g();" 0)).text = "g();"
      ∧ (Fragment.ofNode (callAt "h();" 0)).text = "h();" := by
  decide +kernel

theorem text_exchanged (start : Nat)
    : (Statement.ofNode (callAt "g();" start)).text = "g();"
      ∧ (Statement.ofNode (callAt "h();" start)).text = "h();" := by
  rw [ofNode_callAt, ofNode_callAt]
  exact texts_of_calls

theorem steps_exchanged (threshold : Float)
    : BodyDiff.steps (BodyDiff.isPairable threshold) (Statement.ofBody (some loopBeforeCalls))
        (Statement.ofBody (some callsExchanged))
        =
      [.pair (Statement.ofNode fullLoop) (Statement.ofNode emptyLoop),
        .add (Statement.ofNode (callAt "h();" 16)), .drop (Statement.ofNode (callAt "h();" 37)),
        .add (Statement.ofNode (conditionalFrom 26))] := by
  have hnodup : [(Statement.ofNode fullLoop).text, (Statement.ofNode emptyLoop).text,
      (Statement.ofNode (callAt "g();" 32)).text, (Statement.ofNode (callAt "h();" 37)).text,
      (Statement.ofNode (conditionalFrom 26)).text].Nodup := by
    rw [text_fullLoop, text_emptyLoop, (text_exchanged 32).1, (text_exchanged 37).2,
      text_conditionalFrom]
    decide
  have hsplit := @BodyDiff.split_of_exchanged _ _ _ (Statement.ofNode (callAt "g();" 21)) _
    (Statement.ofNode (callAt "h();" 16)) _
    ((text_exchanged 21).1.trans (text_exchanged 32).1.symm)
    ((text_exchanged 16).2.trans (text_exchanged 37).2.symm) hnodup
  have hunpairable : BodyDiff.isPairable threshold (Statement.ofNode (callAt "h();" 37))
      (Statement.ofNode (conditionalFrom 26)) = false := by
    rw [BodyDiff.isPairable, ofNode_callAt, ofNode_conditionalFrom]
    rfl
  rw [ofBody_loopBeforeCalls, ofBody_callsExchanged,
    BodyDiff.steps_of_split hsplit Nat.one_ne_zero]
  change BodyDiff.steps _ [Statement.ofNode fullLoop] [Statement.ofNode emptyLoop,
      Statement.ofNode (callAt "h();" 16)]
    ++ BodyDiff.steps _ [Statement.ofNode (callAt "h();" 37)]
      [Statement.ofNode (conditionalFrom 26)] = _
  rw [BodyDiff.steps_of_disjoint, BodyDiff.steps_of_disjoint, BodyDiff.gapSteps_singleton,
    if_neg (by simp [hunpairable])]
  . simp [BodyDiff.gapSteps, BodyDiff.pairUp, isPairable_loops]
  . rw [List.forall_mem_singleton, List.forall_mem_singleton, (text_exchanged 37).2,
      text_conditionalFrom]
    decide
  . rw [List.forall_mem_singleton, List.forall_mem_cons, List.forall_mem_singleton, text_fullLoop,
      text_emptyLoop, (text_exchanged 16).2]
    decide

theorem moves_exchanged (threshold : Float)
    : (BodyDiff.outcome threshold (Statement.ofBody (some loopBeforeCalls))
        (Statement.ofBody (some callsExchanged))).moves
        =
      [⟨.statementParentChange, .ofNode (conditionalFrom 14), .ofNode (conditionalFrom 26)⟩,
        ⟨.statementOrderingChange, .ofNode (callAt "h();" 37), .ofNode (callAt "h();" 16)⟩] := by
  have hlists : BodyDiff.lists threshold (Statement.ofBody (some loopBeforeCalls))
      (Statement.ofBody (some callsExchanged)) .body
      = ⟨[], [.ofStatement ((Place.body.within (.ofNode emptyLoop)).inRole "body")
            (Statement.ofNode (conditionalFrom 14)),
          .ofStatement .body (Statement.ofNode (callAt "h();" 37))],
        [.ofStatement .body (Statement.ofNode (callAt "h();" 16)),
          .ofStatement .body (Statement.ofNode (conditionalFrom 26))]⟩ := by
    rw [BodyDiff.lists_eq, steps_exchanged]
    change Findings.join [BodyDiff.pair threshold _ _ .body, .insert _, .delete _, .insert _] = _
    rw [pair_loops]
    rfl
  have hplace : (Place.body.within (.ofNode emptyLoop)).inRole "body" ≠ Place.body := by
    decide +kernel
  have hne : (Fragment.ofNode (callAt "h();" 37)).text
      ≠ (Fragment.ofNode (conditionalFrom 14)).text := by
    decide +kernel
  rw [BodyDiff.outcome, hlists, stray_conditionalFrom, stray_conditionalFrom, stray_callAt,
    stray_callAt]
  exact BodyDiff.moves_of_landed rfl rfl hne hplace

theorem texts_loopBeforeCalls
    : (enclosures (Statement.ofBody (some loopBeforeCalls))).map Enclosure.texts
        =
      [("while (b) \x7b if (a) \x7b f(); \x7d \x7d", ["if (a) \x7b f(); \x7d", "f();"]),
        ("if (a) \x7b f(); \x7d", ["f();"]), ("f();", []), ("g();", []), ("h();", [])] := by
  rw [ofBody_loopBeforeCalls, enclosures, List.flatMap_cons, List.flatMap_cons,
    List.flatMap_singleton, ofNode_fullLoop, Statement.enclosures_compound, List.flatMap_singleton]
  change (Enclosure.around _ (enclosures [Statement.ofNode (conditionalFrom 14)] ++ []) ++ _).map _
    = _
  rw [enclosures, List.flatMap_singleton, enclosures_conditionalFrom, enclosures_callAt,
    enclosures_callAt]
  decide +kernel

theorem texts_callsExchanged
    : (enclosures (Statement.ofBody (some callsExchanged))).map Enclosure.texts
        =
      [("while (b) \x7b \x7d", []), ("h();", []), ("g();", []),
        ("if (a) \x7b f(); \x7d", ["f();"]), ("f();", [])] := by
  rw [ofBody_callsExchanged, enclosures, List.flatMap_cons, List.flatMap_cons, List.flatMap_cons,
    List.flatMap_singleton, enclosures_conditionalFrom, enclosures_callAt, enclosures_callAt,
    ofNode_emptyLoop, Statement.enclosures_compound, List.flatMap_singleton]
  decide +kernel

end Sample

theorem standOut_conditional
    : let olds := Statement.ofBody (some Sample.loopBeforeCalls)
      let news := Statement.ofBody (some Sample.callsExchanged)
      let moves : List BodyDiff.Move :=
        [⟨.statementParentChange, .ofNode (Sample.conditionalFrom 14),
            .ofNode (Sample.conditionalFrom 26)⟩,
          ⟨.statementOrderingChange, .ofNode (Sample.callAt "h();" 37),
            .ofNode (Sample.callAt "h();" 16)⟩]
      ((pieces olds).map Fragment.text).Nodup ∧ ((pieces news).map Fragment.text).Nodup
        ∧ AgreeInside olds news ∧ BodyDiff.StandOut olds news moves
        ∧ BodyDiff.AreApart olds news moves := by
  intro olds news moves
  have hold : ((pieces olds).map Fragment.text).Nodup := by
    rw [map_text_pieces, Sample.texts_loopBeforeCalls]
    decide
  have hnew : ((pieces news).map Fragment.text).Nodup := by
    rw [map_text_pieces, Sample.texts_callsExchanged]
    decide
  have hagree : AgreeInside olds news :=
    .of_texts Sample.texts_loopBeforeCalls Sample.texts_callsExchanged (by decide)
  have hstandOut : BodyDiff.StandOut olds news moves := by
    have hmoves := BodyDiff.standOut_moves Thresholds.default.update hold.of_map hnew.of_map
    rwa [Sample.moves_exchanged] at hmoves
  exact ⟨hold, hnew, hagree, hstandOut, hstandOut.distinct hold hnew hagree⟩

/--
Both ends need not stand on their own: a call inside a conditional that moves is a source as well,
if it turns up behind the conditional once more.
-/
theorem not_all_moves_apart
    : ¬ ∀ (threshold : Float) (old new : Node), old.IsSpanned → new.IsSpanned →
        BodyDiff.AreApart (Statement.ofBody (some old)) (Statement.ofBody (some new))
          (BodyDiff.outcome threshold (Statement.ofBody (some old))
            (Statement.ofBody (some new))).moves := by
  intro hall
  have hspanned : Sample.conditionalInLoop.IsSpanned ∧ Sample.conditionalBehindLoop.IsSpanned := by
    decide +kernel
  have hapart := hall Thresholds.default.update _ _ hspanned.1 hspanned.2
  rw [Sample.moves_conditional] at hapart
  apply hapart.sources _ (List.mem_cons_of_mem _ List.mem_cons_self) _ List.mem_cons_self
  rw [IsWithin, Sample.enclosures_conditionalInLoop]
  exact ⟨_, List.mem_cons_of_mem _ List.mem_cons_self, rfl, List.mem_cons_self⟩

end MethodHistory
