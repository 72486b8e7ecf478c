import MethodHistory.Proofs.Diff.Enclosures

/-!
This module contains what becomes of all the statements of two bodies: each is accounted for in the
comparison of its list, and each stray in one event.
-/

namespace MethodHistory

/--
No compound statement of a body has two clauses with one role.
-/
def HasDistinctRoles (body : List Statement) : Prop :=
  ∀ head condition header clauses alternative,
    Inside body (.compound head condition header clauses alternative) →
      (clauses.map Clause.role).Nodup

namespace BodyDiff

/--
Two bodies of which everything is accounted for: the statements and clauses in the comparisons of
their lists, what these drop or add in the strays, and the strays in the events.
-/
structure AreAccountedFor (threshold : Float) (olds news : List Statement) : Prop where
  statements : ∀ {olds' news' place},
    .statements olds' news' place ∈ comparisons threshold olds news .body →
      AreAccounted (isPairable threshold) olds' news'
  clauses : ∀ {olds' news' oldAlternative newAlternative place},
    .parts olds' news' oldAlternative newAlternative place
        ∈ comparisons threshold olds news .body →
      AreAccountedByRole olds' news'
  deleted_perm : (lists threshold olds news .body).deleted.Perm
    ((comparisons threshold olds news .body).flatMap (Comparison.deleted threshold))
  inserted_perm : (lists threshold olds news .body).inserted.Perm
    ((comparisons threshold olds news .body).flatMap (Comparison.inserted threshold))
  inPlace : ∀ edit ∈ (lists threshold olds news .body).edits, edit.IsInPlace
  edits_eq : bodyEdits threshold olds news
    = (lists threshold olds news .body).edits ++ (outcome threshold olds news).edits
  settles : (outcome threshold olds news).Settles (lists threshold olds news .body).deleted
    (lists threshold olds news .body).inserted
  move_text : ∀ move ∈ (outcome threshold olds news).moves, move.source.text = move.target.text
  sources : ((outcome threshold olds news).moves.map Move.source).Subperm (pieces olds)
  targets : ((outcome threshold olds news).moves.map Move.target).Subperm (pieces news)

end BodyDiff

theorem areAccountedFor_bodies (threshold : Float) {old new : Option Node}
    (hold : HasDistinctRoles (Statement.ofBody old))
    (hnew : HasDistinctRoles (Statement.ofBody new))
    : BodyDiff.AreAccountedFor threshold (Statement.ofBody old) (Statement.ofBody new) := by
  have hgathers := BodyDiff.gathers_lists threshold (Statement.ofBody old) (Statement.ofBody new)
    .body
  have hcome := comeFrom_bodies threshold old new
  constructor
  . intro olds' news' place _
    exact BodyDiff.areAccounted_lists threshold olds' news'
  . intro olds' news' oldAlternative newAlternative place hmem
    obtain ⟨_, _, _, _, _, _, hinside, hinside'⟩ :=
      BodyDiff.isOf_of_mem_comparisons (fun _ => .here) (fun _ => .here) _ hmem
    exact BodyDiff.areAccountedByRole (hold _ _ _ _ _ hinside) (hnew _ _ _ _ _ hinside')
  . exact hgathers.deleted
  . exact hgathers.inserted
  . exact hgathers.edits
  . exact bodyEdits_eq_outcome threshold _ _
  . exact BodyDiff.settles_resolution _ _
  . exact fun move => BodyDiff.text_eq_of_mem_moves _ _
  . exact (BodyDiff.subperm_sources _ _).trans hcome.deleted.subperm
  . exact (BodyDiff.subperm_targets _ _).trans hcome.inserted.subperm

namespace HasDistinctRoles

theorem inside_cases {body : List Statement} {statement : Statement} (h : Inside body statement)
    : statement ∈ body
        ∨ ∃ head condition header clauses alternative,
          .compound head condition header clauses alternative ∈ body
            ∧ ∃ clause, (clause ∈ clauses ∨ clause ∈ alternative)
              ∧ Inside clause.body statement := by
  induction h with
  | here h => exact .inl h
  | clause _ hclause hstatement ih =>
    right
    rcases ih with h | ⟨_, _, _, _, _, h, part, hpart, hinside⟩
    . exact ⟨_, _, _, _, _, h, _, .inl hclause, .here hstatement⟩
    . exact ⟨_, _, _, _, _, h, part, hpart, .clause hinside hclause hstatement⟩
  | alternative _ hclause hstatement ih =>
    right
    rcases ih with h | ⟨_, _, _, _, _, h, part, hpart, hinside⟩
    . exact ⟨_, _, _, _, _, h, _, .inr hclause, .here hstatement⟩
    . exact ⟨_, _, _, _, _, h, part, hpart, .alternative hinside hclause hstatement⟩

theorem of_single_clauses {body : List Statement}
    (h : ∀ statement ∈ body, statement.isCompound = false
      ∨ ∃ head condition header clause,
        statement = .compound head condition header [clause] none ∧ HasDistinctRoles clause.body)
    : HasDistinctRoles body := by
  intro head condition header clauses alternative hinside
  rcases inside_cases hinside with hmem | ⟨_, _, _, _, _, hmem, clause, hclause, hdeeper⟩
  . rcases h _ hmem with hleaf | ⟨_, _, _, _, heq, -⟩
    . contradiction
    . cases heq
      exact List.nodup_singleton _
  . rcases h _ hmem with hleaf | ⟨_, _, _, _, heq, hbody⟩
    . contradiction
    . cases heq
      rcases hclause with hclause | hclause
      . rw [List.mem_singleton.1 hclause] at hdeeper
        exact hbody _ _ _ _ _ hdeeper
      . contradiction

end HasDistinctRoles

namespace Sample

def callAt (text : String) (start : Nat) : Node :=
  spanned "expression_statement" "" start text []

def branchAt (field text : String) (start : Nat) (call : Node) : Node :=
  spanned "block" field start text [call]

def conditionalAt (text : String) (start : Nat) (branches : List Node) : Node :=
  spanned "if_statement" "" start text
    (spanned "parenthesized_expression" "condition" (start + 3) "(a)" [] :: branches)

def branchFrom (start : Nat) : Node :=
  branchAt "consequence" "\x7b f(); \x7d" start (callAt "f();" (start + 2))

def conditionalFrom (start : Nat) : Node :=
  conditionalAt "if (a) \x7b f(); \x7d" start [branchFrom (start + 7)]

def loopWith (text branch : String) (statements : List Node) : Node :=
  spanned "while_statement" "" 2 text
    [spanned "parenthesized_expression" "condition" 8 "(b)" [],
      spanned "block" "body" 12 branch statements]

def fullLoop : Node :=
  loopWith "while (b) \x7b if (a) \x7b f(); \x7d \x7d" "\x7b if (a) \x7b f(); \x7d \x7d"
    [conditionalFrom 14]

def emptyLoop : Node :=
  loopWith "while (b) \x7b \x7d" "\x7b \x7d" []

def conditionalInLoop : Node :=
  spanned "block" "body" 0 "\x7b while (b) \x7b if (a) \x7b f(); \x7d \x7d \x7d" [fullLoop]

def conditionalBehindLoop : Node :=
  spanned "block" "body" 0 "\x7b while (b) \x7b \x7d if (a) \x7b f(); \x7d f(); \x7d"
    [emptyLoop, conditionalFrom 16, callAt "f();" 32]

theorem ofBody_conditionalInLoop
    : Statement.ofBody (some conditionalInLoop) = [Statement.ofNode fullLoop] := by
  rfl

theorem ofBody_conditionalBehindLoop
    : Statement.ofBody (some conditionalBehindLoop)
        =
      [Statement.ofNode emptyLoop, Statement.ofNode (conditionalFrom 16),
        Statement.ofNode (callAt "f();" 32)] := by
  rfl

theorem ofNode_callAt (text : String) (start : Nat)
    : Statement.ofNode (callAt text start) = .leaf (.ofNode (callAt text start)) :=
  Statement.ofNode_leaf rfl

theorem ofNode_conditionalFrom (start : Nat)
    : Statement.ofNode (conditionalFrom start)
        =
      .compound (.ofNode (conditionalFrom start))
        ((conditionalFrom start).normalChildText "condition")
        ((conditionalFrom start).header .conditional)
        [⟨"then", .ofNode (branchFrom (start + 7)), [Statement.ofNode (callAt "f();" (start + 9))]⟩]
        none := by
  have hkind : Layout.ofKind? (conditionalFrom start).kind = some .conditional := by
    rfl
  rw [Statement.ofNode_compound hkind]
  rfl

theorem ofNode_loopWith (text branch : String) {statements : List Node}
    (h : statements = [] ∨ ∃ start, statements = [conditionalFrom start])
    : Statement.ofNode (loopWith text branch statements)
        =
      .compound (.ofNode (loopWith text branch statements))
        ((loopWith text branch statements).normalChildText "condition")
        ((loopWith text branch statements).header .bodied)
        [⟨"body", .ofNode (spanned "block" "body" 12 branch statements),
          statements.map Statement.ofNode⟩]
        none := by
  have hkind : Layout.ofKind? (loopWith text branch statements).kind = some .bodied := by
    rfl
  rw [Statement.ofNode_compound hkind]
  rcases h with rfl | ⟨start, rfl⟩ <;> rfl

theorem hasDistinctRoles_callAt (text : String) (start : Nat)
    : HasDistinctRoles [Statement.ofNode (callAt text start)] := by
  apply HasDistinctRoles.of_single_clauses
  rw [List.forall_mem_singleton, ofNode_callAt]
  exact .inl rfl

theorem hasDistinctRoles_conditionalFrom (start : Nat)
    : HasDistinctRoles [Statement.ofNode (conditionalFrom start)] := by
  apply HasDistinctRoles.of_single_clauses
  rw [List.forall_mem_singleton]
  exact .inr ⟨_, _, _, _, ofNode_conditionalFrom start, hasDistinctRoles_callAt _ _⟩

theorem hasDistinctRoles_conditionalInLoop
    : HasDistinctRoles (Statement.ofBody (some conditionalInLoop)) := by
  apply HasDistinctRoles.of_single_clauses
  rw [ofBody_conditionalInLoop, List.forall_mem_singleton]
  exact .inr ⟨_, _, _, _, ofNode_loopWith _ _ (.inr ⟨14, rfl⟩), hasDistinctRoles_conditionalFrom 14⟩

theorem hasDistinctRoles_conditionalBehindLoop
    : HasDistinctRoles (Statement.ofBody (some conditionalBehindLoop)) := by
  apply HasDistinctRoles.of_single_clauses
  rw [ofBody_conditionalBehindLoop, List.forall_mem_cons, List.forall_mem_cons,
    List.forall_mem_singleton]
  refine ⟨.inr ⟨_, _, _, _, ofNode_loopWith _ _ (.inl rfl), ?_⟩, ?_, ?_⟩
  . exact HasDistinctRoles.of_single_clauses (List.forall_mem_nil _)
  . exact .inr ⟨_, _, _, _, ofNode_conditionalFrom 16, hasDistinctRoles_callAt _ _⟩
  . rw [ofNode_callAt]
    exact .inl rfl

end Sample

theorem areAccountedFor_conditional
    : HasDistinctRoles (Statement.ofBody (some Sample.conditionalInLoop))
      ∧ HasDistinctRoles (Statement.ofBody (some Sample.conditionalBehindLoop))
      ∧ BodyDiff.AreAccountedFor Thresholds.default.update
          (Statement.ofBody (some Sample.conditionalInLoop))
          (Statement.ofBody (some Sample.conditionalBehindLoop)) := by
  have hold := Sample.hasDistinctRoles_conditionalInLoop
  have hnew := Sample.hasDistinctRoles_conditionalBehindLoop
  exact ⟨hold, hnew, areAccountedFor_bodies _ hold hnew⟩

end MethodHistory
