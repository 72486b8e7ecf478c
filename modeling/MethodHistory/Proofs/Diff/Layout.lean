import MethodHistory.Proofs.Diff.Matching

/-!
This module contains that nothing is reported of a file that only has another layout. Its methods
must not share a signature: a constructor and a method can, and are then taken for each other.
-/

namespace MethodHistory

namespace Table

variable {α κ : Type} [DecidableEq κ] {key : α → κ}

theorem exists_mem_put_self (x : α) (ys : List α) : ∃ y ∈ put key x ys, key y = key x := by
  induction ys with
  | nil => exact ⟨x, List.mem_cons_self, rfl⟩
  | cons y ys ih =>
    rw [put]
    split
    next => exact ⟨x, List.mem_cons_self, rfl⟩
    next =>
      obtain ⟨z, hz, hkey⟩ := ih
      exact ⟨z, List.mem_cons_of_mem _ hz, hkey⟩

theorem exists_mem_put {k : κ} {ys : List α} (h : ∃ y ∈ ys, key y = k) (x : α)
    : ∃ y ∈ put key x ys, key y = k := by
  induction ys with
  | nil =>
    obtain ⟨_, hy, _⟩ := h
    contradiction
  | cons y ys ih =>
    obtain ⟨z, hz, rfl⟩ := h
    rw [put]
    split
    next hkey =>
      rcases List.mem_cons.1 hz with rfl | hz
      . exact ⟨x, List.mem_cons_self, hkey.symm⟩
      . exact ⟨z, List.mem_cons_of_mem _ hz, rfl⟩
    next =>
      rcases List.mem_cons.1 hz with rfl | hz
      . exact ⟨z, List.mem_cons_self, rfl⟩
      . obtain ⟨w, hw, hkey⟩ := ih ⟨z, hz, rfl⟩
        exact ⟨w, List.mem_cons_of_mem _ hw, hkey⟩

theorem exists_mem_latest {xs : List α} {x : α} (h : x ∈ xs)
    : ∃ y ∈ latest key xs, key y = key x := by
  have hfold : ∀ (xs table : List α), x ∈ xs ∨ (∃ y ∈ table, key y = key x) →
      ∃ y ∈ xs.foldl (fun table x => put key x table) table, key y = key x := by
    intro xs
    induction xs with
    | nil =>
      intro table h
      exact h.resolve_left List.not_mem_nil
    | cons z zs ih =>
      intro table h
      apply ih
      rcases h with h | h
      . rcases List.mem_cons.1 h with rfl | h
        . exact .inr (exists_mem_put_self x table)
        . exact .inl h
      . exact .inr (exists_mem_put h z)
  exact hfold xs [] (.inl h)

theorem exists_mem_latest_of_map_eq {xs ys : List α} (h : xs.map key = ys.map key) {x : α}
    (hx : x ∈ latest key xs) : ∃ y ∈ latest key ys, key y = key x := by
  have hkey : key x ∈ ys.map key := by
    rw [← h]
    exact List.mem_map_of_mem (mem_of_mem_latest hx)
  obtain ⟨y, hy, hyx⟩ := List.mem_map.1 hkey
  rw [← hyx]
  exact exists_mem_latest hy

end Table

theorem exists_getElem?_of_forall₂ {α β : Type} {r : α → β → Prop} {as : List α} {bs : List β}
    (h : List.Forall₂ r as bs) {i : Nat} {b : β} (hb : bs[i]? = some b)
    : ∃ a, as[i]? = some a ∧ r a b := by
  induction h generalizing i with
  | nil => cases hb
  | cons hab _ ih =>
    cases i with
    | zero =>
      cases hb
      exact ⟨_, rfl, hab⟩
    | succ i => exact ih hb

theorem Placed.isSole_of_nodup {methods : List Method} (h : (methods.map Method.signature).Nodup)
    {x : Placed} (hx : x ∈ all methods) : x.IsSole x.method.signature methods := by
  refine ⟨hx, rfl, ?_⟩
  intro y hy hsignature
  have hmap : (all methods).map (·.method.signature) = methods.map Method.signature := by
    conv_rhs => rw [← map_method_all methods, List.map_map]
    rfl
  rw [← hmap] at h
  exact List.inj_on_of_nodup_map h hy hx hsignature

namespace FileDiff

theorem filter_latest_eq_nil {α κ : Type} [DecidableEq κ] {key : α → κ} {xs ys : List α}
    (h : xs.map key = ys.map key)
    : (Table.latest key xs).filter (fun x => (Table.latest key ys).all fun y => key y ≠ key x)
        =
      [] := by
  rw [List.filter_eq_nil_iff]
  intro x hx hall
  obtain ⟨y, hy, hkey⟩ := Table.exists_mem_latest_of_map_eq h hx
  exact of_decide_eq_true (List.all_eq_true.1 hall y hy) hkey

theorem typeChanges_of_map_name_eq {olds news : List TypeDeclaration}
    (h : olds.map TypeDeclaration.name = news.map TypeDeclaration.name)
    : typeChanges olds news = [] := by
  rw [typeChanges]
  rw [filter_latest_eq_nil h, filter_latest_eq_nil h.symm]
  rfl

theorem fieldChanges_of_map_fieldKey_eq {olds news : List FieldDeclaration}
    (h : olds.map fieldKey = news.map fieldKey) : fieldChanges olds news = [] := by
  rw [fieldChanges]
  rw [filter_latest_eq_nil h, filter_latest_eq_nil h.symm]
  rfl

theorem methodChanges_of_corresponds (thresholds : Thresholds) {olds news : List Method}
    (h : List.Forall₂ Method.Corresponds olds news)
    (hparameters : ∀ method ∈ news, (method.parameters.map Parameter.name).Nodup)
    (hsignatures : (news.map Method.signature).Nodup)
    : methodChanges thresholds olds news = [] := by
  have hmap := map_eq_of_forall₂ h fun _ _ hmethod => hmethod.signature_eq
  have hpartners : ∀ new ∈ Placed.all news, ∃ old : Placed, old.place = new.place
      ∧ old.IsSole new.method.signature olds ∧ old.method.Alike new.method := by
    intro new hnew
    obtain ⟨method, hmethod, hcorresponds⟩ :=
      exists_getElem?_of_forall₂ h (Placed.mem_all.1 hnew)
    have hold : ⟨method, new.place⟩ ∈ Placed.all olds := Placed.mem_all.2 hmethod
    refine ⟨⟨method, new.place⟩, rfl, ?_, hcorresponds.alike (hparameters _ ?_)⟩
    . rw [← hcorresponds.signature_eq]
      exact Placed.isSole_of_nodup (hmap ▸ hsignatures) hold
    . exact List.mem_of_getElem? (Placed.mem_all.1 hnew)
  have hnews : (Placed.all news).flatMap (methodChange thresholds.update
      (methodMatching thresholds.rename olds news) olds) = [] := by
    rw [List.flatMap_eq_nil_iff]
    intro new hnew
    obtain ⟨old, -, hold, halike⟩ := hpartners new hnew
    exact methodChange_of_alike thresholds hold (Placed.isSole_of_nodup hsignatures hnew) halike
  have holds : Matching.freeOlds (methodMatching thresholds.rename olds news) (Placed.all olds)
      = [] := by
    rw [Matching.freeOlds, List.filter_eq_nil_iff]
    intro old hold hfree
    obtain ⟨method, hmethod, -⟩ := exists_getElem?_of_forall₂ h.flip (Placed.mem_all.1 hold)
    have hnew : ⟨method, old.place⟩ ∈ Placed.all news := Placed.mem_all.2 hmethod
    obtain ⟨partner, hplace, hpartner, -⟩ := hpartners _ hnew
    have hfound := Matching.find?_methodMatching thresholds.rename hpartner
      (Placed.isSole_of_nodup hsignatures hnew)
    have htaken := List.all_eq_true.1 hfree _ (List.mem_of_find?_eq_some hfound)
    exact of_decide_eq_true htaken hplace
  rw [methodChanges, hnews, holds]
  rfl

end FileDiff

/--
A new layout of a file is no change, unless two parameters of a method share a name or two methods
share a signature.
-/
theorem fileChanges_of_reformatted (thresholds : Thresholds) {old new : Node}
    (h : old.Reformatted new) (hold : old.IsFlush) (hnew : new.IsFlush)
    (hparameters : ∀ method ∈ new.methods, (method.parameters.map Parameter.name).Nodup)
    (hsignatures : (new.methods.map Method.signature).Nodup)
    : fileChanges thresholds old new = [] := by
  have hcorresponds : old.Corresponds new := ⟨h, hold, hnew⟩
  have htypes := map_eq_of_forall₂ hcorresponds.types fun _ _ htype => htype.name_eq
  rw [fileChanges, FileDiff.typeChanges_of_map_name_eq htypes,
    FileDiff.fieldChanges_of_map_fieldKey_eq hcorresponds.map_fieldKey,
    FileDiff.methodChanges_of_corresponds thresholds hcorresponds.methods hparameters hsignatures]
  rfl

theorem Node.reformatted_refl (node : Node) : node.Reformatted node := by
  refine .mk rfl rfl rfl rfl (fun _ => rfl) ?_
  rw [List.forall₂_same]
  intro child hchild
  exact child.reformatted_refl
termination_by node
decreasing_by exact sizeOf_lt_of_mem_children hchild

/-! A class with a constructor, in two layouts and next to a method with the same signature -/

namespace Sample

def parametersOf (blanks : String) : Part :=
  branch blanks "formal_parameters" "parameters" [token "(",
    branch blanks "formal_parameter" ""
      [word "integral_type" "type" "int", word "identifier" "name" "x"], token ")"]

def declarationOf (blanks kind bodyKind : String) (type : List Part) (statement : Part) : Part :=
  branch blanks kind "" (type ++ [word "identifier" "name" "A", parametersOf blanks,
    branch blanks bodyKind "body" [token "\x7b", statement, token "\x7d"]])

def constructorOf (blanks : String) : Part :=
  declarationOf blanks "constructor_declaration" "constructor_body" []
    (word "expression_statement" "" "f();")

def namesake : Part :=
  declarationOf " " "method_declaration" "block" [word "integral_type" "type" "int"]
    (word "return_statement" "" "return x;")

def constructed (blanks : String) : Node :=
  (fileOf blanks [constructorOf blanks]).2

def overloaded : Node :=
  (fileOf " " [constructorOf " ", namesake]).2

def made : Method :=
  .ofNode "A" .package none (constructorOf " ").2

def returned : Method :=
  .ofNode "A" .package (constructorOf " ").2 namesake.2

theorem reformatted_same (parts : List Part)
    : List.Forall₂ (fun old new : Part => old.2.Reformatted new.2) parts parts := by
  rw [List.forall₂_same]
  intro part _
  exact part.2.reformatted_refl

theorem reformatted_branch {blanks blanks' kind field : String} {olds news : List Part}
    (one other : String) (htext : (branch blanks kind field olds).2.text = one
      ∧ (branch blanks' kind field news).2.text = other
      ∧ Text.normalize one = Text.normalize other) (hfield : field ≠ "name")
    (h : List.Forall₂ (fun old new : Part => old.2.Reformatted new.2) olds news)
    : (branch blanks kind field olds).2.Reformatted (branch blanks' kind field news).2 := by
  obtain ⟨rfl, rfl, htext⟩ := htext
  refine .mk rfl rfl rfl htext (fun hname => absurd hname hfield) ?_
  rw [branch, branch, List.forall₂_map_left_iff, List.forall₂_map_right_iff]
  exact h

theorem reformatted_constructed : (constructed " ").Reformatted (constructed "\n") := by
  have hparameters : (parametersOf " ").2.Reformatted (parametersOf "\n").2 := by
    apply reformatted_branch "( int x )" "(\nint\nx\n)" (by decide +kernel) (by decide)
    refine .cons (Node.reformatted_refl _) (.cons ?_ (reformatted_same _))
    apply reformatted_branch "int x" "int\nx" (by decide +kernel) (by decide)
    apply reformatted_same
  have hconstructor : (constructorOf " ").2.Reformatted (constructorOf "\n").2 := by
    apply reformatted_branch "A ( int x ) \x7b f(); \x7d"
      "A\n(\nint\nx\n)\n\x7b\nf();\n\x7d" (by decide +kernel) (by decide)
    refine .cons (Node.reformatted_refl _) (.cons hparameters (.cons ?_ .nil))
    apply reformatted_branch "\x7b f(); \x7d" "\x7b\nf();\n\x7d" (by decide +kernel) (by decide)
    apply reformatted_same
  -- The class is all of the file, so they have the same text.
  have htext : (constructed " ").text = "class A \x7b A ( int x ) \x7b f(); \x7d \x7d"
      ∧ (constructed "\n").text = "class\nA\n\x7b\nA\n(\nint\nx\n)\n\x7b\nf();\n\x7d\n\x7d"
      ∧ Text.normalize "class A \x7b A ( int x ) \x7b f(); \x7d \x7d"
        = Text.normalize "class\nA\n\x7b\nA\n(\nint\nx\n)\n\x7b\nf();\n\x7d\n\x7d" := by
    decide +kernel
  apply reformatted_branch _ _ htext (by decide)
  refine .cons ?_ .nil
  apply reformatted_branch _ _ (by exact htext) (by decide)
  refine .cons (Node.reformatted_refl _) (.cons (Node.reformatted_refl _) (.cons ?_ .nil))
  apply reformatted_branch "\x7b A ( int x ) \x7b f(); \x7d \x7d"
    "\x7b\nA\n(\nint\nx\n)\n\x7b\nf();\n\x7d\n\x7d" (by decide +kernel) (by decide)
  exact .cons (Node.reformatted_refl _) (.cons hconstructor (reformatted_same _))

theorem isFlush_of_kind {node : Node} (hcomment : node.isComment = false)
    (hparameter : node.isParameter = false) (h : ∀ child ∈ node.children, child.IsFlush)
    : node.IsFlush := by
  constructor
  . intro h
    exact absurd h (Bool.eq_false_iff.1 hcomment)
  . intro h
    exact absurd h (Bool.eq_false_iff.1 hparameter)
  . exact h

theorem isFlush_leaf {part : Part} (hcomment : part.2.isComment = false)
    (hparameter : part.2.isParameter = false) (h : part.2.children = []) : part.2.IsFlush := by
  apply isFlush_of_kind hcomment hparameter
  rw [h]
  exact List.forall_mem_nil _

theorem isFlush_children {parts : List Part} (h : parts.Forall fun part => part.2.IsFlush)
    : ∀ child ∈ parts.map Prod.snd, child.IsFlush := by
  rw [List.forall_iff_forall_mem] at h
  intro child hchild
  obtain ⟨part, hpart, rfl⟩ := List.mem_map.1 hchild
  exact h part hpart

theorem isFlush_branch {blanks kind field : String} {parts : List Part}
    (hcomment : (branch blanks kind field parts).2.isComment = false)
    (hparameter : (branch blanks kind field parts).2.isParameter = false)
    (h : parts.Forall fun part => part.2.IsFlush) : (branch blanks kind field parts).2.IsFlush := by
  exact isFlush_of_kind hcomment hparameter (isFlush_children h)

theorem isFlush_parametersOf (blanks : String) : (parametersOf blanks).2.IsFlush := by
  have hparts : [word "integral_type" "type" "int", word "identifier" "name" "x"].Forall
      fun part => Text.IsFlushLeft part.2.text.toList
        ∧ (part.2.field ≠ "" → Text.IsFlushRight part.2.text.toList) := by
    dsimp only [List.Forall]
    rw [text_word (by decide), text_word (by decide)]
    decide
  refine isFlush_branch rfl rfl ⟨isFlush_leaf rfl rfl rfl, ?_, isFlush_leaf rfl rfl rfl⟩
  refine .mk (absurd · Bool.false_ne_true) (fun _ => ?_)
    (isFlush_children ⟨isFlush_leaf rfl rfl rfl, isFlush_leaf rfl rfl rfl⟩)
  rw [List.forall_iff_forall_mem] at hparts
  intro child hchild
  obtain ⟨part, hpart, rfl⟩ := List.mem_map.1 hchild
  exact hparts part hpart

theorem isFlush_constructorOf (blanks : String) : (constructorOf blanks).2.IsFlush := by
  refine isFlush_branch rfl rfl ⟨isFlush_leaf rfl rfl rfl, isFlush_parametersOf blanks, ?_⟩
  exact isFlush_branch rfl rfl
    ⟨isFlush_leaf rfl rfl rfl, isFlush_leaf rfl rfl rfl, isFlush_leaf rfl rfl rfl⟩

theorem isFlush_namesake : namesake.2.IsFlush := by
  refine isFlush_branch rfl rfl ⟨isFlush_leaf rfl rfl rfl, isFlush_leaf rfl rfl rfl,
    isFlush_parametersOf " ", ?_⟩
  exact isFlush_branch rfl rfl
    ⟨isFlush_leaf rfl rfl rfl, isFlush_leaf rfl rfl rfl, isFlush_leaf rfl rfl rfl⟩

theorem isFlush_fileOf {blanks : String} {members : List Part}
    (h : members.Forall fun member => member.2.IsFlush) : (fileOf blanks members).2.IsFlush := by
  have hbody : (classBody blanks members).2.IsFlush := by
    apply isFlush_branch rfl rfl
    rw [List.forall_iff_forall_mem] at h ⊢
    intro part hpart
    rcases List.mem_append.1 hpart with hpart | hpart
    . rcases List.mem_cons.1 hpart with rfl | hpart
      . exact isFlush_leaf rfl rfl rfl
      . exact h part hpart
    . rw [List.mem_singleton.1 hpart]
      exact isFlush_leaf rfl rfl rfl
  exact isFlush_branch rfl rfl
    (isFlush_branch rfl rfl ⟨isFlush_leaf rfl rfl rfl, isFlush_leaf rfl rfl rfl, hbody⟩)

theorem methods_constructed (blanks : String)
    : (constructed blanks).methods = [.ofNode "A" .package none (constructorOf blanks).2] := by
  rw [constructed, Node.methods, types_fileOf]
  . rfl
  . exact List.forall_iff_forall_mem.1 (by rfl)

theorem methods_overloaded : overloaded.methods = [made, returned] := by
  rw [overloaded, Node.methods, types_fileOf]
  . rfl
  . exact List.forall_iff_forall_mem.1 ⟨rfl, rfl⟩

theorem nodup_parameters_constructed (blanks : String) : ∀ method ∈ (constructed blanks).methods,
    (method.parameters.map Parameter.name).Nodup := by
  rw [methods_constructed]
  intro method hmethod
  rw [List.mem_singleton.1 hmethod]
  exact List.nodup_singleton _

theorem nodup_parameters_overloaded : ∀ method ∈ overloaded.methods,
    (method.parameters.map Parameter.name).Nodup := by
  rw [methods_overloaded]
  exact List.forall_iff_forall_mem.1 ⟨List.nodup_singleton _, List.nodup_singleton _⟩

end Sample

theorem fileChanges_of_constructed
    : fileChanges .default (Sample.constructed " ") (Sample.constructed "\n") = [] := by
  apply fileChanges_of_reformatted _ Sample.reformatted_constructed
  . exact Sample.isFlush_fileOf (Sample.isFlush_constructorOf " ")
  . exact Sample.isFlush_fileOf (Sample.isFlush_constructorOf "\n")
  . exact Sample.nodup_parameters_constructed "\n"
  . rw [Sample.methods_constructed]
    exact List.nodup_singleton _

namespace Sample

theorem find?_methodMatching_overloaded (threshold : Float)
    : (methodMatching threshold [made, returned] [made, returned]).find? (·.new = 0)
        =
      some ⟨0, 1⟩ := by
  have hsignature : returned.signature = made.signature := by
    rfl
  apply @Matching.find?_methodMatching_head _ _ ⟨returned, 1⟩ ⟨made, 0⟩ threshold _ rfl
  rw [List.filter_eq_self.2]
  . rfl
  . exact List.forall_iff_forall_mem.1 ⟨decide_eq_true rfl, decide_eq_true hsignature⟩

theorem methodEdits_overloaded (threshold : Float) : methodEdits threshold returned made ≠ [] := by
  have htype : namesake.2.normalChildText "type" = "int" := by
    change Text.normalize (word "integral_type" "type" "int").2.text = "int"
    rw [text_word (by decide)]
    decide
  have hreturned : returned.returnType = some "int" := by
    rw [returned, Method.ofNode]
    dsimp only
    rw [htype]
    rfl
  have hmade : made.returnType = none := by
    rfl
  intro h
  simp only [methodEdits, List.append_eq_nil_iff, hreturned, hmade] at h
  cases h.1.1.1.2

theorem fileChanges_overloaded (thresholds : Thresholds)
    : fileChanges thresholds overloaded overloaded ≠ [] := by
  intro h
  rw [fileChanges, List.append_eq_nil_iff, methods_overloaded] at h
  obtain ⟨-, h⟩ := h
  rw [FileDiff.methodChanges, List.append_eq_nil_iff, List.flatMap_eq_nil_iff] at h
  have hmade := h.1 ⟨made, 0⟩ List.mem_cons_self
  rw [FileDiff.methodChange, find?_methodMatching_overloaded] at hmade
  exact methodEdits_overloaded _ (List.map_eq_nil_iff.1 hmade)

end Sample

/--
A constructor and a method with its signature are taken for each other, and what one has and the
other lacks is reported of a file that stays the same.
-/
theorem not_all_reformatted_unchanged
    : ¬∀ old new : Node, old.Reformatted new → old.IsFlush → new.IsFlush →
      (∀ method ∈ old.methods, (method.parameters.map Parameter.name).Nodup) →
      (∀ method ∈ new.methods, (method.parameters.map Parameter.name).Nodup) →
      fileChanges .default old new = [] := by
  intro h
  have hflush : Sample.overloaded.IsFlush :=
    Sample.isFlush_fileOf ⟨Sample.isFlush_constructorOf " ", Sample.isFlush_namesake⟩
  exact Sample.fileChanges_overloaded .default (h _ _ (Node.reformatted_refl _) hflush hflush
    Sample.nodup_parameters_overloaded Sample.nodup_parameters_overloaded)

end MethodHistory
