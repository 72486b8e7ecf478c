import MethodHistory.Proofs.Diff.Reformatted

/-!
This module contains what becomes of a method whose signature no other method has: it is matched
with the method of this signature in the other version, whatever else is matched.
-/

namespace MethodHistory

namespace Placed

variable {methods : List Method} {x : Placed}

theorem mem_all : x ∈ all methods ↔ methods[x.place]? = some x.method := by
  rw [all, List.mem_map]
  constructor
  . rintro ⟨⟨method, place⟩, hmem, rfl⟩
    exact List.mem_zipIdx_iff_getElem?.1 hmem
  . intro h
    exact ⟨(x.method, x.place), List.mem_zipIdx_iff_getElem?.2 h, rfl⟩

theorem map_method_all (methods : List Method) : (all methods).map method = methods := by
  rw [all, List.map_map]
  exact List.zipIdx_map_fst 0 methods

theorem nodup_place_all (methods : List Method) : ((all methods).map place).Nodup := by
  have hplaces : (all methods).map place = List.range' 0 methods.length := by
    rw [all, List.map_map]
    exact List.zipIdx_map_snd 0 methods
  rw [hplaces]
  exact List.nodup_range'

theorem eq_of_place {y : Placed} (hx : x ∈ all methods) (hy : y ∈ all methods)
    (h : x.place = y.place) : x = y :=
  List.inj_on_of_nodup_map (nodup_place_all methods) hx hy h

structure IsSole (x : Placed) (signature : String) (methods : List Method) : Prop where
  mem : x ∈ all methods
  signature_eq : x.method.signature = signature
  eq_of_signature : ∀ y ∈ all methods, y.method.signature = signature → y = x

theorem exists_isSole {signature : String} {method : Method}
    (h : methods.filter (·.signature = signature) = [method])
    : ∃ x : Placed, x.method = method ∧ x.IsSole signature methods := by
  have hmap : ((all methods).filter (·.method.signature = signature)).map Placed.method
      = [method] := by
    rw [← h]
    conv_rhs => rw [← map_method_all methods, List.filter_map]
    rfl
  obtain ⟨x, hx, hmethod⟩ := List.map_eq_singleton_iff.1 hmap
  have hmem : x ∈ (all methods).filter (·.method.signature = signature) := by
    rw [hx]
    exact List.mem_singleton_self x
  rw [List.mem_filter, decide_eq_true_iff] at hmem
  refine ⟨x, hmethod, hmem.1, hmem.2, ?_⟩
  intro y hy hsignature
  have hfiltered : y ∈ (all methods).filter (·.method.signature = signature) :=
    List.mem_filter.2 ⟨hy, decide_eq_true hsignature⟩
  rw [hx] at hfiltered
  exact List.mem_singleton.1 hfiltered

end Placed

namespace Matching

variable {olds news : List Placed} {matching : List MethodMatch}

def takeSignature (olds : List Placed) (matching : List MethodMatch) (new : Placed)
    : List MethodMatch :=
  match (olds.filter (·.method.signature = new.method.signature)).getLast? with
  | some old =>
    if matching.all (·.old ≠ old.place) then matching ++ [⟨new.place, old.place⟩] else matching
  | none => matching

theorem bySignature_eq (olds news : List Placed)
    : bySignature olds news = news.foldl (takeSignature olds) [] := by
  rfl

theorem takeSignature_eq_append (matching : List MethodMatch) (new : Placed)
    : ∃ rest, takeSignature olds matching new = matching ++ rest
      ∧ ∀ found ∈ rest, ∃ old ∈ olds, old.method.signature = new.method.signature
        ∧ found = ⟨new.place, old.place⟩ := by
  rw [takeSignature]
  split
  next old hlast =>
    split
    next =>
      refine ⟨_, rfl, ?_⟩
      intro found hfound
      have hold := List.mem_filter.1 (List.mem_of_getLast? hlast)
      exact ⟨old, hold.1, of_decide_eq_true hold.2, List.mem_singleton.1 hfound⟩
    next => exact ⟨[], (List.append_nil _).symm, by simp⟩
  next => exact ⟨[], (List.append_nil _).symm, by simp⟩

theorem foldl_takeSignature_eq_append (matching : List MethodMatch) (news : List Placed)
    : ∃ rest, news.foldl (takeSignature olds) matching = matching ++ rest
      ∧ ∀ found ∈ rest, ∃ new ∈ news, ∃ old ∈ olds, old.method.signature = new.method.signature
        ∧ found = ⟨new.place, old.place⟩ := by
  induction news generalizing matching with
  | nil => exact ⟨[], (List.append_nil _).symm, by simp⟩
  | cons new news ih =>
    obtain ⟨first, hfirst, hnew⟩ := @takeSignature_eq_append olds matching new
    obtain ⟨rest, hrest, hnews⟩ := ih (takeSignature olds matching new)
    refine ⟨first ++ rest, ?_, ?_⟩
    . rw [List.foldl_cons, hrest, hfirst, List.append_assoc]
    . intro found hfound
      rcases List.mem_append.1 hfound with hfound | hfound
      . exact ⟨new, List.mem_cons_self, hnew found hfound⟩
      . obtain ⟨other, hother, h⟩ := hnews found hfound
        exact ⟨other, List.mem_cons_of_mem _ hother, h⟩

theorem byBody_eq_append (threshold : Float) (matching : List MethodMatch) (olds news : List Placed)
    : ∃ rest, byBody threshold matching olds news = matching ++ rest := by
  rw [byBody]
  generalize freeOlds matching olds = frees
  induction frees generalizing matching with
  | nil => exact ⟨[], (List.append_nil _).symm⟩
  | cons free frees ih =>
    rw [List.foldl_cons]
    split
    next new _ =>
      obtain ⟨rest, hrest⟩ := ih (matching ++ [⟨new.place, free.place⟩])
      rw [hrest, List.append_assoc]
      exact ⟨_, rfl⟩
    next => exact ih matching

section

variable {olds news : List Method} {old new : Placed} {signature : String}

theorem find?_bySignature (hold : old.IsSole signature olds) (hnew : new.IsSole signature news)
    : (bySignature (Placed.all olds) (Placed.all news)).find? (·.new = new.place)
        =
      some ⟨new.place, old.place⟩ := by
  obtain ⟨before, after, hnews⟩ := List.append_of_mem hnew.mem
  have hplaces := Placed.nodup_place_all news
  rw [hnews, List.map_append, List.map_cons, List.nodup_middle, List.nodup_cons] at hplaces
  have hbefore : ∀ x ∈ before, x.place ≠ new.place := by
    intro x hx hplace
    apply hplaces.1
    rw [← hplace]
    exact List.mem_append_left _ (List.mem_map_of_mem hx)
  have hlast : ((Placed.all olds).filter
      (·.method.signature = new.method.signature)).getLast? = some old := by
    rw [hnew.signature_eq]
    have holdmem : old ∈ (Placed.all olds).filter (·.method.signature = signature) :=
      List.mem_filter.2 ⟨hold.mem, decide_eq_true hold.signature_eq⟩
    cases hlast : ((Placed.all olds).filter (·.method.signature = signature)).getLast? with
    | none =>
      rw [List.getLast?_eq_none_iff] at hlast
      rw [hlast] at holdmem
      contradiction
    | some other =>
      have hother := List.mem_filter.1 (List.mem_of_getLast? hlast)
      rw [hold.eq_of_signature other hother.1 (of_decide_eq_true hother.2)]
  obtain ⟨taken, htaken, hothers⟩ := @foldl_takeSignature_eq_append (Placed.all olds) [] before
  obtain ⟨rest, hrest, -⟩ :=
    @foldl_takeSignature_eq_append (Placed.all olds) (taken ++ [⟨new.place, old.place⟩]) after
  -- No method in front of the new one can have taken the old one, which has its signature.
  have hfree : taken.all (·.old ≠ old.place) := by
    rw [List.all_eq_true]
    intro found hfound
    obtain ⟨x, hx, y, hy, hsignature, rfl⟩ := hothers found hfound
    rw [decide_eq_true_iff]
    intro hplace
    rw [Placed.eq_of_place hy hold.mem hplace, hold.signature_eq] at hsignature
    have hxall : x ∈ Placed.all news := by
      rw [hnews]
      exact List.mem_append_left _ hx
    exact hbefore x hx (congrArg Placed.place (hnew.eq_of_signature x hxall hsignature.symm))
  have htake : takeSignature (Placed.all olds) taken new = taken ++ [⟨new.place, old.place⟩] := by
    rw [takeSignature, hlast]
    exact if_pos hfree
  have hnone : taken.find? (·.new = new.place) = none := by
    rw [List.find?_eq_none]
    intro found hfound
    obtain ⟨x, hx, y, hy, -, rfl⟩ := hothers found hfound
    simpa using hbefore x hx
  rw [List.nil_append] at htaken
  rw [bySignature_eq, hnews, List.foldl_append, List.foldl_cons, htaken, htake, hrest,
    List.append_assoc, List.find?_append, hnone, List.find?_append]
  simp

theorem find?_methodMatching_of_bySignature (threshold : Float) {found : MethodMatch}
    (h : (bySignature (Placed.all olds) (Placed.all news)).find? (·.new = new.place) = some found)
    : (methodMatching threshold olds news).find? (·.new = new.place) = some found := by
  rw [methodMatching]
  obtain ⟨rest, hrest⟩ := byBody_eq_append threshold
    (bySignature (Placed.all olds) (Placed.all news)
      ++ bySoleName (bySignature (Placed.all olds) (Placed.all news)) (Placed.all olds)
        (Placed.all news)) (Placed.all olds) (Placed.all news)
  rw [hrest, List.append_assoc, List.find?_append, h, Option.some_or]

theorem find?_methodMatching (threshold : Float) (hold : old.IsSole signature olds)
    (hnew : new.IsSole signature news)
    : (methodMatching threshold olds news).find? (·.new = new.place)
        =
      some ⟨new.place, old.place⟩ := by
  exact find?_methodMatching_of_bySignature threshold (find?_bySignature hold hnew)

theorem find?_methodMatching_head (threshold : Float) {rest : List Placed}
    (hnews : Placed.all news = new :: rest)
    (hlast : ((Placed.all olds).filter
      (·.method.signature = new.method.signature)).getLast? = some old)
    : (methodMatching threshold olds news).find? (·.new = new.place)
        =
      some ⟨new.place, old.place⟩ := by
  apply find?_methodMatching_of_bySignature
  have htake : takeSignature (Placed.all olds) [] new = [⟨new.place, old.place⟩] := by
    rw [takeSignature, hlast]
    rfl
  obtain ⟨others, hothers, -⟩ :=
    @foldl_takeSignature_eq_append (Placed.all olds) [⟨new.place, old.place⟩] rest
  rw [bySignature_eq, hnews, List.foldl_cons, htake, hothers]
  exact List.find?_cons_of_pos (decide_eq_true rfl)

end

end Matching

namespace FileDiff

variable {olds news : List Method} {old new : Placed} {signature : String}

theorem methodChange_of_alike (thresholds : Thresholds) (hold : old.IsSole signature olds)
    (hnew : new.IsSole signature news) (halike : old.method.Alike new.method)
    : methodChange thresholds.update (methodMatching thresholds.rename olds news) olds new
        =
      [] := by
  rw [methodChange, Matching.find?_methodMatching thresholds.rename hold hnew, Option.bind_some,
    Placed.mem_all.1 hold.mem]
  dsimp only
  rw [methodEdits_of_alike thresholds.update halike]
  rfl

theorem method_eq_of_mem_methodChange {threshold : Float} {matching : List MethodMatch}
    {change : Change} (h : change ∈ methodChange threshold matching olds new)
    : change.method = none ∨ change.method = some new.method.signature := by
  rw [methodChange] at h
  split at h
  next =>
    obtain ⟨edit, -, rfl⟩ := List.mem_map.1 h
    exact .inr rfl
  next =>
    rw [List.mem_singleton.1 h]
    exact .inl rfl

theorem method_ne_of_mem_methodChanges (thresholds : Thresholds)
    (hold : old.IsSole signature olds) (hnew : new.IsSole signature news)
    (halike : old.method.Alike new.method) {change : Change}
    (h : change ∈ methodChanges thresholds olds news) : change.method ≠ some signature := by
  rw [methodChanges] at h
  rcases List.mem_append.1 h with h | h
  . obtain ⟨other, hother, h⟩ := List.mem_flatMap.1 h
    intro hchange
    rcases method_eq_of_mem_methodChange h with hnone | hsome
    . rw [hnone] at hchange
      contradiction
    . rw [hsome, Option.some_inj] at hchange
      rw [hnew.eq_of_signature other hother hchange,
        methodChange_of_alike thresholds hold hnew halike] at h
      contradiction
  . obtain ⟨other, -, rfl⟩ := List.mem_map.1 h
    exact (Option.some_ne_none _).symm

theorem method_eq_none_of_mem_typeChanges {olds news : List TypeDeclaration} {change : Change}
    (h : change ∈ typeChanges olds news) : change.method = none := by
  rw [typeChanges] at h
  rcases List.mem_append.1 h with h | h
  all_goals
    obtain ⟨_, _, rfl⟩ := List.mem_map.1 h
    rfl

theorem method_eq_none_of_mem_fieldChanges {olds news : List FieldDeclaration} {change : Change}
    (h : change ∈ fieldChanges olds news) : change.method = none := by
  rw [fieldChanges] at h
  rcases List.mem_append.1 h with h | h
  all_goals
    obtain ⟨_, _, rfl⟩ := List.mem_map.1 h
    rfl

end FileDiff

theorem method_ne_of_alike (thresholds : Thresholds) {old new : Node} {signature : String}
    {one other : Method} (hold : old.methods.filter (·.signature = signature) = [one])
    (hnew : new.methods.filter (·.signature = signature) = [other]) (halike : one.Alike other)
    : ∀ change ∈ fileChanges thresholds old new, change.method ≠ some signature := by
  obtain ⟨_, rfl, hone⟩ := Placed.exists_isSole hold
  obtain ⟨_, rfl, hother⟩ := Placed.exists_isSole hnew
  intro change hchange
  rw [fileChanges] at hchange
  rcases List.mem_append.1 hchange with hchange | hchange
  . rcases List.mem_append.1 hchange with hchange | hchange
    . rw [FileDiff.method_eq_none_of_mem_typeChanges hchange]
      exact (Option.some_ne_none _).symm
    . rw [FileDiff.method_eq_none_of_mem_fieldChanges hchange]
      exact (Option.some_ne_none _).symm
  . exact FileDiff.method_ne_of_mem_methodChanges thresholds hone hother halike hchange

/-! A method that stays the same while it is moved and the other one is edited -/

namespace Sample

abbrev Part : Type :=
  String × Node

def token (text : String) : Part :=
  (text, ⟨text, 0, text.toUTF8, "", false, []⟩)

def word (kind field text : String) : Part :=
  (text, ⟨kind, 0, text.toUTF8, field, true, []⟩)

def branch (blanks kind field : String) (parts : List Part) : Part :=
  let text := blanks.intercalate (parts.map Prod.fst)
  (text, ⟨kind, 0, text.toUTF8, field, true, parts.map Prod.snd⟩)

def callOf (blanks name : String) : Part :=
  branch blanks "expression_statement" "" [token name, token "(", token ")", token ";"]

def methodOf (blanks name callee : String) : Part :=
  branch blanks "method_declaration" ""
    [word "void_type" "type" "void", word "identifier" "name" name,
      branch blanks "formal_parameters" "parameters" [token "(", token ")"],
      branch blanks "block" "body" [token "\x7b", callOf blanks callee, token "\x7d"]]

def classBody (blanks : String) (members : List Part) : Part :=
  branch blanks "class_body" "body" (token "\x7b" :: members ++ [token "\x7d"])

def fileOf (blanks : String) (members : List Part) : Part :=
  branch blanks "program" "" [branch blanks "class_declaration" ""
    [token "class", word "identifier" "name" "A", classBody blanks members]]

theorem text_word {kind field text : String} (h : text ∈ ["A", "int", "x"])
    : (word kind field text).2.text = text := by
  have hall : ∀ text ∈ ["A", "int", "x"], Text.Utf8.toText text.toUTF8 = text := by
    decide +kernel
  exact hall text h

theorem types_fileOf {blanks : String} {members : List Part}
    (h : ∀ member ∈ members, Node.typesAt "A" member.2 = [])
    : (fileOf blanks members).2.types
        =
      [⟨"A", "class_declaration", some (classBody blanks members).2⟩] := by
  have hnested : Node.types.go "A" (classBody blanks members).2 = [] := by
    rw [Node.types_go_eq, List.flatMap_eq_nil_iff]
    intro node hnode
    obtain ⟨hnode, hnamed⟩ := List.mem_filter.1 hnode
    obtain ⟨member, hmember, rfl⟩ := List.mem_map.1 hnode
    rcases List.mem_append.1 hmember with hmember | hmember
    . rcases List.mem_cons.1 hmember with rfl | hmember
      . contradiction
      . exact h member hmember
    . rw [List.mem_singleton.1 hmember] at hnamed
      contradiction
  rw [Node.types, Node.types_go_eq]
  change [(branch blanks "class_declaration" "" _).2].flatMap (Node.typesAt "") = _
  rw [List.flatMap_singleton, Node.typesAt]
  change ⟨(word "identifier" "name" "A").2.text, _, _⟩ ::
    Node.types.go (word "identifier" "name" "A").2.text (classBody blanks members).2 = _
  rw [text_word (by decide), hnested]
  rfl

def before : Node :=
  (fileOf " " [methodOf " " "f" "a", methodOf " " "g" "b"]).2

def after : Node :=
  (fileOf "\n" [methodOf "\n" "g" "c", methodOf "\n" "f" "a"]).2

def kept : Method :=
  .ofNode "A" .package none (methodOf " " "f" "a").2

def moved : Method :=
  .ofNode "A" .package (methodOf "\n" "g" "c").2 (methodOf "\n" "f" "a").2

theorem filter_before : before.methods.filter (·.signature = "A.f()") = [kept] := by
  have hmethods : before.methods
      = [kept, .ofNode "A" .package (methodOf " " "f" "a").2 (methodOf " " "g" "b").2] := by
    rw [before, Node.methods, types_fileOf]
    . rfl
    . exact List.forall_iff_forall_mem.1 ⟨rfl, rfl⟩
  rw [hmethods, List.filter_cons_of_pos (by decide +kernel),
    List.filter_cons_of_neg (by decide +kernel), List.filter_nil]

theorem filter_after : after.methods.filter (·.signature = "A.f()") = [moved] := by
  have hmethods : after.methods
      = [.ofNode "A" .package none (methodOf "\n" "g" "c").2, moved] := by
    rw [after, Node.methods, types_fileOf]
    . rfl
    . exact List.forall_iff_forall_mem.1 ⟨rfl, rfl⟩
  rw [hmethods, List.filter_cons_of_neg (by decide +kernel),
    List.filter_cons_of_pos (by decide +kernel), List.filter_nil]

theorem alike_moved : kept.Alike moved where
  name_eq := by decide +kernel
  access_eq := by decide +kernel
  returnType_eq := by decide +kernel
  parameters_eq := by decide +kernel
  nodup := by decide +kernel
  doc_eq := by decide +kernel
  texts_eq := by
    change (Statement.ofBody _).map _ = (Statement.ofBody _).map _
    rw [Statement.map_text_ofBody, Statement.map_text_ofBody]
    decide +kernel

end Sample

theorem method_ne_of_moved
    : (fileChanges .default Sample.before Sample.after).all (·.method ≠ "A.f()") := by
  rw [List.all_eq_true]
  intro change hchange
  apply decide_eq_true
  exact method_ne_of_alike _ Sample.filter_before Sample.filter_after Sample.alike_moved change
    hchange

end MethodHistory
