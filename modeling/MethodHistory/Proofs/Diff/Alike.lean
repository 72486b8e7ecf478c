import MethodHistory.Diff.Signature
import MethodHistory.Proofs.Diff.Unchanged
import Mathlib.Data.List.Nodup

/-!
This module contains the methods that a comparison takes for the same: nothing is reported of two
methods that agree in their declarations and in the texts of their statements.
-/

namespace MethodHistory

theorem BodyDiff.lists_of_texts {threshold : Float} {olds news : List Statement} {place : Place}
    (h : olds.map Statement.text = news.map Statement.text)
    : lists threshold olds news place = .nothing := by
  rw [lists_eq, steps, align_of_map_key_eq h]
  split <;> rfl

namespace ParameterDiff

variable {parameters : List Parameter}

theorem without_self (parameters : List Parameter) : without parameters parameters = [] := by
  rw [without, List.filter_eq_nil_iff]
  intro parameter hparameter hnone
  exact of_decide_eq_true (List.all_eq_true.1 hnone parameter hparameter) rfl

theorem renamings_self (parameters : List Parameter) : renamings parameters parameters = [] := by
  rw [renamings, without_self, firstFit_nil]
  rfl

theorem named_of_mem (h : (parameters.map Parameter.name).Nodup) {parameter : Parameter}
    (hparameter : parameter ∈ parameters) : named parameters parameter.name = some parameter := by
  rw [named]
  cases hlast : (parameters.filter (·.name = parameter.name)).getLast? with
  | none =>
    rw [List.getLast?_eq_none_iff, List.filter_eq_nil_iff] at hlast
    exact absurd (decide_eq_true rfl) (hlast parameter hparameter)
  | some other =>
    have hother := List.mem_filter.1 (List.mem_of_getLast? hlast)
    rw [List.inj_on_of_nodup_map h hother.1 hparameter (of_decide_eq_true hother.2)]

theorem typeChanges_self (h : (parameters.map Parameter.name).Nodup)
    : typeChanges parameters parameters = [] := by
  rw [typeChanges, List.filterMap_eq_nil_iff]
  intro parameter hparameter
  rw [named_of_mem h hparameter, Option.bind_some, if_neg (not_not.2 rfl)]

theorem reorderings_self (parameters : List Parameter)
    : reorderings parameters parameters = [] := by
  rw [reorderings]
  exact if_pos rfl

end ParameterDiff

theorem parameterEdits_self {parameters : List Parameter}
    (h : (parameters.map Parameter.name).Nodup) : parameterEdits parameters parameters = [] := by
  rw [parameterEdits, ParameterDiff.renamings_self, ParameterDiff.typeChanges_self h,
    ParameterDiff.reorderings_self]
  rfl

/--
Methods with the same declaration, documentation and statements, but for their layout. Parameters
are known by their names, so no two of them can have the same one.
-/
structure Method.Alike (old new : Method) : Prop where
  name_eq : old.name = new.name
  access_eq : old.access = new.access
  returnType_eq : old.returnType = new.returnType
  parameters_eq : old.parameters = new.parameters
  nodup : (new.parameters.map Parameter.name).Nodup
  doc_eq : Text.normalize (old.doc.getD "") = Text.normalize (new.doc.getD "")
  texts_eq : old.body.map Statement.text = new.body.map Statement.text

namespace MethodDiff

theorem nameEdits_of_eq {old new : Method} (h : old.name = new.name) : nameEdits old new = [] := by
  exact if_neg (not_not.2 h)

theorem accessEdits_self (access : Access) : accessEdits access access = [] := by
  rw [accessEdits, if_neg (Nat.lt_irrefl _), if_neg (Nat.lt_irrefl _)]

theorem returnTypeEdits_self (type : Option String) : returnTypeEdits type type = [] := by
  cases type with
  | none => rfl
  | some type => exact if_neg (not_not.2 rfl)

theorem docEdits_of_eq {old new : Option String}
    (h : Text.normalize (old.getD "") = Text.normalize (new.getD "")) : docEdits old new = [] := by
  exact if_neg (not_not.2 h)

end MethodDiff

theorem methodEdits_of_alike (threshold : Float) {old new : Method} (h : old.Alike new)
    : methodEdits threshold old new = [] := by
  have hbody : bodyEdits threshold old.body new.body = [] :=
    BodyDiff.bodyEdits_of_lists (BodyDiff.lists_of_texts h.texts_eq)
  rw [methodEdits, MethodDiff.nameEdits_of_eq h.name_eq, h.access_eq, MethodDiff.accessEdits_self,
    h.returnType_eq, MethodDiff.returnTypeEdits_self, h.parameters_eq, parameterEdits_self h.nodup,
    MethodDiff.docEdits_of_eq h.doc_eq, hbody]
  rfl

end MethodHistory
