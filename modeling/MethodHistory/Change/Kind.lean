/-!
This module contains the kinds of changes between two versions of a file, with the label of each,
the kinds that are mined, and what a change of a kind has to tell.
-/

namespace MethodHistory

inductive ChangeKind where
  | returnTypeChange
  | returnTypeInsert
  | returnTypeDelete
  | methodRenaming
  | parameterDelete
  | parameterInsert
  | parameterOrderingChange
  | parameterRenaming
  | parameterTypeChange
  | increasingAccessibilityChange
  | decreasingAccessibilityChange
  | statementInsert
  | statementUpdate
  | statementDelete
  | statementOrderingChange
  | statementParentChange
  | conditionExpressionChange
  | alternativePartInsert
  | alternativePartDelete
  | docUpdate
  | additionalFunctionality
  | removedFunctionality
  | additionalObjectState
  | removedObjectState
  | additionalClass
  | removedClass
  deriving DecidableEq

namespace ChangeKind

def label : ChangeKind → String
  | returnTypeChange => "RETURN_TYPE_CHANGE"
  | returnTypeInsert => "RETURN_TYPE_INSERT"
  | returnTypeDelete => "RETURN_TYPE_DELETE"
  | methodRenaming => "METHOD_RENAMING"
  | parameterDelete => "PARAMETER_DELETE"
  | parameterInsert => "PARAMETER_INSERT"
  | parameterOrderingChange => "PARAMETER_ORDERING_CHANGE"
  | parameterRenaming => "PARAMETER_RENAMING"
  | parameterTypeChange => "PARAMETER_TYPE_CHANGE"
  | increasingAccessibilityChange => "INCREASING_ACCESSIBILITY_CHANGE"
  | decreasingAccessibilityChange => "DECREASING_ACCESSIBILITY_CHANGE"
  | statementInsert => "STATEMENT_INSERT"
  | statementUpdate => "STATEMENT_UPDATE"
  | statementDelete => "STATEMENT_DELETE"
  | statementOrderingChange => "STATEMENT_ORDERING_CHANGE"
  | statementParentChange => "STATEMENT_PARENT_CHANGE"
  | conditionExpressionChange => "CONDITION_EXPRESSION_CHANGE"
  | alternativePartInsert => "ALTERNATIVE_PART_INSERT"
  | alternativePartDelete => "ALTERNATIVE_PART_DELETE"
  | docUpdate => "DOC_UPDATE"
  | additionalFunctionality => "ADDITIONAL_FUNCTIONALITY"
  | removedFunctionality => "REMOVED_FUNCTIONALITY"
  | additionalObjectState => "ADDITIONAL_OBJECT_STATE"
  | removedObjectState => "REMOVED_OBJECT_STATE"
  | additionalClass => "ADDITIONAL_CLASS"
  | removedClass => "REMOVED_CLASS"

def all : List ChangeKind :=
  [returnTypeChange, returnTypeInsert, returnTypeDelete, methodRenaming, parameterDelete,
    parameterInsert, parameterOrderingChange, parameterRenaming, parameterTypeChange,
    increasingAccessibilityChange, decreasingAccessibilityChange, statementInsert, statementUpdate,
    statementDelete, statementOrderingChange, statementParentChange, conditionExpressionChange,
    alternativePartInsert, alternativePartDelete, docUpdate, additionalFunctionality,
    removedFunctionality, additionalObjectState, removedObjectState, additionalClass, removedClass]

def ofLabel? (label : String) : Option ChangeKind :=
  all.find? (·.label = label)

def isMined : ChangeKind → Bool
  | docUpdate | additionalFunctionality | removedFunctionality | additionalObjectState
  | removedObjectState | additionalClass | removedClass => false
  | _ => true

def needsAfter : ChangeKind → Bool
  | returnTypeInsert | parameterInsert | statementInsert | alternativePartInsert => true
  | _ => false

def needsBefore : ChangeKind → Bool
  | returnTypeDelete | parameterDelete | statementDelete | alternativePartDelete => true
  | _ => false

def needsDifferent : ChangeKind → Bool
  | returnTypeChange | methodRenaming | parameterRenaming | parameterTypeChange
  | increasingAccessibilityChange | decreasingAccessibilityChange | statementUpdate
  | conditionExpressionChange => true
  | _ => false

def needsBoth : ChangeKind → Bool
  | parameterOrderingChange | statementOrderingChange | statementParentChange => true
  | kind => kind.needsDifferent

end ChangeKind
end MethodHistory
