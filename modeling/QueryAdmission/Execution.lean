import QueryAdmission.Execution.Collect
import QueryAdmission.Execution.Answered

/-! Execution of an operation against the study room. Fields that are asked for are answered
depth first in their order, those of a mutation one after the other; the first that fails
where no null can stand ends all that is around it. -/

namespace QueryAdmission

open StudyRoom

def StudyRoom.OutputType.isNullable : OutputType → Bool
  | .nonNull _ => false
  | _ => true

/-- Whether a value of a response is null. -/
def Json.isNull : Json → Bool
  | .null => true
  | _ => false

/-- Answers fields of an object at a path. -/
abbrev Answerer := Record → List PathPart → List SelectionSet → Answering Json

/-- Completes what a field resolved to by its type: lists item by item, objects by the fields
that are asked of them, and no null where the type excludes it. -/
def complete (answer : Answerer) (sets : List SelectionSet) :
    OutputType → List PathPart → Resolved → Answering Json
  | .nonNull type, path, resolved => do
    let value ← complete answer sets type path resolved
    if value.isNull then .raise .request else return value
  | _, _, .null => return .null
  | .list item, path, .records records => do
    let items ← records.zipIdx.mapM fun (record, i) =>
      (complete answer sets item (path ++ [.index i]) (.record record)).absorb
        item.isNullable .null
    return .array items
  | .named (.object _), path, .record record => answer record path sets
  | .named (.scalar _), _, .flag b => return .bool b
  | .named (.scalar _), _, .text s => return .string s
  | _, _, _ => .raise .request

/-- The answer under one key, from the fields that share it. Nothing is answered to a field
that does not exist. -/
def answerField (scope : Scope) (answer : Answerer) (record : Record) (path : List PathPart)
    (fields : List Chosen) : Answering (Option Json) :=
  match fields.head? with
  | none => return none
  | some field =>
    match record.type.field? field.name with
    | none => return none
    | some spec => do
      let value : Answering Json := do
        let inputs ← .ofOption (spec.inputs? scope.values field.arguments)
        let resolved ← .ask ⟨record, field.name, inputs⟩ path
        complete answer (fields.map (·.body)) spec.type path resolved
      return some (← value.absorb spec.type.isNullable .null)

/-- The members of a response for the fields that have an answer. -/
def membersOf (answers : List (String × Option Json)) : Json :=
  .object (answers.filterMap fun (key, value) => value.map (key, ·))

/-- Answers the fields that selection sets ask of a record. The first argument bounds the
levels below it. -/
def answerRecord (scope : Scope) : Nat → Answerer
  | 0, _, _, _ => .raise .request
  | levels + 1, record, path, sets => do
    let fields ← .ofOption (chosen? scope record.type sets)
    let answers ← (byKey fields).mapM fun (key, fields) => do
      let value ← answerField scope (answerRecord scope levels) record (path ++ [.key key]) fields
      return (key, value)
    return membersOf answers

mutual

/-- How many selections there are in and under a selection. -/
def Selection.count : Selection → Nat
  | .field _ _ _ _ (some body) => 1 + Selection.countOf body
  | .inline _ _ (some body) => 1 + Selection.countOf body
  | .spread _ _ (some body) => 1 + Selection.countOf body
  | _ => 1

def Selection.countOf : List Selection → Nat
  | [] => 0
  | selection :: rest => selection.count + Selection.countOf rest

end

/-- More than any way through the selections of an operation and its fragments is long: every
step enters a set, or moves on to another selection. -/
def Operation.bound (operation : Operation) (fragments : List Fragment) : Nat :=
  let roots := operation.selections :: fragments.map (·.selections)
  2 * Selection.countOf (roots.flatMap fun root => root.getD []) + 2

/-- The record that the fields of an operation are asked of. There are no subscriptions. -/
def OperationType.record? : OperationType → Option Record
  | .query => some .query
  | .mutation => some .mutation
  | .subscription => none

/-- Executes an operation with the values sent for its variables. -/
def Operation.answering (operation : Operation) (fragments : List Fragment)
    (sent : List (String × Json)) : Answering Json := do
  let values ← .ofOption (operation.variablesFrom? sent)
  let record ← .ofOption operation.type.record?
  let scope : Scope := ⟨fragments, values, operation.bound fragments⟩
  answerRecord scope scope.bound record [] [operation.selections]

namespace Document

/-- The operation that an executor takes: of those of a name the last, and without a name the
only one. -/
def taken? (document : Document) : Option String → Option Operation
  | some name => document.operations.reverse.find? (·.name == some name)
  | none =>
    match document.operations with
    | [operation] => some operation
    | _ => none

/-- The fragments that an executor takes: the last of each name, in the place of the first. -/
def takenFragments (document : Document) : List Fragment :=
  document.fragments.filterMap fun first =>
    document.fragmentDefinitions.reverse.find? (·.name == first.name)

end Document

end QueryAdmission
