import QueryAdmission.Document
import QueryAdmission.Execution.Input

/-! The fields that a selection set asks of an object: those selected directly, through
inline fragments and through spreads, unless they are skipped. Each fragment takes part
once in a set. -/

namespace QueryAdmission

open StudyRoom

/-- A field that is asked for, under the key of its answer. -/
structure Chosen where
  key : String
  name : String
  arguments : List Argument
  body : SelectionSet

/-- What an execution looks things up in. -/
structure Scope where
  fragments : List Fragment
  values : Variables
  /-- A bound on the steps through a selection set and on the levels of a response. -/
  bound : Nat

/-- Whether a fragment on a type applies to an object. -/
def applies (object : ObjectType) (on : Option String) : Bool :=
  on.all (· == object.name)

/-- Adds the fields of selections to those chosen so far, latest first, with the fragments
that have taken part. None if a directive has no value. The first argument bounds the
steps. -/
def choose? (scope : Scope) (object : ObjectType) : Nat → List Selection →
    List Chosen × List String → Option (List Chosen × List String)
  | 0, _, found => some found
  | _ + 1, [], found => some found
  | fuel + 1, selection :: rest, found => do
    let found ← match selection with
      | .field label name arguments directives body => do
        if ← takesPart? scope.values directives then
          pure (⟨label.getD name, name, arguments, body⟩ :: found.1, found.2)
        else pure found
      | .inline on directives body => do
        if (← takesPart? scope.values directives) && applies object on then
          choose? scope object fuel (body.getD []) found
        else pure found
      | .spread name directives _ =>
        if found.2.contains name then pure found
        else do
          if ← takesPart? scope.values directives then
            let found := (found.1, name :: found.2)
            match Fragment.find? scope.fragments name with
            | some f =>
              if applies object (some f.on) then
                choose? scope object fuel (f.selections.getD []) found
              else pure found
            | none => pure found
          else pure found
      | .other => pure found
    choose? scope object fuel rest found

/-- The fields that some selection sets of one object ask for, in their order. -/
def chosen? (scope : Scope) (object : ObjectType) (sets : List SelectionSet) :
    Option (List Chosen) := do
  let found ← sets.foldlM (fun found set => choose? scope object scope.bound (set.getD []) found)
    ([], [])
  return found.1.reverse

/-- Adds a field to those of its key. -/
def addChosen (groups : List (String × List Chosen)) (field : Chosen) :
    List (String × List Chosen) :=
  if groups.any (·.1 == field.key) then
    groups.map fun g => if g.1 == field.key then (g.1, g.2 ++ [field]) else g
  else groups ++ [(field.key, [field])]

/-- Fields by their keys, in the order in which the keys appear. -/
def byKey (fields : List Chosen) : List (String × List Chosen) := fields.foldl addChosen []

end QueryAdmission
