import QueryAdmission.StudyRoom.Schema
import QueryAdmission.Syntax

/-! The places of a document that validation looks at: every selection with the type it is
selected from, where that type is known. Under a field that does not exist, and at the
root of an operation that the schema has no type for, nothing is known. -/

namespace QueryAdmission

open StudyRoom

/-- A selection and the object type it is selected from. -/
inductive Site where
  | field (parent : Option ObjectType) (name : String) (arguments : List Argument)
      (directives : List Directive) (hasBody : Bool)
  | inline (parent : Option ObjectType) (on : Option String) (directives : List Directive)
  | spread (parent : Option ObjectType) (name : String) (directives : List Directive)

/-- The field of a name in a type that may be unknown. -/
def fieldSpec? (parent : Option ObjectType) (name : String) : Option FieldSpec :=
  parent.bind (·.field? name)

/-- The object type that a name stands for. -/
def objectNamed? (name : String) : Option ObjectType :=
  match NamedType.ofName? name with
  | some (.object o) => some o
  | _ => none

/-- The type that an inline fragment selects from. -/
def inlineType (parent : Option ObjectType) (on : Option String) : Option ObjectType :=
  match on with
  | none => parent
  | some name => objectNamed? name

/-- The type that the set under a field selects from. -/
def bodyType (parent : Option ObjectType) (name : String) : Option ObjectType :=
  (fieldSpec? parent name).bind (·.type.object?)

mutual

/-- The places in and under a selection. -/
def Selection.sites (parent : Option ObjectType) : Selection → List Site
  | .field _ name arguments directives none =>
    [.field parent name arguments directives false]
  | .field _ name arguments directives (some body) =>
    .field parent name arguments directives true :: Selection.sitesOf (bodyType parent name) body
  | .inline on directives none => [.inline parent on directives]
  | .inline on directives (some body) =>
    .inline parent on directives :: Selection.sitesOf (inlineType parent on) body
  | .spread name directives _ => [.spread parent name directives]
  | .other => []

/-- The places in a selection set and under it. -/
def Selection.sitesOf (parent : Option ObjectType) : List Selection → List Site
  | [] => []
  | selection :: rest => selection.sites parent ++ Selection.sitesOf parent rest

end

namespace Site

def directives : Site → List Directive
  | .field _ _ _ directives _ => directives
  | .inline _ _ directives => directives
  | .spread _ _ directives => directives

/-- The arguments of the selection itself. -/
def arguments : Site → List Argument
  | .field _ _ arguments _ _ => arguments
  | _ => []

/-- The name of the fragment that is spread here. -/
def spread? : Site → Option String
  | .spread _ name _ => some name
  | _ => none

/-- The type that an argument of the selection has, where it is known. -/
def argumentSpec? : Site → String → Option ArgumentSpec
  | .field parent name _ _ _, argument => (fieldSpec? parent name).bind (·.argument? argument)
  | _, _ => none

end Site

/-- The root type of an operation; the schema has none for subscriptions. -/
def OperationType.root? : OperationType → Option ObjectType
  | .query => some .query
  | .mutation => some .mutation
  | .subscription => none

/-- The places of an operation. -/
def Operation.sites (operation : Operation) : List Site :=
  Selection.sitesOf operation.type.root? (operation.selections.getD [])

/-- The places of a fragment. -/
def Fragment.sites (fragment : Fragment) : List Site :=
  Selection.sitesOf (objectNamed? fragment.on) (fragment.selections.getD [])

end QueryAdmission
