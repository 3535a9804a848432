import QueryAdmission.Syntax

/-! Which operation of a document a request targets, and which fragments it can spread.
The first definition of a name is the one that counts, for both. -/

namespace QueryAdmission

/-- Whether an operation is meant by a name; a missing or empty name means any. -/
def Operation.answersTo (operation : Operation) (name : Option String) : Bool :=
  match name with
  | none => true
  | some text => text.isEmpty || operation.name == some text

namespace Definition

def operation? : Definition → Option Operation
  | .operation o => some o
  | _ => none

def fragment? : Definition → Option Fragment
  | .fragment f => some f
  | _ => none

/-- Whether a definition is an operation that a name means. -/
def answersTo (name : Option String) (d : Definition) : Bool :=
  d.operation?.any (·.answersTo name)

/-- Whether a definition is a fragment of the given name. -/
def definesFragment (name : String) (d : Definition) : Bool :=
  d.fragment?.any (·.name == name)

end Definition

/-- The fragments whose name no earlier one has. -/
def Fragment.firsts : List Fragment → List Fragment
  | [] => []
  | f :: rest => f :: (firsts rest).filter (·.name != f.name)

/-- The fragment of a name. -/
def Fragment.find? (fragments : List Fragment) (name : String) : Option Fragment :=
  List.find? (·.name == name) fragments

namespace Document

/-- The operation a request targets: the first that its name means. -/
def target? (document : Document) (name : Option String) : Option Operation :=
  (document.definitions.find? (·.answersTo name)).bind Definition.operation?

/-- The operations of a document, in their order. -/
def operations (document : Document) : List Operation :=
  document.definitions.filterMap Definition.operation?

/-- All fragment definitions of a document, in their order. -/
def fragmentDefinitions (document : Document) : List Fragment :=
  document.definitions.filterMap Definition.fragment?

/-- The fragments of a document, the first of each name. -/
def fragments (document : Document) : List Fragment :=
  Fragment.firsts document.fragmentDefinitions

end Document

end QueryAdmission
