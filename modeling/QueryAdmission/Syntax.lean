/-! Request documents: operations, fragments and type-system definitions, with the
selections, arguments and values they are written with. Selection sets are
optional throughout: a field without one is a leaf, and a spread that carries one
is already resolved. -/

namespace QueryAdmission

/-- A literal or variable as it stands in a document. Numbers keep their spelling, and
strings whether they were written as a block. -/
inductive Value where
  | var (name : String)
  | int (text : String)
  | float (text : String)
  | string (text : String) (block : Bool)
  | boolean (value : Bool)
  | null
  | enum (name : String)
  | list (items : List Value)
  | object (fields : List (String × Value))

instance : Inhabited Value := ⟨.null⟩

structure Argument where
  name : String
  value : Value
  deriving Inhabited

structure Directive where
  name : String
  arguments : List Argument
  deriving Inhabited

/-- What a selection set holds. `other` stands for a node of no known kind: it has
neither a cost nor a body, but it is a selection. -/
inductive Selection where
  | field (label : Option String) (name : String) (arguments : List Argument)
      (directives : List Directive) (body : Option (List Selection))
  | inline (on : Option String) (directives : List Directive) (body : Option (List Selection))
  | spread (name : String) (directives : List Directive) (body : Option (List Selection))
  | other

instance : Inhabited Selection := ⟨.other⟩

/-- A selection set, if there is one; an empty one is still a set. -/
abbrev SelectionSet := Option (List Selection)

/-- The selection set that a selection itself carries. -/
def Selection.body : Selection → SelectionSet
  | .field _ _ _ _ body => body
  | .inline _ _ body => body
  | .spread _ _ body => body
  | .other => none

/-- The type of a variable as written. -/
inductive TypeRef where
  | named (name : String)
  | list (item : TypeRef)
  | nonNull (type : TypeRef)
  deriving DecidableEq, Inhabited

structure VariableDefinition where
  name : String
  type : TypeRef
  default? : Option Value
  directives : List Directive
  deriving Inhabited

inductive OperationType where
  | query
  | mutation
  | subscription
  deriving DecidableEq, Inhabited, Repr

def OperationType.text : OperationType → String
  | .query => "query"
  | .mutation => "mutation"
  | .subscription => "subscription"

def OperationType.all : List OperationType := [.mutation, .query, .subscription]

/-- The operation type that a text names. -/
def OperationType.named? (text : String) : Option OperationType :=
  OperationType.all.find? (·.text == text)

structure Operation where
  type : OperationType
  name : Option String
  variableDefinitions : List VariableDefinition
  directives : List Directive
  selections : SelectionSet
  deriving Inhabited

structure Fragment where
  name : String
  on : String
  directives : List Directive
  selections : SelectionSet
  deriving Inhabited

/-- A definition of a document; type-system definitions are all alike here. -/
inductive Definition where
  | operation (operation : Operation)
  | fragment (fragment : Fragment)
  | typeSystem
  deriving Inhabited

structure Document where
  definitions : List Definition
  deriving Inhabited

end QueryAdmission
