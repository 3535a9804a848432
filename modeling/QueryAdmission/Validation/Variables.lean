import QueryAdmission.Validation.Literal
import QueryAdmission.Validation.Spreads

/-! Validation of variables: each operation defines the ones that it and its fragments use,
uses the ones it defines, and uses them where their types are accepted. -/

namespace QueryAdmission

open StudyRoom

mutual

/-- The variables inside a value. -/
def Value.variableNames : Value → List String
  | .var name => [name]
  | .list items => Value.variableNamesOf items
  | .object fields => Value.variableNamesIn fields
  | _ => []

def Value.variableNamesOf : List Value → List String
  | [] => []
  | v :: rest => v.variableNames ++ Value.variableNamesOf rest

def Value.variableNamesIn : List (String × Value) → List String
  | [] => []
  | (_, v) :: rest => v.variableNames ++ Value.variableNamesIn rest

end

/-- A variable where it is used; `place` is the argument that it fills on its own. -/
structure VariableUse where
  name : String
  place : Option ArgumentSpec

/-- The variables used in an argument that may be known. -/
def Argument.uses (argument : Argument) (spec : Option ArgumentSpec) : List VariableUse :=
  match argument.value with
  | .var name => [⟨name, spec⟩]
  | v => v.variableNames.map (⟨·, none⟩)

/-- The variables used at a place. -/
def Site.uses (site : Site) : List VariableUse :=
  site.arguments.flatMap (fun a => a.uses (site.argumentSpec? a.name)) ++
    site.directives.flatMap fun d => d.arguments.flatMap fun a =>
      a.uses (if a.name == directiveArgument.name then some directiveArgument else none)

/-- Whether every value of a type is null or a value of the scalar. -/
def TypeRef.isOf (type : TypeRef) (scalar : Scalar) : Bool :=
  match type with
  | .named name => name == scalar.name
  | .list _ => false
  | .nonNull type => type.isOf scalar

/-- Whether a variable is never null, as far as its definition tells. -/
def VariableDefinition.excludesNull (v : VariableDefinition) : Bool :=
  match v.type, v.default? with
  | .nonNull _, _ => true
  | _, none => false
  | _, some .null => false
  | _, some _ => true

/-- Whether a variable may fill an argument. Where a value is required, one that can be null
needs a default that is not. -/
def VariableDefinition.mayFill (v : VariableDefinition) (spec : ArgumentSpec) : Bool :=
  (!spec.required || v.excludesNull) && v.type.isOf spec.type

/-- The variables that an operation and its fragments use. -/
def Document.usesOf (document : Document) (operation : Operation) : List VariableUse :=
  operation.sites.flatMap (·.uses) ++
    (document.usedBy operation).flatMap fun name =>
      ((Fragment.find? document.fragmentDefinitions name).map
        (·.sites.flatMap (·.uses))).getD []

/-- The most steps that collecting the uses of variables may take in a document. -/
def useLimit : Nat := 50000

/-- Whether the uses of variables can be collected in not too many steps: for each operation one
for every use in it and in its fragments, and one for every such fragment. -/
def Document.usesCountable (document : Document) : Bool :=
  document.operations.foldl
    (fun n o => n + (document.usesOf o).length + (document.usedBy o).length) 0 ≤ useLimit

/-- Whether an operation uses the variables that it defines, each rightly, and no others. -/
def Document.variablesFit (document : Document) (operation : Operation) : Bool :=
  let uses := document.usesOf operation
  operation.variableDefinitions.all (fun v => uses.any (·.name == v.name)) &&
    uses.all fun use =>
      match operation.variableDefinitions.find? (·.name == use.name) with
      | none => false
      | some v => match use.place with
        | none => true
        | some spec => v.mayFill spec

end QueryAdmission
