import QueryAdmission.Json
import QueryAdmission.StudyRoom.Resolve
import QueryAdmission.Validation.Literal

/-! Values for variables and arguments. A variable takes what the request sends along or
else its default; an argument takes its literal, the value of its variable, or null. What
cannot be null but would be is refused. -/

namespace QueryAdmission

open StudyRoom

/-- The value of a double that is a whole number. -/
def Json.integral? : Json → Option Int
  | .int n => some n
  | .float (.finite negative units _ _) =>
    if units % Binary64.one = 0 then
      some (Binary64.signedUnits negative (units / Binary64.one))
    else none
  | _ => none

namespace StudyRoom.Scalar

/-- A value that comes with a request. Whole numbers are identifiers too. -/
def ofJson? (scalar : Scalar) (json : Json) : Option InputValue :=
  match scalar, json with
  | .string, .string s => some (.text s)
  | .boolean, .bool b => some (.flag b)
  | .id, .string s => some (.text s)
  | .id, json => json.integral?.map fun n => .text (toString n)
  | .int, json => do
    let n ← json.integral?
    if holdsInt n then some (.int n) else none
  | _, _ => none

/-- The value that a literal writes. -/
def ofLiteral? (scalar : Scalar) (literal : Value) : Option InputValue :=
  if scalar.reads literal then
    match scalar, literal with
    | .int, .int text => (WholeNumber.read text).toOption.map .int
    | _, .string text _ => some (.text text)
    | _, .boolean b => some (.flag b)
    | _, .int text => some (.text text)
    | _, _ => none
  else none

end StudyRoom.Scalar

/-- Whether null is no value of a type. -/
def TypeRef.isNonNull : TypeRef → Bool
  | .nonNull _ => true
  | _ => false

/-- A variable that has a value. One that was neither sent nor has a default has none. -/
abbrev Variables := List (String × InputValue)

namespace VariableDefinition

/-- The value of a variable: none at all, or one that fits. No argument takes a list, so a
variable that a valid operation uses is a scalar. -/
def valueFrom (v : VariableDefinition) (sent : List (String × Json)) :
    Option (Option InputValue) :=
  match v.type.scalar?, sent.lookup v.name with
  | none, _ => none
  | some scalar, none =>
    match v.default? with
    | some .null => some (some .null)
    | some literal => (scalar.ofLiteral? literal).map some
    | none => if v.type.isNonNull then none else some none
  | some _, some .null => if v.type.isNonNull then none else some (some .null)
  | some scalar, some json => (scalar.ofJson? json).map some

end VariableDefinition

/-- The variables of an operation, if all values that the request sends fit. -/
def Operation.variablesFrom? (operation : Operation) (sent : List (String × Json)) :
    Option Variables := do
  let values ← operation.variableDefinitions.mapM fun v => do return (v.name, ← v.valueFrom sent)
  return values.filterMap fun (name, value) => value.map (name, ·)

/-- What is written for an argument. -/
def written? (arguments : List Argument) (name : String) : Option Value :=
  (arguments.find? (·.name == name)).map Argument.value

namespace StudyRoom.ArgumentSpec

/-- The value of an argument among those that are written. Null has to be allowed. -/
def valueIn? (spec : ArgumentSpec) (values : Variables) (arguments : List Argument) :
    Option InputValue :=
  let orNull : Option InputValue := if spec.required then none else some .null
  match written? arguments spec.name with
  | none => orNull
  | some (.var name) =>
    match values.lookup name with
    | none => orNull
    | some .null => orNull
    | some v => some v
  | some .null => orNull
  | some literal => spec.type.ofLiteral? literal

end StudyRoom.ArgumentSpec

/-- The values of all arguments of a field. -/
def StudyRoom.FieldSpec.inputs? (spec : FieldSpec) (values : Variables)
    (arguments : List Argument) : Option Inputs :=
  spec.arguments.mapM fun a => do return (a.name, ← a.valueIn? values arguments)

/-- What a directive at a selection says, if it stands there. -/
def condition? (values : Variables) (directives : List Directive) (name : String) :
    Option (Option Bool) :=
  match directives.find? (·.name == name) with
  | none => some none
  | some d => do
    match ← directiveArgument.valueIn? values d.arguments with
    | .flag b => some (some b)
    | _ => none

/-- Whether a selection takes part: it is not skipped, and included if that is asked. None if
a directive has no value. -/
def takesPart? (values : Variables) (directives : List Directive) : Option Bool := do
  let skip ← condition? values directives "skip"
  if skip = some true then return false
  let included ← condition? values directives "include"
  return included != some false

end QueryAdmission
