import QueryAdmission.Text.WholeNumber
import QueryAdmission.Validation.Names

/-! Validation of literals: whether a value as written has the type of the place where it
stands. Variables are looked at elsewhere. -/

namespace QueryAdmission

open StudyRoom

namespace StudyRoom.Scalar

/-- Whole numbers have 32 bits. -/
def holdsInt (n : Int) : Bool := -2147483648 ≤ n && n ≤ 2147483647

/-- Whether a literal writes a value of a scalar. Whole numbers are identifiers too. -/
def reads : Scalar → Value → Bool
  | .int, .int text => match WholeNumber.read text with
    | .ok n => holdsInt n
    | .error _ => false
  | .string, .string _ _ => true
  | .boolean, .boolean _ => true
  | .id, .string _ _ => true
  | .id, .int _ => true
  | _, _ => false

end StudyRoom.Scalar

/-- Whether a literal fits a type. A value alone stands for a list of one. -/
def TypeRef.fits : TypeRef → Value → Bool
  | _, .var _ => true
  | .nonNull _, .null => false
  | .nonNull type, v => type.fits v
  | _, .null => true
  | .list item, .list items => items.all item.fits
  | .list item, v => item.fits v
  | .named name, v => match NamedType.ofName? name with
    | some (.scalar s) => s.reads v
    | _ => false

namespace StudyRoom.ArgumentSpec

/-- The type of an argument. -/
def typeRef (spec : ArgumentSpec) : TypeRef :=
  if spec.required then .nonNull (.named spec.type.name) else .named spec.type.name

end StudyRoom.ArgumentSpec

/-- Whether the default of a variable has its type. -/
def VariableDefinition.defaultFits (v : VariableDefinition) : Bool :=
  match v.default? with
  | none => true
  | some value => v.type.fits value

/-- Whether the literals among the arguments and directives of a place have their types. -/
def Site.literalsFit (site : Site) : Bool :=
  site.arguments.all (fun a => match site.argumentSpec? a.name with
    | some spec => spec.typeRef.fits a.value
    | none => true) &&
  site.directives.all fun d => d.arguments.all fun a => directiveArgument.typeRef.fits a.value

/-- Whether all literals of a document have their types. -/
def Document.literalsFit (document : Document) : Bool :=
  document.operations.all (fun o => o.variableDefinitions.all (·.defaultFits)) &&
    document.sites.all (·.literalsFit)

end QueryAdmission
