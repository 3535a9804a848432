import QueryAdmission.Document
import QueryAdmission.Validation.Site

/-! Validation of names: what must be unique, what must be known, and where directives may
stand. Each check is about a whole document and holds or does not. -/

namespace QueryAdmission

open StudyRoom

/-- Whether no name comes twice. -/
def distinct : List String → Bool
  | [] => true
  | name :: rest => !rest.contains name && distinct rest

mutual

/-- Whether no object in a value has two fields of one name. -/
def Value.fieldsDistinct : Value → Bool
  | .list items => Value.allFieldsDistinct items
  | .object fields => Value.membersDistinct fields && distinct (fields.map Prod.fst)
  | _ => true

def Value.allFieldsDistinct : List Value → Bool
  | [] => true
  | v :: rest => v.fieldsDistinct && Value.allFieldsDistinct rest

def Value.membersDistinct : List (String × Value) → Bool
  | [] => true
  | (_, v) :: rest => v.fieldsDistinct && Value.membersDistinct rest

end

/-- The directives that may stand at selections, and the argument that they need. -/
def selectionDirectives : List String := ["include", "skip"]

/-- The argument of the directives at selections. -/
def directiveArgument : ArgumentSpec := ⟨"if", .boolean, true⟩

/-- Whether arguments are known, come once each, and leave none out that is required. -/
def argumentsFit (specs : List ArgumentSpec) (arguments : List Argument) : Bool :=
  arguments.all (fun a => specs.any (·.name == a.name)) &&
    specs.all fun spec => !spec.required || arguments.any (·.name == spec.name)

/-- Whether a directive at a selection is known and has its argument. -/
def Directive.fits (directive : Directive) : Bool :=
  selectionDirectives.contains directive.name &&
    argumentsFit [directiveArgument] directive.arguments

/-- Whether the arguments of a selection or a directive, known or not, come once each. -/
def argumentsDistinct (arguments : List Argument) : Bool :=
  distinct (arguments.map (·.name)) && arguments.all (·.value.fieldsDistinct)

namespace Site

/-- Whether the directives at a selection fit, each at most once. -/
def directivesFit (site : Site) : Bool :=
  site.directives.all (fun d => d.fits && argumentsDistinct d.arguments) &&
    distinct (site.directives.map (·.name))

/-- Whether a field that must exist does, with fitting arguments, and has a selection set
exactly if its type has fields. -/
def fieldFits : Site → Bool
  | .field (some parent) name arguments _ hasBody =>
    match parent.field? name with
    | none => false
    | some spec => argumentsFit spec.arguments arguments &&
        hasBody == spec.type.object?.isSome
  | _ => true

/-- Whether an inline fragment is on a type with fields. -/
def conditionFits : Site → Bool
  | .inline _ (some name) _ => (objectNamed? name).isSome
  | _ => true

/-- Whether a selection passes every check of names. -/
def namesFit (site : Site) : Bool :=
  site.fieldFits && site.conditionFits && site.directivesFit &&
    argumentsDistinct site.arguments

end Site

/-- The scalar inside the type of a variable, if it is one. -/
def TypeRef.scalar? : TypeRef → Option Scalar
  | .named name => match NamedType.ofName? name with
    | some (.scalar s) => some s
    | _ => none
  | .list item => item.scalar?
  | .nonNull type => type.scalar?

/-- Whether the variables of an operation have different names and scalar types, and no
directives. -/
def Operation.variablesKnown (operation : Operation) : Bool :=
  distinct (operation.variableDefinitions.map (·.name)) &&
    operation.variableDefinitions.all fun v =>
      v.type.scalar?.isSome && v.directives.isEmpty &&
        (v.default?.map Value.fieldsDistinct).getD true

/-- Whether the operations of a document can be told apart: named ones by their names, and
one without a name only if it is alone. -/
def Document.operationsDistinct (document : Document) : Bool :=
  distinct (document.operations.filterMap (·.name)) &&
    (document.operations.all (·.name.isSome) || document.operations.length == 1)

namespace Document

/-- Whether a document can be executed: it defines no types. -/
def isExecutable (document : Document) : Bool :=
  document.definitions.all fun
    | .typeSystem => false
    | _ => true

/-- All places of a document. -/
def sites (document : Document) : List Site :=
  document.operations.flatMap (·.sites) ++ document.fragmentDefinitions.flatMap (·.sites)

/-- Whether a document passes every check of names. -/
def namesFit (document : Document) : Bool :=
  document.isExecutable && document.operationsDistinct &&
    document.operations.all (fun o => o.variablesKnown && o.directives.isEmpty) &&
    distinct (document.fragmentDefinitions.map (·.name)) &&
    document.fragmentDefinitions.all
      (fun f => (objectNamed? f.on).isSome && f.directives.isEmpty) &&
    document.sites.all (·.namesFit)

end Document

end QueryAdmission
