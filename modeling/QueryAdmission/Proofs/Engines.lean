import QueryAdmission.Proofs.AskedFields
import QueryAdmission.Proofs.Executions
import QueryAdmission.Proofs.MeantOperation

/-! # What is relied on of an engine

The gate, the selector and the resolvers work with whatever engine reads, validates and executes
the requests, as long as it does what the theorems below name: it takes the admission step behind
validation and in front of every resolver, it executes what the step let pass, and an execution
asks for what its operation selects, as the language has it. -/

namespace QueryAdmission

open StudyRoom

/-! ## Around the admission step -/

/-- The service of a request ends in nothing but what is wrong. -/
def Ending.Fails (ending : Ending) : Prop := ∀ result, ending = .ok result → result.errors ≠ []

namespace Engine

/-- The admission step stands between validation and execution. -/
structure Mediates (engine : Engine) : Prop where
  /-- Without the step no resolver runs, and the request fails. -/
  early : ∀ {request execution}, engine.proceed request = .early execution →
    ∃ ending : Ending, execution = .done ending ∧ ending.Fails
  /-- In front of the step the document was read, and it is valid. -/
  accepted : ∀ {request document name next},
    engine.proceed request = .admission document name next → ∃ d, document = some d ∧
      engine.parse? request.source = some d ∧ engine.isValid d = true
  /-- An error that the step raises ends the request, and is its only one. -/
  raised : ∀ {request document name next}, engine.proceed request = .admission document name next →
    ∀ error, next (some error) = .done (.ok (.ofError error))
  /-- Behind the step the operation of the same name is executed, or the only one, with the
  fragments of the document. -/
  executed : ∀ {request document name next operation},
    engine.proceed request = .admission (some document) name next →
    document.taken? name = some operation →
    next none =
      (engine.execute operation document.takenFragments request.variableValues).map .ok
  /-- Where there is no such operation, the request fails without any. -/
  missing : ∀ {request document name next},
    engine.proceed request = .admission (some document) name next →
    document.taken? name = none → ∃ ending : Ending, next none = .done ending ∧ ending.Fails
  /-- The operations of a valid document have different names. -/
  operations : ∀ {document}, engine.isValid document = true →
    (document.operations.filterMap (·.name)).Nodup
  /-- So have its fragments. -/
  fragments : ∀ {document}, engine.isValid document = true →
    (document.fragmentDefinitions.map (·.name)).Nodup
  /-- A name has at least one character. -/
  names : ∀ {source document}, engine.parse? source = some document →
    ∀ operation ∈ document.operations, operation.name ≠ some ""

end Engine

/-! ## Mutations -/

/-- The fields of a mutation are done in their order. A field that mutations do not have is left
out; for any other the resolver is asked, with the values of the arguments. No answer to a field
of a mutation can be null, so that an error at a field leaves out those behind it. -/
inductive Execution.Serial {α : Type} (inputs? : FieldSpec → List Argument → Option Inputs)
    (Fails : α → Prop) : List Chosen → Execution α → Prop
  | done {result : α} : Serial inputs? Fails [] (.done result)
  | unknown {field : Chosen} {rest : List Chosen} {x : Execution α}
      (hspec : ObjectType.mutation.field? field.name = none) (hrest : Serial inputs? Fails rest x) :
      Serial inputs? Fails (field :: rest) x
  | uncoerced {field : Chosen} {rest : List Chosen} {spec : FieldSpec} {result : α}
      (hspec : ObjectType.mutation.field? field.name = some spec)
      (hinputs : inputs? spec field.arguments = none) (hfails : Fails result) :
      Serial inputs? Fails (field :: rest) (.done result)
  | ask {field : Chosen} {rest : List Chosen} {spec : FieldSpec} {inputs : Inputs}
      {next : Except ResolverFailure Resolved → Execution α}
      (hspec : ObjectType.mutation.field? field.name = some spec)
      (hinputs : inputs? spec field.arguments = some inputs)
      (hanswer : ∀ resolved, spec.type.Holds resolved →
        Serial inputs? Fails rest (next (.ok resolved)))
      (herror : ∀ e, ∃ result, next (.error e) = .done result ∧ Fails result) :
      Serial inputs? Fails (field :: rest) (.ask ⟨.mutation, field.name, inputs⟩ next)

namespace Engine

/-- Executions ask for what their operations select. -/
structure Executes (engine : Engine) : Prop where
  /-- An operation other than a mutation asks for fields that records have. It starts at the root
  of queries, and comes from there only to records that resolvers answered. -/
  reads : ∀ {document operation} sent, engine.isValid document = true →
    operation ∈ document.operations → operation.type ≠ .mutation →
    ∀ Known : Record → Prop, Known .query →
      (engine.execute operation document.fragments sent).Keeps (·.Proper Known)
        (fun _ answer => ∀ resolved, answer = .ok resolved → ∀ record ∈ resolved.next, Known record)
        fun _ => True
  /-- A mutation fails before its first field, or does the fields that it asks for, one for each
  key. -/
  writes : ∀ {document operation} sent, engine.isValid document = true →
    operation ∈ document.operations → operation.type = .mutation →
    (∃ result, engine.execute operation document.fragments sent = .done result ∧
      result.errors ≠ []) ∨
    ∃ values fields, engine.variables? operation sent = some values ∧
      (∀ field ∈ fields, Asks document.fragments (engine.takesPart? values) .mutation field
        (operation.selections.getD [])) ∧
      (∀ field, Asks document.fragments (engine.takesPart? values) .mutation field
        (operation.selections.getD []) → ∃ first ∈ fields, first.key = field.key) ∧
      (engine.execute operation document.fragments sent).Serial (engine.inputs? values)
        (fun result => result.errors ≠ []) fields
  /-- Fields that a valid mutation asks for under one key are one field with the same
  arguments. -/
  merges : ∀ {document operation} values, engine.isValid document = true →
    operation ∈ document.operations → operation.type = .mutation → ∀ {f g : Chosen},
    Asks document.fragments (engine.takesPart? values) .mutation f
      (operation.selections.getD []) →
    Asks document.fragments (engine.takesPart? values) .mutation g
      (operation.selections.getD []) →
    f.key = g.key → f.name = g.name ∧
      ∀ spec, engine.inputs? values spec f.arguments = engine.inputs? values spec g.arguments

end Engine

/-! ## Queries whose values are there -/

/-- An execution comes across a selection of a set: it stands there, or in an inline fragment or
a spread fragment that takes part and applies. -/
inductive ComesUp (fragments : List Fragment) (part : List Directive → Option Bool)
    (object : ObjectType) (selection : Selection) : List Selection → Prop
  | here {selections : List Selection} (h : selection ∈ selections) :
      ComesUp fragments part object selection selections
  | inline {on : Option String} {directives : List Directive} {body : SelectionSet}
      {selections : List Selection} (h : .inline on directives body ∈ selections)
      (hpart : part directives = some true) (happlies : applies object on = true)
      (hbody : ComesUp fragments part object selection (body.getD [])) :
      ComesUp fragments part object selection selections
  | spread {name : String} {directives : List Directive} {body : SelectionSet}
      {fragment : Fragment} {selections : List Selection}
      (h : .spread name directives body ∈ selections)
      (hpart : part directives = some true)
      (hfound : Fragment.find? fragments name = some fragment)
      (happlies : applies object (some fragment.on) = true)
      (hset : ComesUp fragments part object selection (fragment.selections.getD [])) :
      ComesUp fragments part object selection selections

namespace Document

/-- The sets that an execution can come to: that of the operation, and those under fields that
such a set asks for, each with the type of the objects that it selects from. -/
inductive Visits (document : Document) (operation : Operation)
    (part : List Directive → Option Bool) : ObjectType → List Selection → Prop
  | root {object : ObjectType} (h : operation.type.root? = some object) :
      Visits document operation part object (operation.selections.getD [])
  | under {object type : ObjectType} {selections : List Selection} {chosen : Chosen}
      (h : Visits document operation part object selections)
      (hasks : Asks document.fragments part object chosen selections)
      (htype : bodyType (some object) chosen.name = some type) :
      Visits document operation part type (chosen.body.getD [])

/-- All values that an execution can need are there: those of the directives that it comes
across, and those of the arguments of fields that are asked for. -/
structure Coerces (document : Document) (operation : Operation)
    (part : List Directive → Option Bool) (inputs? : FieldSpec → List Argument → Option Inputs) :
    Prop where
  directives : ∀ {object selections selection},
    document.Visits operation part object selections →
    ComesUp document.fragments part object selection selections →
      ∃ takes, part selection.directives = some takes
  arguments : ∀ {object selections chosen spec},
    document.Visits operation part object selections →
    Asks document.fragments part object chosen selections →
      object.field? chosen.name = some spec → ∃ inputs, inputs? spec chosen.arguments = some inputs

end Document

/-- A query whose values are there asks for fields that records have. It comes to no error unless
a resolver fails, or answers what does not fit the type of its field. -/
def Engine.Answers (engine : Engine) : Prop :=
  ∀ {document operation sent values}, engine.isValid document = true →
    operation ∈ document.operations → operation.type = .query →
    engine.variables? operation sent = some values →
    document.Coerces operation (engine.takesPart? values) (engine.inputs? values) →
    ∀ Known : Record → Prop, Known .query →
      (engine.execute operation document.fragments sent).Keeps (·.Proper Known) (·.Fits Known)
        fun result => result.errors = [] ∧ result.data.isNull = false

end QueryAdmission
