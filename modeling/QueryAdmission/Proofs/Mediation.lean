import QueryAdmission.Proofs.StandardEngine
import QueryAdmission.Proofs.StepEffects

/-! # Nothing runs that was not admitted

Where any resolver runs for a request, the gate judged the very operation that is executed and
allowed it. The records change only where resolvers ran, so what the gate rejects leaves no trace
in them, and is answered with the rejection alone. All this holds of every request of a run,
whatever the requests before it left behind, and with every engine that takes the admission step
between validation and execution. -/

namespace QueryAdmission

open StudyRoom

/-! ## Requests and what comes of them -/

/-- A request to the service, what it found there, and what came of it. -/
structure Exchange extends Handling where
  request : Request
  context : Context
  before : ServiceState

namespace Exchange

/-- The admission step was taken in front of the document, from which an executor takes the
operation by the same name. -/
structure Means (exchange : Exchange) (document : Document) (name : Option String)
    (step : AdmissionStep) (operation : Operation) : Prop where
  admission : exchange.admission = some ⟨some document, name, step⟩
  taken : document.taken? name = some operation

/-- The step was taken in front of one document, and one operation is taken from it. -/
theorem Means.unique {exchange : Exchange} {document document' : Document}
    {name name' : Option String} {step step' : AdmissionStep} {operation operation' : Operation}
    (h : exchange.Means document name step operation)
    (h' : exchange.Means document' name' step' operation') :
    document = document' ∧ operation = operation' := by
  have hsame := Option.some.inj (h.admission.symm.trans h'.admission)
  obtain ⟨hdocument, rfl, _⟩ := Admission.mk.inj hsame
  obtain rfl := Option.some.inj hdocument
  exact ⟨rfl, Option.some.inj (h.taken.symm.trans h'.taken)⟩

/-- What came of the request is what comes of executing the operation, with the fragments that an
executor takes from the document. -/
structure Executes (exchange : Exchange) (engine : Engine) (document : Document)
    (operation : Operation) : Prop where
  store : exchange.after.store = ((engine.execute operation document.takenFragments
    exchange.request.variableValues).run exchange.before.store).store
  calls : exchange.calls = ((engine.execute operation document.takenFragments
    exchange.request.variableValues).run exchange.before.store).calls
  outcome : exchange.outcome = .ok ((engine.execute operation document.takenFragments
    exchange.request.variableValues).run exchange.before.store).result

end Exchange

namespace AdmissionControl

variable {control : AdmissionControl} {engine : Engine}

/-- What comes of a request. -/
def exchange (control : AdmissionControl) (engine : Engine) (state : ServiceState)
    (request : Request) (context : Context) : Exchange :=
  { control.handle engine state request context with request, context, before := state }

/-- One request after the other. -/
def serve (control : AdmissionControl) (engine : Engine) :
    ServiceState → List (Request × Context) → List Exchange
  | _, [] => []
  | state, (request, context) :: rest =>
    let first := control.exchange engine state request context
    first :: serve control engine first.after rest

/-- Every exchange of a run is what comes of its request. -/
theorem eq_exchange_of_mem_serve {state : ServiceState} {requests : List (Request × Context)}
    {exchange : Exchange} (h : exchange ∈ control.serve engine state requests) :
    exchange = control.exchange engine exchange.before exchange.request exchange.context := by
  induction requests generalizing state with
  | nil => cases h
  | cons first rest ih =>
    rcases List.mem_cons.mp h with rfl | h
    · rfl
    · exact ih h

/-! ## One step -/

section Step

variable {metrics : Metrics} {document : Document} {name : Option String} {context : Context}
  {operation : Operation}

/-- A step that admits a request found its operation, and the gate allowed it. -/
theorem allowed_of_admitted (htarget : document.target? name = some operation)
    (h : (control.step metrics (some document) name context).2.ending = .admitted) :
    ∃ evaluation logs, control.gate.evaluate (some document) name = .ok (evaluation, logs) ∧
      control.gate.Judges (control.gate.bound document) operation evaluation ∧
      evaluation.decision = .allowed := by
  cases heval : control.gate.evaluate (some document) name with
  | error failure =>
    rw [control.step_of_error metrics context heval] at h
    cases h
  | ok found =>
    obtain ⟨evaluation, logs⟩ := found
    rcases Gate.evaluate_cases heval with ⟨hnone, _⟩ | ⟨d, o, hd, hfound, hjudges⟩
    · rw [Option.bind_some, htarget] at hnone
      cases hnone
    · obtain rfl := Option.some.inj hd
      obtain rfl := Option.some.inj (htarget.symm.trans hfound)
      refine ⟨evaluation, logs, rfl, hjudges, ?_⟩
      obtain ⟨_, hcase⟩ := control.step_of_some metrics context heval hjudges.subject
      split at hcase
      · rw [hcase.ending] at h
        cases h
      · rw [hcase.ending] at h
        exact StepEnd.ofDecision_eq_admitted.mp h

/-- A step does not admit what the gate rejected. It ends in the rejection, unless the depth
is no double and cannot be counted. -/
theorem ending_of_rejected {evaluation : Evaluation} {logs : List LogRecord}
    {rejection : Rejection}
    (heval : control.gate.evaluate (some document) name = .ok (evaluation, logs))
    (hrejected : evaluation.decision = .rejected rejection) :
    (control.step metrics (some document) name context).2.ending ≠ .admitted ∧
      (evaluation.depth.toBinary64? ≠ none →
        (control.step metrics (some document) name context).2.ending = .rejected rejection) := by
  rcases Gate.evaluate_cases heval with ⟨_, rfl, _⟩ | ⟨_, _, _, _, hjudges⟩
  · cases hrejected
  · obtain ⟨_, hcase⟩ := control.step_of_some metrics context heval hjudges.subject
    split at hcase
    · rename_i hdepth
      rw [hcase.ending]
      exact ⟨by simp, fun hdouble => absurd hdepth hdouble⟩
    · rw [hcase.ending, hrejected]
      exact ⟨by simp, fun _ => rfl⟩

end Step

/-! ## The course of an exchange -/

/-- What can become of a request, by the admission step: it is not taken, or it raises an error,
or it lets a request pass that means no operation, or one whose operation is executed. Only the
last can have no errors. -/
inductive Course (control : AdmissionControl) (engine : Engine) (exchange : Exchange) : Prop
  | early (hadmission : exchange.admission = none) (hcalls : exchange.calls = [])
      (hstore : exchange.after.store = exchange.before.store) (hfails : exchange.outcome.Fails)
  | stopped {document : Document} {name : Option String} {step : AdmissionStep}
      {error : ResponseError} (hadmission : exchange.admission = some ⟨some document, name, step⟩)
      (hstep : step =
        (control.step exchange.before.metrics (some document) name exchange.context).2)
      (herror : step.ending.raised? = some error) (hcalls : exchange.calls = [])
      (hstore : exchange.after.store = exchange.before.store)
      (houtcome : exchange.outcome = .ok (.ofError error))
  | missing {document : Document} {name : Option String} {step : AdmissionStep}
      (hadmission : exchange.admission = some ⟨some document, name, step⟩)
      (hstep : step =
        (control.step exchange.before.metrics (some document) name exchange.context).2)
      (hending : step.ending = .admitted) (htaken : document.taken? name = none)
      (hcalls : exchange.calls = []) (hstore : exchange.after.store = exchange.before.store)
      (hfails : exchange.outcome.Fails)
  | executed {document : Document} {name : Option String} {step : AdmissionStep}
      {operation : Operation} (hmeans : exchange.Means document name step operation)
      (hstep : step =
        (control.step exchange.before.metrics (some document) name exchange.context).2)
      (hending : step.ending = .admitted) (hvalid : engine.isValid document = true)
      (htarget : document.target? name = some operation)
      (hexecutes : exchange.Executes engine document operation)

theorem StepEnd.raised?_eq_none {ending : StepEnd} :
    ending.raised? = none ↔ ending = .admitted := by
  cases ending <;> simp [StepEnd.raised?]

theorem course_exchange (lawful : engine.Mediates) (control : AdmissionControl)
    (state : ServiceState) (request : Request) (context : Context) :
    control.Course engine (control.exchange engine state request context) := by
  cases hproceed : engine.proceed request with
  | early execution =>
    obtain ⟨ending, rfl, hfails⟩ := lawful.early hproceed
    have hexchange : control.exchange engine state request context =
        ⟨⟨state, none, [], ending⟩, request, context, state⟩ := by
      simp only [exchange, handle, follow, hproceed]
      rfl
    rw [hexchange]
    exact .early rfl rfl rfl hfails
  | admission document name next =>
    obtain ⟨document, rfl, hparsed, hvalid⟩ := lawful.accepted hproceed
    generalize hstep : (control.step state.metrics (some document) name context).2 = step
    -- what is left is how the execution behind the step runs
    have hadmission : (control.exchange engine state request context).admission =
        some ⟨some document, name, step⟩ := by
      simp only [exchange, handle, follow, hproceed, ← hstep]
    have hrun : ∀ {x : Execution Ending}, next step.ending.raised? = x →
        (control.exchange engine state request context).calls = (x.run state.store).calls ∧
        (control.exchange engine state request context).after.store = (x.run state.store).store ∧
        (control.exchange engine state request context).outcome = (x.run state.store).result := by
      rintro _ rfl
      simp only [exchange, handle, follow, hproceed, ← hstep, true_and]
    cases hraised : step.ending.raised? with
    | some error =>
      obtain ⟨hcalls, hstore, houtcome⟩ :=
        hrun (hraised ▸ lawful.raised hproceed error)
      exact .stopped hadmission hstep.symm hraised hcalls hstore houtcome
    | none =>
      cases htaken : document.taken? name with
      | none =>
        obtain ⟨ending, hdone, hfails⟩ := lawful.missing hproceed htaken
        obtain ⟨hcalls, hstore, houtcome⟩ := hrun (hraised ▸ hdone)
        exact .missing hadmission hstep.symm (StepEnd.raised?_eq_none.mp hraised) htaken hcalls
          hstore (houtcome ▸ hfails)
      | some operation =>
        obtain ⟨hcalls, hstore, houtcome⟩ := hrun (hraised ▸ lawful.executed hproceed htaken)
        rw [Execution.run_map] at hcalls hstore houtcome
        exact .executed ⟨hadmission, htaken⟩ hstep.symm (StepEnd.raised?_eq_none.mp hraised) hvalid
          (Document.target?_of_taken? (lawful.operations hvalid) (lawful.names hparsed) htaken)
          ⟨hstore, hcalls, houtcome⟩

theorem course_of_mem_serve (lawful : engine.Mediates) {state : ServiceState}
    {requests : List (Request × Context)} {exchange : Exchange}
    (h : exchange ∈ control.serve engine state requests) : control.Course engine exchange := by
  rw [eq_exchange_of_mem_serve h]
  exact course_exchange lawful control _ _ _

/-! ## Every request of a run -/

/-- The gate judged the operation that an executor takes from the document, with the fragments that
an executor takes, or with none if it does not resolve them. -/
structure Judged (control : AdmissionControl) (exchange : Exchange) (document : Document)
    (operation : Operation) (evaluation : Evaluation) : Prop where
  evaluated : ∃ name step logs, exchange.Means document name step operation ∧
    control.gate.evaluate (some document) name = .ok (evaluation, logs)
  judges : control.gate.Judges
    (if control.gate.resolveFragments then some document.takenFragments else none) operation
    evaluation

section Exchange

variable {exchange : Exchange}

/-- What is executed behind a step that admits it, the gate judged and allowed. -/
theorem judged_of_admitted (lawful : engine.Mediates) {document : Document} {name : Option String}
    {step : AdmissionStep} {operation : Operation}
    (hmeans : exchange.Means document name step operation)
    (hstep : step =
      (control.step exchange.before.metrics (some document) name exchange.context).2)
    (hending : step.ending = .admitted) (hvalid : engine.isValid document = true)
    (htarget : document.target? name = some operation) :
    ∃ evaluation, control.Judged exchange document operation evaluation ∧
      evaluation.decision = .allowed := by
  rw [hstep] at hending
  obtain ⟨evaluation, logs, heval, hjudges, hallowed⟩ := allowed_of_admitted htarget hending
  rw [Gate.bound, ← Document.takenFragments_eq (lawful.fragments hvalid)] at hjudges
  exact ⟨evaluation, ⟨⟨name, step, logs, hmeans, heval⟩, hjudges⟩, hallowed⟩

/-- Where a resolver ran, an operation was executed that the gate judged and allowed. -/
theorem Course.judged_of_calls (lawful : engine.Mediates) (h : control.Course engine exchange)
    (hcalls : exchange.calls ≠ []) :
    ∃ document operation evaluation, control.Judged exchange document operation evaluation ∧
      evaluation.decision = .allowed ∧ exchange.Executes engine document operation := by
  cases h with
  | early _ hnone => exact absurd hnone hcalls
  | stopped _ _ _ hnone => exact absurd hnone hcalls
  | missing _ _ _ _ hnone => exact absurd hnone hcalls
  | executed hmeans hstep hending hvalid htarget hexecutes =>
    obtain ⟨evaluation, hjudged, hallowed⟩ :=
      judged_of_admitted lawful hmeans hstep hending hvalid htarget
    exact ⟨_, _, evaluation, hjudged, hallowed, hexecutes⟩

/-- What the gate rejected, runs nothing and changes nothing, and is answered with no data; the
rejection is the only error, if the depth can be counted. -/
theorem Course.untouched_of_rejected (h : control.Course engine exchange) {admission : Admission}
    (hadmission : exchange.admission = some admission) {evaluation : Evaluation}
    {logs : List LogRecord} {rejection : Rejection}
    (heval : control.gate.evaluate admission.document admission.name = .ok (evaluation, logs))
    (hrejected : evaluation.decision = .rejected rejection) :
    exchange.calls = [] ∧ exchange.after.store = exchange.before.store ∧
      ∃ result, exchange.outcome = .ok result ∧ result.data = .null ∧
        (evaluation.depth.toBinary64? ≠ none → result.errors = [.rejected rejection]) := by
  cases h with
  | early hnone =>
    rw [hnone] at hadmission
    cases hadmission
  | stopped hstopped hstep herror hcalls hstore houtcome =>
    obtain rfl := Option.some.inj (hstopped.symm.trans hadmission)
    refine ⟨hcalls, hstore, _, houtcome, rfl, fun hdouble => ?_⟩
    rw [hstep, (ending_of_rejected heval hrejected).2 hdouble] at herror
    obtain rfl := Option.some.inj herror
    rfl
  | missing hmissing hstep hending =>
    obtain rfl := Option.some.inj (hmissing.symm.trans hadmission)
    rw [hstep] at hending
    exact absurd hending (ending_of_rejected heval hrejected).1
  | executed hmeans hstep hending =>
    obtain rfl := Option.some.inj (hmeans.admission.symm.trans hadmission)
    rw [hstep] at hending
    exact absurd hending (ending_of_rejected heval hrejected).1

/-- A request that means an operation is answered with the error that the step raised, or the step
let it pass and the operation was executed. -/
theorem Course.of_means (h : control.Course engine exchange) {document : Document}
    {name : Option String} {step : AdmissionStep} {operation : Operation}
    (hmeans : exchange.Means document name step operation) :
    (∃ error, step.ending.raised? = some error ∧ exchange.outcome = .ok (.ofError error)) ∨
      step.ending = .admitted ∧ engine.isValid document = true ∧
        exchange.Executes engine document operation := by
  have hsame : ∀ {d n s}, exchange.admission = some ⟨some d, n, s⟩ →
      d = document ∧ n = name ∧ s = step := by
    intro d n s h
    obtain ⟨hdocument, hname, hstep⟩ :=
      Admission.mk.inj (Option.some.inj (h.symm.trans hmeans.admission))
    exact ⟨Option.some.inj hdocument, hname, hstep⟩
  cases h with
  | early hnone => cases hnone.symm.trans hmeans.admission
  | stopped hadmission _ herror _ _ houtcome =>
    obtain ⟨rfl, rfl, rfl⟩ := hsame hadmission
    exact .inl ⟨_, herror, houtcome⟩
  | missing hadmission _ _ hnone =>
    obtain ⟨rfl, rfl, rfl⟩ := hsame hadmission
    cases hnone.symm.trans hmeans.taken
  | executed hmeans' _ hending hvalid _ hexecutes =>
    obtain ⟨rfl, rfl, rfl⟩ := hsame hmeans'.admission
    obtain rfl := Option.some.inj (hmeans'.taken.symm.trans hmeans.taken)
    exact .inr ⟨hending, hvalid, hexecutes⟩

/-- Where the records changed, a resolver ran. -/
theorem Course.calls_of_store_ne (h : control.Course engine exchange)
    (hstore : exchange.after.store ≠ exchange.before.store) : exchange.calls ≠ [] := by
  intro hnone
  cases h with
  | early _ _ hsame => exact hstore hsame
  | stopped _ _ _ _ hsame => exact hstore hsame
  | missing _ _ _ _ _ hsame => exact hstore hsame
  | executed _ _ _ _ _ hexecutes =>
    rw [hexecutes.calls] at hnone
    exact hstore (hexecutes.store.trans (Execution.store_of_calls_nil hnone))

end Exchange

/-- With an engine that takes the admission step between validation and execution, whenever any
resolver ran in an exchange of a run, the gate judged and allowed the very operation that was
executed, with the fragments of the execution as far as it resolves fragments. Whenever it rejected
what it judged, nothing ran and nothing changed, there are no data, and the rejection is the only
error, if its depth can be counted. -/
theorem serve_mediated (lawful : engine.Mediates) (control : AdmissionControl)
    (state : ServiceState) (requests : List (Request × Context)) {exchange : Exchange}
    (hmem : exchange ∈ control.serve engine state requests) :
    (exchange.calls ≠ [] → ∃ document operation evaluation,
      control.Judged exchange document operation evaluation ∧
        evaluation.decision = .allowed ∧ exchange.Executes engine document operation) ∧
    ∀ admission evaluation logs rejection, exchange.admission = some admission →
      control.gate.evaluate admission.document admission.name = .ok (evaluation, logs) →
      evaluation.decision = .rejected rejection →
        exchange.calls = [] ∧ exchange.after.store = exchange.before.store ∧
          ∃ result, exchange.outcome = .ok result ∧ result.data = .null ∧
            (evaluation.depth.toBinary64? ≠ none → result.errors = [.rejected rejection]) := by
  have hcourse := course_of_mem_serve lawful hmem
  exact ⟨hcourse.judged_of_calls lawful, fun _ _ _ _ hadmission heval hrejected =>
    hcourse.untouched_of_rejected hadmission heval hrejected⟩

/-- Whenever an exchange of a run changed the records, the gate judged and allowed what was
executed. -/
theorem serve_records_change (lawful : engine.Mediates) (control : AdmissionControl)
    (state : ServiceState) (requests : List (Request × Context)) {exchange : Exchange}
    (hmem : exchange ∈ control.serve engine state requests)
    (h : exchange.after.store ≠ exchange.before.store) :
    ∃ document operation evaluation, control.Judged exchange document operation evaluation ∧
      evaluation.decision = .allowed ∧ exchange.Executes engine document operation := by
  have hcourse := course_of_mem_serve lawful hmem
  exact hcourse.judged_of_calls lawful (hcourse.calls_of_store_ne h)

end AdmissionControl

/-! ### Selection sets with nothing to compare -/

namespace KeyedSet

/-- The set has no more than one answer under each key, and spreads nothing. -/
structure Alone (set : KeyedSet) : Prop where
  answers : ∀ key, (set.under key).length ≤ 1
  spreads : set.spreads = []

/-- Answers under different keys are alone. -/
theorem alone_ofEntries {position : Position} (answers : List (String × Answer))
    (h : (answers.map Prod.fst).Nodup) :
    Alone (ofEntries position (answers.map fun (key, answer) => .answer key answer)) where
  answers key := by
    induction answers with
    | nil => simp [ofEntries]
    | cons first rest ih =>
      obtain ⟨key', answer⟩ := first
      obtain ⟨hfirst, hrest⟩ := List.nodup_cons.mp h
      rw [List.map_cons, ofEntries, List.foldr_cons, ← ofEntries, under_add_answer]
      split
      · rename_i heq
        subst heq
        -- nothing else is under this key
        have hnone : (ofEntries position
            (rest.map fun (key, answer) => .answer key answer)).under key' = [] := by
          refine List.eq_nil_iff_forall_not_mem.mpr fun other hother => hfirst ?_
          obtain ⟨⟨_, _⟩, hfound, heq⟩ := List.mem_map.mp (mem_under_ofEntries.mp hother)
          obtain ⟨rfl, -⟩ := Entry.answer.inj heq
          exact List.mem_map.mpr ⟨_, hfound, rfl⟩
        rw [hnone, List.length_singleton]
      · exact ih hrest
  spreads := by
    refine List.eq_nil_iff_forall_not_mem.mpr fun name hname => ?_
    obtain ⟨_, _, heq⟩ := List.mem_map.mp (mem_spreads_ofEntries.mp hname)
    cases heq

end KeyedSet

namespace Overlap

/-- The comparison goes through and keeps the record as it is. -/
def Idle (comparison : Comparison) : Prop :=
  ∀ record, comparison.run record = some ((), record)

theorem idle_forM {α : Type} {l : List α} {f : α → Comparison} (h : ∀ a ∈ l, Idle (f a)) :
    Idle (l.forM f) := by
  intro record
  induction l with
  | nil => rfl
  | cons a l ih =>
    show (f a >>= fun _ => l.forM f).run record = _
    rw [StateT.run_bind, h a List.mem_cons_self record]
    exact ih fun b hb => h b (List.mem_cons_of_mem a hb)

/-- Behind a comparison that goes through, idle ones go through as well. -/
theorem isSome_forM {α : Type} {a : α} {l : List α} {f : α → Comparison} {record : Record}
    (ha : ((f a).run record).isSome = true) (hl : ∀ b ∈ l, Idle (f b)) :
    (((a :: l).forM f).run record).isSome = true := by
  obtain ⟨⟨_, after⟩, hafter⟩ := Option.isSome_iff_exists.mp ha
  show ((f a >>= fun _ => l.forM f).run record).isSome = true
  rw [StateT.run_bind, hafter]
  exact Option.isSome_of_eq_some (idle_forM hl after)

variable {sets : Sets} {set : KeyedSet}

theorem idle_compareWithin (h : set.Alone) (fuel : Nat) : Idle (compareWithin sets fuel set) := by
  have hpairs : Idle (set.keys.forM fun key =>
      eachPair (compareAnswers sets fuel false) (set.under key)) := by
    refine idle_forM fun key _ record => ?_
    have hlength := h.answers key
    cases hunder : set.under key with
    | nil => rfl
    | cons a rest =>
      rw [hunder, List.length_cons] at hlength
      rw [List.length_eq_zero_iff.mp (Nat.le_zero.mp (Nat.le_of_succ_le_succ hlength))]
      rfl
  intro record
  rw [compareWithin, StateT.run_bind, hpairs record, h.spreads]
  rfl

/-- The comparison of a set that is one spread, of a fragment without spreads, goes through. -/
theorem isSome_compareWithin {fragment : KeyedSet} {name : String} (hkeys : set.keys = [])
    (hspreads : set.spreads = [name]) (hfound : sets.byFragment[name]? = some fragment)
    (hfragment : fragment.spreads = []) (fuel : Nat) :
    ((compareWithin sets (fuel + 2) set).run .fresh).isSome = true := by
  have hlimit : 0 < comparisonLimit := by decide
  by_cases hposition : set.position = fragment.position <;>
    simp [compareWithin, hkeys, hspreads, compareWithFragment, onceWithFragment, count, hfound,
      hposition, Record.fresh, hlimit, covers, eachPair, compareKeys, hfragment]

end Overlap

/-- The keys of a document fit where every set is alone. -/
theorem Document.keysFit_of_alone {document : Document} (h : ∀ set ∈ document.keyedSets, set.Alone) :
    document.keysFit = true := by
  rw [keysFit_eq]
  exact Option.isSome_of_eq_some
    (Overlap.idle_forM (fun set hset => Overlap.idle_compareWithin (h set hset) _) .fresh)

/-! ### A fragment that the gate sees, or does not see -/

/-- The selection of one's own user with some fields. -/
def ownWith (fields : List Selection) : List Selection :=
  [.field none "me" [] [] (some fields)]

/-- A query that spreads a fragment on queries, which asks for one's own user. -/
def ownBySpread : Operation := ⟨.query, none, [], [], some [.spread "a" [] none]⟩

def ownFragment : Fragment := ⟨"a", "Query", [], some (ownWith [leafOf "id"])⟩

def spreadChars : List Char :=
  ['{', '.', '.', '.', 'a', '}', 'f', 'r', 'a', 'g', 'm', 'e', 'n', 't', ' ', 'a', ' ', 'o',
    'n', ' ', 'Q', 'u', 'e', 'r', 'y', '{', 'm', 'e', '{', 'i', 'd', '}', '}']

def spreadDocument : Document := ⟨[.operation ownBySpread, .fragment ownFragment]⟩

def spreadRequest : Request := ⟨String.ofList spreadChars, none, [], true⟩

theorem parse?_spreadRequest : Document.parse? spreadRequest.source = some spreadDocument := by
  have hwords : Token.scan? (spreadChars.length + 1) spreadChars [] =
      some [.punctuator '{', .dots, .name "a", .punctuator '}', .name "fragment", .name "a",
        .name "on", .name "Query", .punctuator '{', .name "me", .punctuator '{', .name "id",
        .punctuator '}', .punctuator '}'] := by decide
  have hmark : CodePoint.mark ∉ spreadChars := by decide
  simp only [Document.parse?, spreadRequest, Token.ofText?_ofList hmark, hwords]
  rfl

theorem nestsWithinLimit_spreadDocument : spreadDocument.nestsWithinLimit = true := by
  have hfragments : spreadDocument.fragmentDefinitions = [ownFragment] := rfl
  have hoperations : spreadDocument.operations = [ownBySpread] := rfl
  simp [Document.nestsWithinLimit, hfragments, hoperations, ownFragment, ownBySpread, ownWith,
    leafOf, Document.deepen, Grammar.nestingLimit, Selection.setLevels, Selection.levels,
    Document.levelTable, Std.HashMap.ofList_singleton]

theorem keysFit_spreadDocument : spreadDocument.keysFit = true := by
  have hsets : spreadDocument.keyedSets = [.ofSelections (some .query) [0] [.spread "a" [] none],
      .ofSelections (some .query) [1] (ownWith [leafOf "id"]),
      .ofSelections (some .user) [0, 1] [leafOf "id"]] := rfl
  have hfuel : 6 * (Grammar.nestingLimit + 1) = 1204 + 2 := rfl
  rw [Document.keysFit_eq, hsets, hfuel]
  have hown : KeyedSet.Alone (.ofSelections (some .query) [1] (ownWith [leafOf "id"])) :=
    KeyedSet.alone_ofEntries [("me", _)] (by decide)
  have hfound : spreadDocument.overlapSets.byFragment["a"]? =
      some (.ofSelections (some .query) [1] (ownWith [leafOf "id"])) :=
    Std.HashMap.getElem?_insert_self
  refine Overlap.isSome_forM (Overlap.isSome_compareWithin rfl rfl hfound hown.spreads 1204) ?_
  intro set hset
  simp only [List.mem_cons, List.not_mem_nil, or_false] at hset
  rcases hset with rfl | rfl
  · exact Overlap.idle_compareWithin hown _
  · exact Overlap.idle_compareWithin (KeyedSet.alone_ofEntries [("id", _)] (by decide)) _

theorem reaches_spreadRequest : spreadRequest.Reaches spreadDocument ownBySpread where
  source := by decide
  parsed := parse?_spreadRequest
  meant := rfl
  permitted := nofun
  valid := by
    simp only [Document.isValid, nestsWithinLimit_spreadDocument, keysFit_spreadDocument,
      Bool.and_true]
    decide

/-- A query for one's own user with two fields. -/
def wideQuery : Operation :=
  ⟨.query, none, [], [], some (ownWith [leafOf "id", leafOf "username"])⟩

def wideChars : List Char :=
  ['\x7b', 'm', 'e', '\x7b', 'i', 'd', ' ', 'u', 's', 'e', 'r', 'n', 'a', 'm', 'e', '\x7d', '\x7d']

def wideDocument : Document := ⟨[.operation wideQuery]⟩

def wideRequest : Request := ⟨String.ofList wideChars, none, [], true⟩

theorem parse?_wideRequest : Document.parse? wideRequest.source = some wideDocument := by
  have hwords : Token.scan? (wideChars.length + 1) wideChars [] =
      some [.punctuator '\x7b', .name "me", .punctuator '\x7b', .name "id", .name "username",
        .punctuator '\x7d', .punctuator '\x7d'] := by decide
  have hmark : CodePoint.mark ∉ wideChars := by decide
  simp only [Document.parse?, wideRequest, Token.ofText?_ofList hmark, hwords]
  rfl

theorem keysFit_wideDocument : wideDocument.keysFit = true := by
  have hsets : wideDocument.keyedSets =
      [.ofSelections (some .query) [0] (ownWith [leafOf "id", leafOf "username"]),
        .ofSelections (some .user) [0, 0] [leafOf "id", leafOf "username"]] := rfl
  refine Document.keysFit_of_alone fun set hset => ?_
  simp only [hsets, List.mem_cons, List.not_mem_nil, or_false] at hset
  rcases hset with rfl | rfl
  · exact KeyedSet.alone_ofEntries [("me", _)] (by decide)
  · exact KeyedSet.alone_ofEntries [("id", _), ("username", _)] (by decide)

theorem reaches_wideRequest : wideRequest.Reaches wideDocument wideQuery where
  source := by decide
  parsed := parse?_wideRequest
  meant := rfl
  permitted := nofun
  valid := by
    simp only [Document.isValid, keysFit_wideDocument, Bool.and_true]
    decide

namespace AdmissionControl

/-- The exchange of a request that comes to the admission step of the standard engine. -/
def passed (control : AdmissionControl) (state : ServiceState) (request : Request)
    (document : Document) (operation : Operation) : Exchange :=
  let name := request.operationName <|> operation.name
  { control.follow state .none
      (.admission (some document) name
        (Engine.Standard.behind document name request.variableValues)) with
    request, context := .none, before := state }

theorem serve_of_reaches (control : AdmissionControl) (state : ServiceState) {request : Request}
    {document : Document} {operation : Operation} (h : request.Reaches document operation)
    (rest : List (Request × Context)) :
    control.serve .standard state ((request, .none) :: rest) =
      control.passed state request document operation ::
        control.serve .standard (control.passed state request document operation).after rest := by
  have hexchange : control.exchange .standard state request .none =
      control.passed state request document operation :=
    congrArg (fun p => Exchange.mk (control.follow state .none p) request .none state)
      (Engine.Standard.proceed_of_reaches h)
  rw [serve, hexchange]

/-- A request for a fragment within the limits of the settings, and one for too many fields. -/
def twoRequests : List (Request × Context) := [(spreadRequest, .none), (wideRequest, .none)]

/-- Resolvers run for the first request, and none for the second. -/
theorem serve_mediated_twoRequests :
    ∃ gate executed refused, strictSettings.gate = .ok gate ∧
      serve ⟨gate, .standard⟩ .standard .fresh twoRequests = [executed, refused] ∧
      executed.calls ≠ [] ∧
      (∃ document operation evaluation,
        Judged ⟨gate, .standard⟩ executed document operation evaluation ∧
          evaluation.decision = .allowed ∧ executed.Executes .standard document operation) ∧
      refused.calls = [] ∧ refused.after.store = refused.before.store := by
  have hcalls : (strictSettings.gate.toOption.map fun gate =>
      (passed ⟨gate, .standard⟩ .fresh spreadRequest spreadDocument ownBySpread).calls.length) =
        some 2 := by decide +kernel
  have hevaluated : (strictSettings.gate.toOption.bind fun gate =>
      (gate.evaluate (some wideDocument) none).toOption).map (·.1.decision.isAllowed) =
        some false := by decide +kernel
  obtain ⟨gate, hgate, hcalls⟩ := Option.map_eq_some_iff.mp hcalls
  have hgate := eq_ok_of_toOption hgate
  obtain ⟨evaluation, logs, heval, hrejected⟩ := Settings.exists_evaluation hgate hevaluated
  obtain ⟨rejection, hrejection⟩ := Decision.isAllowed_eq_false_iff.mp hrejected
  have hserve := serve_of_reaches ⟨gate, .standard⟩ .fresh reaches_spreadRequest
    [(wideRequest, .none)]
  rw [serve_of_reaches ⟨gate, .standard⟩ _ reaches_wideRequest] at hserve
  generalize hexecuted : passed ⟨gate, .standard⟩ .fresh spreadRequest spreadDocument
    ownBySpread = executed at hserve hcalls
  generalize hrefused : passed ⟨gate, .standard⟩ executed.after wideRequest wideDocument
    wideQuery = refused at hserve
  have hran : executed.calls ≠ [] := by
    intro hnone
    rw [hnone] at hcalls
    cases hcalls
  have hfirst : executed ∈ serve ⟨gate, .standard⟩ .standard .fresh twoRequests := by
    rw [twoRequests, hserve]
    exact List.mem_cons_self
  have hsecond : refused ∈ serve ⟨gate, .standard⟩ .standard .fresh twoRequests := by
    rw [twoRequests, hserve]
    exact List.mem_cons_of_mem _ List.mem_cons_self
  have hadmission : ∃ step, refused.admission = some ⟨some wideDocument, none, step⟩ := by
    rw [← hrefused]
    exact ⟨_, rfl⟩
  obtain ⟨step, hadmission⟩ := hadmission
  obtain ⟨hnone, hstore, _⟩ := (serve_mediated Engine.standard_mediates ⟨gate, .standard⟩ .fresh
    twoRequests hsecond).2 _ evaluation logs rejection hadmission heval hrejection
  exact ⟨gate, executed, refused, hgate, hserve, hran,
    (serve_mediated Engine.standard_mediates ⟨gate, .standard⟩ .fresh twoRequests hfirst).1 hran,
    hnone, hstore⟩

theorem isNonNegative_one : (Quantity.float (.ofInt 1)).isNonNegative = true := by
  decide +kernel

/-- Settings that allow a complexity of one and resolve no fragments. -/
def blindSettings : Settings :=
  { strictSettings with maxComplexity := ⟨.ofInt 1, isNonNegative_one⟩, resolveFragments := false }

/-- A gate that resolves no fragments lets a spread pass at no cost, and the resolvers of the
fragment run. With the fragment the operation is scored beyond the limit. -/
theorem serve_unmediated_spread :
    ∃ gate exchange evaluation logs, blindSettings.gate = .ok gate ∧
      exchange ∈ serve ⟨gate, .standard⟩ .standard .fresh [(spreadRequest, .none)] ∧
      exchange.calls.length = 2 ∧
      gate.evaluate (some spreadDocument) none = .ok (evaluation, logs) ∧
      evaluation.complexity = .zero ∧
      gate.scorer.score (some spreadDocument.fragments) ownBySpread.selections 0 =
        .ok (.ofInt 2) ∧
      ¬gate.Judges (some spreadDocument.fragments) ownBySpread evaluation := by
  have hfound : (blindSettings.gate.toOption.bind fun gate =>
      (gate.evaluate (some spreadDocument) none).toOption.bind fun found =>
        (gate.scorer.score (some spreadDocument.fragments) ownBySpread.selections 0).toOption.map
          fun score => (found.1.complexity, score,
            (passed ⟨gate, .standard⟩ .fresh spreadRequest spreadDocument
              ownBySpread).calls.length)) =
      some (.zero, .ofInt 2, 2) := by decide +kernel
  obtain ⟨gate, hgate, hfound⟩ := Option.bind_eq_some_iff.mp hfound
  obtain ⟨⟨evaluation, logs⟩, heval, hfound⟩ := Option.bind_eq_some_iff.mp hfound
  obtain ⟨score, hscore, hfound⟩ := Option.map_eq_some_iff.mp hfound
  simp only [Prod.mk.injEq] at hfound
  obtain ⟨hcomplexity, htwo, hcalls⟩ := hfound
  rw [htwo] at hscore
  have hscore := eq_ok_of_toOption hscore
  have hne : Binary64.ofInt 2 ≠ .zero := by decide +kernel
  refine ⟨gate, _, evaluation, logs, eq_ok_of_toOption hgate, ?_, hcalls, eq_ok_of_toOption heval,
    hcomplexity, hscore, ?_⟩
  · rw [serve_of_reaches _ _ reaches_spreadRequest]
    exact List.mem_cons_self
  · intro hjudges
    have hsame := hjudges.complexity
    rw [hscore, hcomplexity] at hsame
    exact hne (Except.ok.inj hsame)

end AdmissionControl

end QueryAdmission
