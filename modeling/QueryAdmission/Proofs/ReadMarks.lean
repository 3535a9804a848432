import QueryAdmission.Proofs.Mediation
import QueryAdmission.Proofs.References

/-! # What requests leave in the records

The only trace that a request can leave are read marks of notifications. Every mark is one
that an admitted mutation asks for by the id of the notification. A mutation that is answered
without errors has set all marks that it asks for, and one that asks for a notification that
does not exist is never answered without errors. All this is what the resolvers do, whichever
engine asks them, as long as it asks for what operations select. -/

namespace QueryAdmission

open StudyRoom

/-! ## Records with more marks -/

namespace StudyRoom.Store

/-- The records with the notifications of some ids read, and all else as it is. -/
def withRead (store : Store) (ids : List String) : Store :=
  { store with
    notifications := store.notifications.map fun n =>
      { n with read := n.read || ids.contains n.id } }

/-- Whether there is a notification of an id. -/
def notifies (store : Store) (id : String) : Bool := store.notifications.any (·.id == id)

@[simp] theorem withRead_nil (store : Store) : store.withRead [] = store := by
  simp [withRead]

theorem withRead_withRead (store : Store) (ids ids' : List String) :
    (store.withRead ids).withRead ids' = store.withRead (ids ++ ids') := by
  simp [withRead, Function.comp_def, Bool.or_assoc]

theorem mem_readIds_withRead {store : Store} {ids : List String} {id : String} :
    id ∈ (store.withRead ids).readIds ↔
      id ∈ store.readIds ∨ id ∈ ids ∧ store.notifies id = true := by
  simp only [readIds, withRead, notifies, List.filter_map, List.map_map, List.mem_map,
    List.mem_filter, List.any_eq_true, Function.comp_apply, Bool.or_eq_true, List.contains_eq_mem,
    decide_eq_true_eq, beq_iff_eq]
  constructor
  · rintro ⟨n, ⟨hn, hread | hid⟩, rfl⟩
    · exact .inl ⟨n, ⟨hn, hread⟩, rfl⟩
    · exact .inr ⟨hid, n, hn, rfl⟩
  · rintro (⟨n, ⟨hn, hread⟩, rfl⟩ | ⟨hid, n, hn, rfl⟩)
    · exact ⟨n, ⟨hn, .inl hread⟩, rfl⟩
    · exact ⟨n, ⟨hn, .inr hid⟩, rfl⟩

@[simp] theorem notifies_withRead (store : Store) (ids : List String) (id : String) :
    (store.withRead ids).notifies id = store.notifies id := by
  simp [withRead, notifies, Function.comp_def]

theorem markRead?_eq (store : Store) (id : String) :
    store.markRead? id = if store.notifies id then some (store.withRead [id]) else none := by
  unfold markRead? notifies
  split
  · congr 2
    refine List.map_congr_left fun n _ => ?_
    by_cases hid : n.id = id <;> simp [hid]
  · rfl

end StudyRoom.Store

theorem perform_markField (store : Store) (inputs : Inputs) :
    store.perform Store.markField inputs =
      if store.notifies (inputs.text "id") then
        (store.withRead [inputs.text "id"], .ok (.flag true))
      else (store, .error (.noSuchNotification (inputs.text "id"))) := by
  simp only [Store.perform, if_true, Store.markRead?_eq]
  split <;> simp_all

/-- Besides that field, mutations have only the one that every object has, and it only reads. -/
theorem perform_of_ne_markField (store : Store) {name : String} {spec : FieldSpec}
    (hspec : ObjectType.mutation.field? name = some spec) (hname : name ≠ Store.markField)
    (inputs : Inputs) :
    ∃ resolved, store.perform name inputs = (store, .ok resolved) ∧ spec.type.Holds resolved := by
  obtain ⟨rfl, rfl⟩ : name = FieldSpec.typename.name ∧ spec = FieldSpec.typename := by
    simp only [ObjectType.field?, ObjectType.fields, List.find?_cons, List.find?_nil] at hspec
    grind [Store.markField]
  exact ⟨_, rfl, holds_text _⟩

/-! ## One field of a mutation -/

section

variable {inputs? : FieldSpec → List Argument → Option Inputs}

/-- The notification that a field of a mutation marks, if it marks one. -/
def Chosen.marks? (inputs? : FieldSpec → List Argument → Option Inputs) (field : Chosen) :
    Option String :=
  if field.name = Store.markField then
    ((ObjectType.mutation.field? field.name).bind (inputs? · field.arguments)).map (·.text "id")
  else none

theorem Chosen.name_of_marks? {field : Chosen} {id : String} (h : field.marks? inputs? = some id) :
    field.name = Store.markField := by
  by_contra hname
  rw [marks?, if_neg hname] at h
  cases h

theorem Chosen.marks?_eq {field : Chosen} {spec : FieldSpec}
    (hspec : ObjectType.mutation.field? field.name = some spec)
    (hname : field.name = Store.markField) :
    field.marks? inputs? = (inputs? spec field.arguments).map (·.text "id") := by
  rw [marks?, if_pos hname, hspec, Option.bind_some]

/-- A field that is to mark a notification names one that exists. -/
def Chosen.Succeeds (inputs? : FieldSpec → List Argument → Option Inputs) (store : Store)
    (field : Chosen) : Prop :=
  field.name = Store.markField → ∃ id, field.marks? inputs? = some id ∧ store.notifies id = true

theorem Chosen.succeeds_withRead {store : Store} {ids : List String} {field : Chosen} :
    field.Succeeds inputs? (store.withRead ids) ↔ field.Succeeds inputs? store := by
  simp only [Succeeds, Store.notifies_withRead]

/-- The notifications that fields mark. -/
def markedBy (inputs? : FieldSpec → List Argument → Option Inputs) (fields : List Chosen) :
    List String :=
  fields.filterMap (·.marks? inputs?)

/-- Fields up to some point set their marks on a store. If nothing fails these are all fields, and
all of them find their notification. -/
def SetsMarks (inputs? : FieldSpec → List Argument → Option Inputs) (store : Store)
    (fields : List Chosen) (after : Store) (Sound : Prop) : Prop :=
  ∃ done left, fields = done ++ left ∧ after = store.withRead (markedBy inputs? done) ∧
    (Sound → left = [] ∧ ∀ field ∈ fields, field.Succeeds inputs? store)

variable {store after : Store} {field : Chosen} {rest : List Chosen} {Sound : Prop}

theorem SetsMarks.nothing (fields : List Chosen) (h : ¬Sound) :
    SetsMarks inputs? store fields store Sound :=
  ⟨[], fields, rfl, (store.withRead_nil).symm, fun hsound => absurd hsound h⟩

theorem SetsMarks.skip (hname : field.name ≠ Store.markField)
    (h : SetsMarks inputs? store rest after Sound) :
    SetsMarks inputs? store (field :: rest) after Sound := by
  obtain ⟨done, left, rfl, rfl, hclean⟩ := h
  refine ⟨field :: done, left, rfl, ?_, fun hsound => ?_⟩
  · rw [markedBy, markedBy, List.filterMap_cons, Chosen.marks?, if_neg hname]
  · obtain ⟨hleft, hall⟩ := hclean hsound
    exact ⟨hleft, List.forall_mem_cons.mpr ⟨fun hmark => absurd hmark hname, hall⟩⟩

theorem SetsMarks.mark {id : String} (hmarks : field.marks? inputs? = some id)
    (hknown : store.notifies id = true)
    (h : SetsMarks inputs? (store.withRead [id]) rest after Sound) :
    SetsMarks inputs? store (field :: rest) after Sound := by
  obtain ⟨done, left, rfl, rfl, hclean⟩ := h
  refine ⟨field :: done, left, rfl, ?_, fun hsound => ?_⟩
  · rw [Store.withRead_withRead, markedBy, markedBy, List.filterMap_cons, hmarks]
    rfl
  · obtain ⟨hleft, hall⟩ := hclean hsound
    exact ⟨hleft, List.forall_mem_cons.mpr ⟨fun _ => ⟨id, hmarks, hknown⟩,
      fun f hf => Chosen.succeeds_withRead.mp (hall f hf)⟩⟩

/-! ## A whole mutation -/

/-- Fields that are done in their order set their marks, up to the first that fails. -/
theorem Execution.Serial.marks {α : Type} {Fails : α → Prop} {fields : List Chosen}
    {x : Execution α} (h : x.Serial inputs? Fails fields) (store : Store) :
    SetsMarks inputs? store fields (x.run store).store (¬Fails (x.run store).result) := by
  -- the induction is on the fields; each call changes the store for those behind it
  induction h generalizing store with
  | done => exact ⟨[], [], rfl, (store.withRead_nil).symm, fun _ => ⟨rfl, List.forall_mem_nil _⟩⟩
  | unknown hspec _ ih =>
    refine .skip (fun hname => ?_) (ih store)
    rw [hname] at hspec
    cases hspec
  | uncoerced _ _ hfails => exact .nothing _ (not_not_intro hfails)
  | @ask field rest spec inputs next hspec hinputs _ herror ih =>
    by_cases hname : field.name = Store.markField
    · have hmarks : field.marks? inputs? = _ := Chosen.marks?_eq hspec hname
      rw [hinputs, Option.map_some] at hmarks
      have hcall : store.call ⟨.mutation, field.name, inputs⟩ = _ :=
        (congrArg (store.perform · inputs) hname).trans (perform_markField store inputs)
      rw [Execution.run, hcall]
      by_cases hknown : store.notifies (inputs.text "id") = true
      · rw [if_pos hknown]
        rw [hname] at hspec
        cases hspec
        exact .mark hmarks hknown (ih (.flag true) (holds_flag true) _)
      · obtain ⟨result, hdone, hfails⟩ := herror (.noSuchNotification (inputs.text "id"))
        simp only [if_neg hknown, hdone]
        exact .nothing _ (not_not_intro hfails)
    · obtain ⟨resolved, hperform, hholds⟩ := perform_of_ne_markField store hspec hname inputs
      have hcall : store.call ⟨.mutation, field.name, inputs⟩ = _ := hperform
      rw [Execution.run, hcall]
      exact .skip hname (ih resolved hholds store)

end

/-! ## One execution -/

/-- An operation of a document asks for a notification to be marked. -/
def Engine.Marks (engine : Engine) (document : Document) (operation : Operation)
    (values : Variables) (id : String) : Prop :=
  ∃ field, Asks document.fragments (engine.takesPart? values) .mutation field
      (operation.selections.getD []) ∧ field.marks? (engine.inputs? values) = some id

section

variable {engine : Engine} {document : Document} {operation : Operation}

/-- What is not a mutation leaves the store as it is. -/
theorem Engine.Executes.store_of_reads (executes : engine.Executes)
    (hvalid : engine.isValid document = true) (hmem : operation ∈ document.operations)
    (htype : operation.type ≠ .mutation) (sent : List (String × Json)) (store : Store) :
    ((engine.execute operation document.fragments sent).run store).store = store := by
  have hkeeps := executes.reads sent hvalid hmem htype (· ≠ .mutation) nofun
  refine (hkeeps.run_of_reads (not_not_intro rfl) store ?_).1
  rintro call ⟨hrecord, spec, hspec⟩ resolved hanswer next hnext
  exact Store.ne_mutation_of_resolve hrecord hspec hanswer hnext

/-- A mutation sets marks that it asks for. Without an error it sets all of them. -/
theorem Engine.Executes.marks_of_writes (executes : engine.Executes)
    (hvalid : engine.isValid document = true) (hmem : operation ∈ document.operations)
    (htype : operation.type = .mutation) (sent : List (String × Json)) (store : Store) :
    ∃ ids, ((engine.execute operation document.fragments sent).run store).store =
        store.withRead ids ∧
      (∀ id ∈ ids, ∃ values, engine.variables? operation sent = some values ∧
        engine.Marks document operation values id) ∧
      (((engine.execute operation document.fragments sent).run store).result.errors = [] →
        ∃ values, engine.variables? operation sent = some values ∧
          ∀ id, engine.Marks document operation values id →
            id ∈ ids ∧ store.notifies id = true) := by
  rcases executes.writes sent hvalid hmem htype with
    ⟨result, hdone, herrors⟩ | ⟨values, fields, hvalues, hsound, hcomplete, hserial⟩
  · rw [hdone]
    exact ⟨[], (store.withRead_nil).symm, nofun, fun hnone => absurd hnone herrors⟩
  obtain ⟨done, left, rfl, hstore, hclean⟩ := hserial.marks store
  refine ⟨_, hstore, fun id hid => ?_, fun herrors => ⟨values, hvalues, ?_⟩⟩
  · obtain ⟨field, hfield, hmarks⟩ := List.mem_filterMap.mp hid
    exact ⟨values, hvalues, field, hsound field (List.mem_append_left _ hfield), hmarks⟩
  · obtain ⟨rfl, hall⟩ := hclean (not_not_intro herrors)
    rw [List.append_nil] at hall hcomplete hsound
    rintro id ⟨field, hasks, hid⟩
    -- the first field under the key is the one that was done
    obtain ⟨first, hfirst, hkey⟩ := hcomplete field hasks
    obtain ⟨hname, hinputs⟩ :=
      executes.merges values hvalid hmem htype (hsound first hfirst) hasks hkey
    have hmarks : first.marks? (engine.inputs? values) = some id := by
      simp only [Chosen.marks?, hname, hinputs] at hid ⊢
      exact hid
    obtain ⟨id', hid', hknown⟩ := hall first hfirst (Chosen.name_of_marks? hmarks)
    obtain rfl := Option.some.inj (hid'.symm.trans hmarks)
    exact ⟨List.mem_filterMap.mpr ⟨first, hfirst, hmarks⟩, hknown⟩

end

/-! ## Every request of a run -/

namespace AdmissionControl

variable {control : AdmissionControl} {engine : Engine} {exchange : Exchange}

/-- The traces of one exchange are marks that an admitted mutation asks for. Without an error
an operation was executed, and if it is a mutation they are all marks that it asks for. -/
theorem Course.marks (mediates : engine.Mediates) (executes : engine.Executes)
    (h : control.Course engine exchange) :
    ∃ ids, exchange.after.store = exchange.before.store.withRead ids ∧
      (∀ id ∈ ids, ∃ document operation evaluation values,
        control.Judged exchange document operation evaluation ∧
          evaluation.decision = .allowed ∧ operation.type = .mutation ∧
          engine.variables? operation exchange.request.variableValues = some values ∧
          engine.Marks document operation values id) ∧
      ∀ result, exchange.outcome = .ok result → result.errors = [] →
        ∃ document name step operation, exchange.Means document name step operation ∧
          (operation.type = .mutation →
            ∃ values, engine.variables? operation exchange.request.variableValues = some values ∧
              ∀ id, engine.Marks document operation values id →
                id ∈ ids ∧ exchange.before.store.notifies id = true) := by
  cases h with
  | early _ _ hstore hfails =>
    exact ⟨[], by rw [hstore, Store.withRead_nil], nofun, fun result hresult herrors =>
      absurd herrors (hfails result hresult)⟩
  | stopped _ _ _ _ hstore houtcome =>
    refine ⟨[], by rw [hstore, Store.withRead_nil], nofun, fun result hresult herrors => ?_⟩
    obtain rfl := Except.ok.inj (houtcome.symm.trans hresult)
    cases herrors
  | missing _ _ _ _ _ hstore hfails =>
    exact ⟨[], by rw [hstore, Store.withRead_nil], nofun, fun result hresult herrors =>
      absurd herrors (hfails result hresult)⟩
  | @executed document name step operation hmeans hstep hending hvalid htarget hexecutes =>
    have hmem := Document.mem_of_taken? hmeans.taken
    obtain ⟨evaluation, hjudged, hallowed⟩ :=
      judged_of_admitted mediates hmeans hstep hending hvalid htarget
    obtain ⟨hstore, _, houtcome⟩ := hexecutes
    rw [Document.takenFragments_eq (mediates.fragments hvalid)] at hstore houtcome
    by_cases htype : operation.type = .mutation
    · obtain ⟨ids, hafter, hids, hclean⟩ := executes.marks_of_writes hvalid hmem htype
        exchange.request.variableValues exchange.before.store
      refine ⟨ids, hstore.trans hafter, fun id hid => ?_, fun result hresult herrors =>
        ⟨document, name, step, operation, hmeans, fun _ => ?_⟩⟩
      · obtain ⟨values, hvalues, hmarks⟩ := hids id hid
        exact ⟨document, operation, evaluation, values, hjudged, hallowed, htype, hvalues, hmarks⟩
      · obtain rfl := Except.ok.inj (houtcome.symm.trans hresult)
        exact hclean herrors
    · refine ⟨[], ?_, nofun, fun _ _ _ =>
        ⟨document, name, step, operation, hmeans, fun hmutation => absurd hmutation htype⟩⟩
      rw [hstore, executes.store_of_reads hvalid hmem htype, Store.withRead_nil]

/-- The records are those of the beginning with more marks, however many requests came. -/
theorem exists_withRead_of_mem_serve (mediates : engine.Mediates) (executes : engine.Executes)
    {state : ServiceState} {requests : List (Request × Context)}
    (h : exchange ∈ control.serve engine state requests) :
    ∃ ids, exchange.before.store = state.store.withRead ids := by
  induction requests generalizing state with
  | nil => cases h
  | cons first rest ih =>
    obtain ⟨request, context⟩ := first
    rcases List.mem_cons.mp h with rfl | h
    · exact ⟨[], (state.store.withRead_nil).symm⟩
    · obtain ⟨ids, hids⟩ := ih h
      obtain ⟨before, hbefore, _⟩ :=
        (course_exchange mediates control state request context).marks mediates executes
      refine ⟨before ++ ids, ?_⟩
      rw [hids, ← Store.withRead_withRead]
      exact congrArg (·.withRead ids) hbefore

/-- With an engine that executes what it lets pass as the language has it, only read marks are
set in every run from the sample records. Each is one that an admitted mutation asks for. What is
answered without errors was executed, and a mutation leaves read then what was read before and what
it asks for, and nothing else. A mark for a notification that does not exist is an error, and sets
nothing. -/
theorem serve_marks (mediates : engine.Mediates) (executes : engine.Executes)
    (control : AdmissionControl) (requests : List (Request × Context))
    (hmem : exchange ∈ control.serve engine .fresh requests) :
    (∃ ids, exchange.before.store = Store.sample.withRead ids) ∧
    (∃ ids, exchange.after.store = exchange.before.store.withRead ids ∧
      ∀ id ∈ ids, ∃ document operation evaluation values,
        control.Judged exchange document operation evaluation ∧
          evaluation.decision = .allowed ∧ operation.type = .mutation ∧
          engine.variables? operation exchange.request.variableValues = some values ∧
          engine.Marks document operation values id) ∧
    (∀ result, exchange.outcome = .ok result → result.errors = [] →
      ∃ document name step operation, exchange.Means document name step operation ∧
        (operation.type = .mutation →
          ∃ values, engine.variables? operation exchange.request.variableValues = some values ∧
            ∀ id, id ∈ exchange.after.store.readIds ↔
              id ∈ exchange.before.store.readIds ∨ engine.Marks document operation values id)) ∧
    (∀ document name step operation values id, exchange.Means document name step operation →
      operation.type = .mutation →
      engine.variables? operation exchange.request.variableValues = some values →
      engine.Marks document operation values id → exchange.before.store.notifies id = false →
        ∃ result, exchange.outcome = .ok result ∧ result.errors ≠ []) ∧
    ∀ (store : Store) (inputs : Inputs), store.notifies (inputs.text "id") = false →
      store.perform Store.markField inputs =
        (store, .error (.noSuchNotification (inputs.text "id"))) := by
  have hcourse := course_of_mem_serve mediates hmem
  obtain ⟨ids, hstore, hids, hclean⟩ := hcourse.marks mediates executes
  refine ⟨exists_withRead_of_mem_serve mediates executes hmem, ⟨ids, hstore, hids⟩, ?_, ?_, ?_⟩
  · intro result hresult herrors
    obtain ⟨document, name, step, operation, hmeans, hall⟩ := hclean result hresult herrors
    refine ⟨document, name, step, operation, hmeans, fun htype => ?_⟩
    obtain ⟨values, hvalues, hall⟩ := hall htype
    refine ⟨values, hvalues, fun id => ?_⟩
    rw [hstore, Store.mem_readIds_withRead]
    refine or_congr_right ⟨fun ⟨hid, _⟩ => ?_, hall id⟩
    obtain ⟨document', operation', _, values', hjudged, _, _, hvalues', hmarks⟩ := hids id hid
    obtain ⟨_, _, _, hmeans', _⟩ := hjudged.evaluated
    obtain ⟨rfl, rfl⟩ := hmeans.unique hmeans'
    obtain rfl := Option.some.inj (hvalues.symm.trans hvalues')
    exact hmarks
  · intro document name step operation values id hmeans htype hvalues hmarks hunknown
    obtain ⟨result, hresult⟩ : ∃ result, exchange.outcome = .ok result := by
      rcases hcourse.of_means hmeans with ⟨_, _, hstopped⟩ | ⟨_, _, hexecutes⟩
      · exact ⟨_, hstopped⟩
      · exact ⟨_, hexecutes.outcome⟩
    refine ⟨result, hresult, fun herrors => ?_⟩
    obtain ⟨_, _, _, _, hmeans', hall⟩ := hclean result hresult herrors
    obtain ⟨rfl, rfl⟩ := hmeans.unique hmeans'
    obtain ⟨values', hvalues', hall⟩ := hall htype
    obtain rfl := Option.some.inj (hvalues.symm.trans hvalues')
    rw [(hall id hmarks).2] at hunknown
    cases hunknown
  · intro store inputs hunknown
    rw [perform_markField, if_neg (by simp [hunknown])]

end AdmissionControl

/-- A field that marks a notification, under a label or none. -/
def markOf (label : Option String) (id : String) : Selection :=
  .field label "markNotificationRead" [⟨"id", .string id false⟩] [] none

/-- A mutation that marks both notifications. -/
def markBoth : Operation :=
  ⟨.mutation, none, [], [], some [markOf none "n1", markOf (some "b") "n2"]⟩

def markChars : List Char :=
  ['m', 'u', 't', 'a', 't', 'i', 'o', 'n', '\x7b', 'm', 'a', 'r', 'k', 'N', 'o', 't', 'i', 'f', 'i',
    'c', 'a', 't', 'i', 'o', 'n', 'R', 'e', 'a', 'd', '(', 'i', 'd', ':', '"', 'n', '1', '"', ')',
    'b', ':', 'm', 'a', 'r', 'k', 'N', 'o', 't', 'i', 'f', 'i', 'c', 'a', 't', 'i', 'o', 'n', 'R',
    'e', 'a', 'd', '(', 'i', 'd', ':', '"', 'n', '2', '"', ')', '\x7d']

def markDocument : Document := ⟨[.operation markBoth]⟩

def markRequest : Request := ⟨String.ofList markChars, none, [], true⟩

theorem parse?_markRequest : Document.parse? markRequest.source = some markDocument := by
  have hwords : Token.scan? (markChars.length + 1) markChars [] =
      some [.name "mutation", .punctuator '\x7b', .name "markNotificationRead", .punctuator '(',
        .name "id", .punctuator ':', .string "n1" false, .punctuator ')', .name "b",
        .punctuator ':', .name "markNotificationRead", .punctuator '(', .name "id",
        .punctuator ':', .string "n2" false, .punctuator ')', .punctuator '\x7d'] := by
    decide
  have hmark : CodePoint.mark ∉ markChars := by decide
  simp only [Document.parse?, markRequest, Token.ofText?_ofList hmark, hwords]
  rfl

theorem keysFit_markDocument : markDocument.keysFit = true := by
  have hsets : markDocument.keyedSets =
      [.ofSelections (some .mutation) [0] [markOf none "n1", markOf (some "b") "n2"]] := rfl
  refine Document.keysFit_of_alone fun set hset => ?_
  obtain rfl := List.mem_singleton.mp (hsets ▸ hset)
  exact KeyedSet.alone_ofEntries [("markNotificationRead", _), ("b", _)] (by decide)

theorem reaches_markRequest : markRequest.Reaches markDocument markBoth where
  source := by decide
  parsed := parse?_markRequest
  meant := rfl
  permitted _ := rfl
  valid := by
    simp only [Document.isValid, keysFit_markDocument, Bool.and_true]
    decide

namespace AdmissionControl

/-- A mutation with two fields leaves read the two notifications that it asks for. -/
theorem serve_marks_markBoth :
    ∃ gate exchange, strictSettings.gate = .ok gate ∧
      exchange ∈ serve ⟨gate, .standard⟩ .standard .fresh [(markRequest, .none)] ∧
      exchange.before.store.readIds = [] ∧ exchange.after.store.readIds = ["n1", "n2"] ∧
      ∀ id, id ∈ ["n1", "n2"] ↔ Engine.standard.Marks markDocument markBoth [] id := by
  have hfound : (strictSettings.gate.toOption.map fun gate =>
      let marked := passed ⟨gate, .standard⟩ .fresh markRequest markDocument markBoth
      (marked.after.store.readIds, marked.outcome.toOption.map (·.errors))) =
        some (["n1", "n2"], some []) := by decide +kernel
  obtain ⟨gate, hgate, hfound⟩ := Option.map_eq_some_iff.mp hfound
  obtain ⟨hread, herrors⟩ := Prod.mk.inj hfound
  have hserve := serve_of_reaches ⟨gate, .standard⟩ .fresh reaches_markRequest []
  have hmem : passed ⟨gate, .standard⟩ .fresh markRequest markDocument markBoth ∈
      serve ⟨gate, .standard⟩ .standard .fresh [(markRequest, .none)] := by
    rw [hserve]
    exact List.mem_cons_self
  have hmeans : ∃ step, (passed ⟨gate, .standard⟩ .fresh markRequest markDocument markBoth).Means
      markDocument none step markBoth := ⟨_, rfl, rfl⟩
  obtain ⟨step, hmeans⟩ := hmeans
  obtain ⟨result, hresult, herrors⟩ := Option.map_eq_some_iff.mp herrors
  obtain ⟨_, _, _, _, hmeans', hmarks⟩ := (serve_marks Engine.standard_mediates
    Engine.standard_executes ⟨gate, .standard⟩ [(markRequest, .none)] hmem).2.2.1 result
      (eq_ok_of_toOption hresult) herrors
  obtain ⟨rfl, rfl⟩ := hmeans.unique hmeans'
  obtain ⟨values, hvalues, hreads⟩ := hmarks rfl
  obtain rfl : [] = values := Option.some.inj hvalues
  refine ⟨gate, _, eq_ok_of_toOption hgate, hmem, rfl, hread, fun id => ?_⟩
  rw [← hread]
  exact (hreads id).trans (or_iff_right (List.not_mem_nil))

end AdmissionControl

end QueryAdmission
