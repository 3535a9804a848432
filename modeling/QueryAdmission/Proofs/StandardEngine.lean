import QueryAdmission.Proofs.Engines
import QueryAdmission.Proofs.NestingLevels
import QueryAdmission.Proofs.ParsedLiterals
import QueryAdmission.Proofs.MergedFields

/-! # The standard engine

The standard engine does what is relied on of an engine: it takes the admission step between
validation and execution, and its executions ask for what their operations select. -/

namespace QueryAdmission

open StudyRoom

/-! ## Around the admission step -/

/-- A request comes to the admission step: its document is read and valid, there is an operation
for it, and a mutation only where the way in is open to mutations. -/
structure Request.Reaches (request : Request) (document : Document) (operation : Operation) :
    Prop where
  source : request.source.isEmpty = false
  parsed : Document.parse? request.source = some document
  meant : document.operationNamed? request.operationName = some operation
  permitted : operation.type = .mutation → request.mayMutate = true
  valid : document.isValid = true

namespace Engine

namespace Standard

theorem proceed_of_reaches {request : Request} {document : Document} {operation : Operation}
    (h : request.Reaches document operation) :
    proceed request = .admission (some document) (request.operationName <|> operation.name)
      (behind document (request.operationName <|> operation.name) request.variableValues) := by
  have hpermitted : (decide (operation.type = .mutation) && !request.mayMutate) = false := by
    by_cases htype : operation.type = .mutation
    · simp [h.permitted htype]
    · simp [htype]
  simp [proceed, h.source, h.parsed, h.meant, hpermitted, h.valid]

theorem fails_error (refusal : Refusal) : Ending.Fails (.error refusal) := nofun

theorem fails_ofError (error : ResponseError) : Ending.Fails (.ok (.ofError error)) := by
  intro result h
  obtain rfl := Except.ok.inj h
  exact List.cons_ne_nil _ _

/-- Nothing else comes to the admission step, and what does not fails. -/
theorem proceed_cases (request : Request) :
    (∃ ending : Ending, proceed request = .early (.done ending) ∧ ending.Fails) ∨
      ∃ document operation, request.Reaches document operation := by
  unfold proceed
  split
  · exact .inl ⟨_, rfl, fails_error _⟩
  rename_i hsource
  split
  · exact .inl ⟨_, rfl, fails_ofError _⟩
  rename_i document hparsed
  split
  · exact .inl ⟨_, rfl, fails_error _⟩
  rename_i operation hmeant
  split
  · exact .inl ⟨_, rfl, fails_error _⟩
  rename_i hpermitted
  split
  · rename_i hvalid
    exact .inr ⟨document, operation, by simpa using hsource, hparsed, hmeant,
      by simpa using hpermitted, hvalid⟩
  · exact .inl ⟨_, rfl, fails_ofError _⟩

/-- What comes to the admission step is a valid document that was read. -/
theorem accepted_of_proceed {request : Request} {document : Option Document} {name : Option String}
    {next : Option ResponseError → Execution Ending}
    (h : proceed request = .admission document name next) :
    ∃ d, document = some d ∧ Document.parse? request.source = some d ∧ d.isValid = true ∧
      next = behind d name request.variableValues := by
  rcases proceed_cases request with ⟨_, heq, _⟩ | ⟨d, operation, hreaches⟩
  · cases heq.symm.trans h
  · obtain ⟨rfl, rfl, rfl⟩ := Proceeding.admission.inj ((proceed_of_reaches hreaches).symm.trans h)
    exact ⟨d, rfl, hreaches.parsed, hreaches.valid, rfl⟩

end Standard

open Standard in
theorem standard_mediates : standard.Mediates where
  early {request execution} h := by
    rcases proceed_cases request with ⟨ending, heq, hfails⟩ | ⟨_, _, hreaches⟩
    · exact ⟨ending, (Proceeding.early.inj (heq.symm.trans h)).symm, hfails⟩
    · cases (proceed_of_reaches hreaches).symm.trans h
  accepted h := by
    obtain ⟨d, hd, hparsed, hvalid, _⟩ := accepted_of_proceed h
    exact ⟨d, hd, hparsed, hvalid⟩
  raised h error := by
    obtain ⟨d, _, _, _, rfl⟩ := accepted_of_proceed h
    rfl
  executed h htaken := by
    obtain ⟨d, hd, _, _, rfl⟩ := accepted_of_proceed h
    obtain rfl := Option.some.inj hd
    simp only [behind, htaken]
    rfl
  missing h htaken := by
    obtain ⟨d, hd, _, _, rfl⟩ := accepted_of_proceed h
    obtain rfl := Option.some.inj hd
    simp only [behind, htaken]
    exact ⟨_, rfl, fails_ofError _⟩
  operations hvalid := Document.nodup_operations hvalid
  fragments hvalid := Document.nodup_fragments hvalid
  names hparsed operation hmem :=
    (Document.isPlain_of_parse? hparsed _ (Document.mem_operations hmem)).name operation rfl

end Engine

/-! ## Records that an execution comes to -/

section

variable {α β : Type} {Known : Record → Prop}

/-- Known records are asked for fields that they have, as long as the answers lead to such, and a
value that comes of it is of a kind. -/
abbrev Answering.Within (Known : Record → Prop) (P : α → Prop) (x : Answering α) : Prop :=
  x.Keeps (·.Proper Known)
    (fun _ answer => ∀ resolved, answer = .ok resolved → ∀ record ∈ resolved.next, Known record)
    fun answered => ∀ a, answered.value = some a → P a

namespace Answering

theorem within_pure {P : α → Prop} {a : α} (h : P a) : (pure a : Answering α).Within Known P :=
  .done fun _ hsome => Option.some.inj hsome ▸ h

theorem within_raise {P : α → Prop} (e : ExecutionError) :
    (raise e : Answering α).Within Known P := .done nofun

theorem within_ofOption (o : Option α) : (ofOption o).Within Known (o = some ·) := by
  cases o with
  | none => exact within_raise _
  | some a => exact within_pure rfl

theorem Within.bind {P : α → Prop} {Q : β → Prop} {x : Answering α} {f : α → Answering β}
    (h : x.Within Known P) (hf : ∀ a, P a → (f a).Within Known Q) : (x >>= f).Within Known Q :=
  Keeps.bind h (fun _ _ => nofun) fun _ a ha => hf a (ha a rfl)

theorem Within.absorb {P : α → Prop} {x : Answering α} (h : x.Within Known fun _ => True)
    (nullable : Bool) {null : α} (hp : ∀ a, P a) : (x.absorb nullable null).Within Known P :=
  Execution.Keeps.map (h.mono fun _ _ a _ => hp a)

theorem within_ask {call : ResolverCall} (h : call.Proper Known) (path : List PathPart) :
    (ask call path).Within Known fun resolved => ∀ record ∈ resolved.next, Known record := by
  refine .ask h fun answer hanswer => ?_
  cases answer with
  | ok resolved => exact within_pure (hanswer resolved rfl)
  | error e => exact within_raise _

theorem within_mapM {f : α → Answering β} {as : List α}
    (h : ∀ a ∈ as, (f a).Within Known fun _ => True) :
    (as.mapM f).Within Known fun _ => True := by
  induction as with
  | nil => exact within_pure trivial
  | cons a as ih =>
    obtain ⟨hfirst, hrest⟩ := List.forall_mem_cons.mp h
    rw [List.mapM_cons]
    exact hfirst.bind fun _ _ => (ih hrest).bind fun _ _ => within_pure trivial

end Answering

open Answering

theorem complete_within {answer : Answerer} {sets : List SelectionSet} (type : OutputType)
    {resolved : Resolved}
    (h : ∀ record ∈ resolved.next, ∀ path, (answer record path sets).Within Known fun _ => True)
    (path : List PathPart) :
    (complete answer sets type path resolved).Within Known fun _ => True := by
  induction type generalizing resolved path with
  | named type =>
    cases type <;> cases resolved <;>
      first
        | exact within_pure trivial
        | exact within_raise _
        | exact h _ List.mem_cons_self path
  | list item ih =>
    cases resolved with
    | null => exact within_pure trivial
    | records rs =>
      rw [complete]
      refine (within_mapM ?_).bind fun _ _ => within_pure trivial
      rintro ⟨r, i⟩ hr
      have hmem : r ∈ rs := List.fst_mem_of_mem_zipIdx hr
      refine (ih ?_ _).absorb _ fun _ => trivial
      intro record hrecord
      obtain rfl := List.mem_singleton.mp hrecord
      exact h record hmem
    | _ => exact within_raise _
  | nonNull type ih =>
    rw [complete]
    refine (ih h path).bind fun json _ => ?_
    split
    · exact within_raise _
    · exact within_pure trivial

theorem answerField_within {scope : Scope} {answer : Answerer} {record : Record}
    (hrecord : Known record)
    (h : ∀ next, Known next → ∀ path sets, (answer next path sets).Within Known fun _ => True)
    (path : List PathPart) (fields : List Chosen) :
    (answerField scope answer record path fields).Within Known fun _ => True := by
  unfold answerField
  split
  · exact within_pure trivial
  split
  · exact within_pure trivial
  rename_i spec hspec
  refine Within.bind (P := fun _ => True) ?_ fun _ _ => within_pure trivial
  refine Within.absorb ?_ _ fun _ => trivial
  refine (within_ofOption _).bind fun inputs _ => ?_
  refine (within_ask ⟨hrecord, spec, hspec⟩ path).bind fun resolved hnext => ?_
  exact complete_within _ (fun next hmem path => h next (hnext next hmem) path _) path

theorem answerRecord_within (scope : Scope) (levels : Nat) {record : Record} (h : Known record)
    (path : List PathPart) (sets : List SelectionSet) :
    (answerRecord scope levels record path sets).Within Known fun _ => True := by
  induction levels generalizing record path sets with
  | zero => exact within_raise _
  | succ levels ih =>
    rw [answerRecord]
    refine (within_ofOption _).bind fun fields _ => ?_
    refine (within_mapM ?_).bind fun _ _ => within_pure trivial
    rintro ⟨key, fields⟩ _
    exact (answerField_within h (fun next hnext path sets => ih hnext path sets) _ _).bind
      fun _ _ => within_pure trivial

end

/-! ## Fields by their keys -/

/-- Groups hold nothing but the fields, each under its key, and no group is empty. -/
structure Grouped (fields : List Chosen) (groups : List (String × List Chosen)) : Prop where
  nonempty : ∀ group ∈ groups, group.2 ≠ []
  sound : ∀ group ∈ groups, ∀ field ∈ group.2, field ∈ fields ∧ field.key = group.1
  complete : ∀ field ∈ fields, ∃ group ∈ groups, group.1 = field.key ∧ field ∈ group.2

theorem Grouped.addChosen {fields : List Chosen} {groups : List (String × List Chosen)}
    (h : Grouped fields groups) (field : Chosen) :
    Grouped (fields ++ [field]) (addChosen groups field) := by
  have hadded : ∀ other ∈ fields ++ [field], other ∈ fields ∨ other = field := fun other hother =>
    (List.mem_append.mp hother).imp_right List.mem_singleton.mp
  unfold QueryAdmission.addChosen
  split
  · rename_i hany
    obtain ⟨there, hthere, hkey⟩ := List.any_eq_true.mp hany
    refine ⟨?_, ?_, ?_⟩
    · intro group hgroup
      obtain ⟨old, hold, rfl⟩ := List.mem_map.mp hgroup
      have := h.nonempty old hold
      split <;> simp [this]
    · intro group hgroup other hother
      obtain ⟨old, hold, rfl⟩ := List.mem_map.mp hgroup
      have hsound := h.sound old hold
      grind
    · intro other hother
      rcases hadded other hother with hother | rfl
      · obtain ⟨old, hold, hkeys, hmem⟩ := h.complete other hother
        refine ⟨_, List.mem_map_of_mem hold, ?_⟩
        grind
      · refine ⟨_, List.mem_map_of_mem hthere, ?_⟩
        grind
  · rename_i hnone
    refine ⟨?_, ?_, ?_⟩
    · intro group hgroup
      rcases List.mem_append.mp hgroup with hgroup | hgroup
      · exact h.nonempty group hgroup
      · obtain rfl := List.mem_singleton.mp hgroup
        exact List.cons_ne_nil _ _
    · intro group hgroup other hother
      rcases List.mem_append.mp hgroup with hgroup | hgroup
      · obtain ⟨hmem, hkey⟩ := h.sound group hgroup other hother
        exact ⟨List.mem_append_left _ hmem, hkey⟩
      · obtain rfl := List.mem_singleton.mp hgroup
        obtain rfl := List.mem_singleton.mp hother
        exact ⟨List.mem_append_right _ List.mem_cons_self, rfl⟩
    · intro other hother
      rcases hadded other hother with hother | rfl
      · obtain ⟨old, hold, hkeys, hmem⟩ := h.complete other hother
        exact ⟨old, List.mem_append_left _ hold, hkeys, hmem⟩
      · exact ⟨_, List.mem_append_right _ List.mem_cons_self, rfl, List.mem_cons_self⟩

theorem grouped_byKey (fields : List Chosen) : Grouped fields (byKey fields) := by
  have hfold : ∀ (rest : List Chosen) {fields groups}, Grouped fields groups →
      Grouped (fields ++ rest) (rest.foldl addChosen groups) := by
    intro rest
    induction rest with
    | nil => intro fields groups h; simpa using h
    | cons field rest ih =>
      intro fields groups h
      simpa using ih (h.addChosen field)
  have hnil : Grouped [] [] := ⟨by simp, by simp, by simp⟩
  exact hfold fields hnil

/-! ## Fields of a mutation -/

theorem Execution.Serial.map {α β : Type} {inputs? : FieldSpec → List Argument → Option Inputs}
    {Fails : α → Prop} {Fails' : β → Prop} {fields : List Chosen} {x : Execution α} {f : α → β}
    (h : x.Serial inputs? Fails fields) (hf : ∀ a, Fails a → Fails' (f a)) :
    (x.map f).Serial inputs? Fails' fields := by
  induction h with
  | done => exact .done
  | unknown hspec _ ih => exact .unknown hspec ih
  | uncoerced hspec hinputs hfails => exact .uncoerced hspec hinputs (hf _ hfails)
  | ask hspec hinputs _ herror ih =>
    refine .ask hspec hinputs ih fun e => ?_
    obtain ⟨result, heq, hfails⟩ := herror e
    exact ⟨f result, by rw [heq]; rfl, hf _ hfails⟩

section

variable {α β : Type} {scope : Scope}

/-- The fields of a mutation are done one after the other, in an execution of a part. -/
abbrev Answering.Serial (scope : Scope) (fields : List Chosen) (x : Answering α) : Prop :=
  Execution.Serial (fun spec => spec.inputs? scope.values)
    (fun answered : Answered α => answered.errors ≠ []) fields x

theorem Answering.Serial.behind {fields : List Chosen} {x : Answering α} (h : x.Serial scope fields)
    (errors : List ExecutionError) :
    Answering.Serial scope fields (Execution.map (.behind errors) x : Answering α) :=
  h.map fun _ hne => List.append_ne_nil_of_right_ne_nil _ hne

/-- Both fields of mutations have scalars that are not null. -/
theorem mutation_field?_scalar {name : String} {spec : FieldSpec}
    (h : ObjectType.mutation.field? name = some spec) :
    ∃ scalar, spec.type = FieldSpec.scalar scalar := by
  have hall : ∀ spec ∈ FieldSpec.typename :: ObjectType.mutation.fields,
      spec.type = FieldSpec.scalar .string ∨ spec.type = FieldSpec.scalar .boolean := by decide
  rcases hall spec (List.mem_of_find?_eq_some h) with h | h
  · exact ⟨_, h⟩
  · exact ⟨_, h⟩

/-- The first field is done in front of the rest. -/
theorem answerField_serial (answer : Answerer) (path : List PathPart) {fields : List Chosen}
    {field : Chosen} (hhead : fields.head? = some field) {rest : List Chosen}
    {k : Option Json → Answering β} (hk : ∀ value, (k value).Serial scope rest) :
    (answerField scope answer .mutation path fields >>= k).Serial scope (field :: rest) := by
  have hfield : Record.mutation.type = .mutation := rfl
  simp only [answerField, hhead, hfield]
  cases hspec : ObjectType.mutation.field? field.name with
  | none => exact .unknown hspec ((hk none).behind [])
  | some spec =>
    obtain ⟨scalar, htype⟩ := mutation_field?_scalar hspec
    have hstays : (FieldSpec.scalar scalar).isNullable = false := rfl
    simp only [htype, hstays]
    cases hinputs : spec.inputs? scope.values field.arguments with
    | none => exact .uncoerced hspec hinputs (by simp [Answered.absorb])
    | some inputs =>
      refine .ask hspec hinputs (fun resolved hholds => ?_) fun e => ⟨_, rfl, ?_⟩
      · rw [htype] at hholds
        cases resolved with
        | flag b => exact (hk (some (.bool b))).behind []
        | text s => exact (hk (some (.string s))).behind []
        | null => exact absurd rfl hholds.1
        | _ => exact hholds.2.elim
      · simp [Answered.absorb, Answered.behind]

/-- Of every group the first field is done. -/
theorem answers_serial (answer : Answerer) (path : List PathPart)
    {groups : List (String × List Chosen)} (hnonempty : ∀ group ∈ groups, group.2 ≠ [])
    {k : List (String × Option Json) → Answering β} (hk : ∀ answers, (k answers).Serial scope []) :
    ((groups.mapM fun (key, fields) => do
      let value ← answerField scope answer .mutation (path ++ [.key key]) fields
      return (key, value)) >>= k).Serial scope (groups.filterMap (·.2.head?)) := by
  induction groups generalizing k with
  | nil => exact (hk []).behind []
  | cons group rest ih =>
    obtain ⟨key, fields⟩ := group
    obtain ⟨hfirst, hrest⟩ := List.forall_mem_cons.mp hnonempty
    obtain ⟨field, tail, rfl⟩ := List.exists_cons_of_ne_nil hfirst
    simp only [List.mapM_cons, bind_assoc, pure_bind]
    exact answerField_serial answer _ rfl fun value => ih hrest fun answers => hk _

/-- A mutation fails before its first field, or does the first fields of all keys. -/
theorem answerRecord_serial (scope : Scope) {levels : Nat} (h : 0 < levels) (set : SelectionSet) :
    (∃ answered : Answered Json, answerRecord scope levels .mutation [] [set] = .done answered ∧
      answered.errors ≠ []) ∨
    ∃ fields, chosen? scope .mutation [set] = some fields ∧
      (answerRecord scope levels .mutation [] [set]).Serial scope
        ((byKey fields).filterMap (·.2.head?)) := by
  obtain ⟨levels, rfl⟩ := Nat.exists_eq_add_one_of_ne_zero (Nat.ne_zero_of_lt h)
  have htype : Record.mutation.type = .mutation := rfl
  rw [answerRecord, htype]
  cases chosen? scope .mutation [set] with
  | none => exact .inl ⟨⟨[.request], none⟩, rfl, List.cons_ne_nil _ _⟩
  | some fields =>
    refine .inr ⟨fields, rfl, Answering.Serial.behind ?_ []⟩
    exact answers_serial _ _ (grouped_byKey fields).nonempty fun _ => .done

end

/-! ## Operations of valid documents -/

section

variable {document : Document} {operation : Operation} {fragments : List Fragment}
  {values : Variables} {sent : List (String × Json)}

open Answering

theorem Operation.bound_pos (operation : Operation) (fragments : List Fragment) :
    0 < operation.bound fragments := by
  rw [bound_eq]
  omega

/-- What an operation collects at its root is what it asks for there. -/
theorem mem_root_iff {object : ObjectType} {fields : List Chosen}
    (h : chosen? ⟨fragments, values, operation.bound fragments⟩ object [operation.selections] =
      some fields) (chosen : Chosen) :
    chosen ∈ fields ↔
      Asks fragments (takesPart? values) object chosen (operation.selections.getD []) := by
  have hroom := operation.bound_eq fragments
  exact mem_chosen?_iff h (by simp only; omega) chosen

/-- Fields that a valid mutation asks for under one key are one field, with the same values of its
arguments. -/
theorem inputs?_of_key (hvalid : document.isValid = true) (hmem : operation ∈ document.operations)
    (htype : operation.type = .mutation) {f g : Chosen}
    (hf : Asks document.fragments (takesPart? values) .mutation f (operation.selections.getD []))
    (hg : Asks document.fragments (takesPart? values) .mutation g (operation.selections.getD []))
    (hkey : f.key = g.key) : f.name = g.name ∧
      ∀ spec : FieldSpec, spec.inputs? values f.arguments = spec.inputs? values g.arguments := by
  have hroot : operation.type.root? = some .mutation := by rw [htype]; rfl
  obtain ⟨hname, hmatch, _⟩ :=
    (Document.together_root hvalid hmem hroot).merge hvalid hf hg hkey
  exact ⟨hname, fun spec =>
    spec.inputs?_of_match values (Document.nodup_arguments_of_asks hvalid hmem hroot hf)
      (Document.nodup_arguments_of_asks hvalid hmem hroot hg) hmatch⟩

/-- An operation other than a mutation asks about nothing that is not known. -/
theorem Operation.answering_within {Known : Record → Prop} (hroot : Known .query)
    (htype : operation.type ≠ .mutation) :
    Answering.Within Known (fun _ => True) (operation.answering fragments sent) := by
  rw [answering]
  refine (within_ofOption _).bind fun values _ => (within_ofOption _).bind fun record hrecord => ?_
  refine answerRecord_within _ _ ?_ _ _
  cases hcase : operation.type with
  | query =>
    rw [hcase] at hrecord
    exact Option.some.inj hrecord ▸ hroot
  | mutation => exact absurd hcase htype
  | subscription =>
    rw [hcase] at hrecord
    cases hrecord

/-- A mutation fails before its first field, or does the first fields of all its keys. -/
theorem Operation.answering_serial (htype : operation.type = .mutation) :
    (∃ answered : Answered Json, operation.answering fragments sent = .done answered ∧
      answered.errors ≠ []) ∨
    ∃ values fields, operation.variablesFrom? sent = some values ∧
      chosen? ⟨fragments, values, operation.bound fragments⟩ .mutation [operation.selections] =
        some fields ∧
      (operation.answering fragments sent).Serial ⟨fragments, values, operation.bound fragments⟩
        ((byKey fields).filterMap (·.2.head?)) := by
  rw [answering, htype]
  cases operation.variablesFrom? sent with
  | none => exact .inl ⟨⟨[.request], none⟩, rfl, List.cons_ne_nil _ _⟩
  | some values =>
    simp only [ofOption, pure_bind, OperationType.record?]
    rcases answerRecord_serial ⟨fragments, values, operation.bound fragments⟩
      (operation.bound_pos fragments) operation.selections with hdone | ⟨fields, hchosen, hserial⟩
    · exact .inl hdone
    · exact .inr ⟨values, fields, rfl, hchosen, hserial⟩

end

theorem Engine.standard_executes : standard.Executes where
  reads _ _ _ htype _ hroot :=
    .map ((Operation.answering_within hroot htype).mono fun _ _ => trivial)
  merges values hvalid hmem htype _ _ := inputs?_of_key hvalid hmem htype
  writes {document operation} sent hvalid hmem htype := by
    have hexecute : standard.execute operation document.fragments sent =
        Execution.map (fun answered => ⟨answered.value.getD .null, answered.errors.map .execution⟩)
          (operation.answering document.fragments sent) := rfl
    rw [hexecute]
    rcases Operation.answering_serial htype with
      ⟨answered, hdone, herrors⟩ | ⟨values, fields, hvalues, hchosen, hserial⟩
    · exact .inl ⟨_, congrArg _ hdone, mt List.map_eq_nil_iff.mp herrors⟩
    have hgrouped := grouped_byKey fields
    refine .inr ⟨values, _, hvalues, ?_, ?_, hserial.map fun _ => mt List.map_eq_nil_iff.mp⟩
    · intro field hfield
      obtain ⟨group, hgroup, hhead⟩ := List.mem_filterMap.mp hfield
      exact (mem_root_iff hchosen field).mp
        (hgrouped.sound group hgroup field (List.mem_of_mem_head? hhead)).1
    · intro field hasks
      obtain ⟨group, hgroup, hkey, _⟩ :=
        hgrouped.complete field ((mem_root_iff hchosen field).mpr hasks)
      -- the first field under the key is the one that is done
      obtain ⟨first, rest, hfields⟩ := List.exists_cons_of_ne_nil (hgrouped.nonempty group hgroup)
      have hhead : group.2.head? = some first := by rw [hfields]; rfl
      exact ⟨first, List.mem_filterMap.mpr ⟨group, hgroup, hhead⟩,
        (hgrouped.sound group hgroup first (List.mem_of_mem_head? hhead)).2.trans hkey⟩

end QueryAdmission
