import QueryAdmission.Proofs.StepEnding

/-! # What an admission step does

A step whose evaluation fails changes nothing, and neither does a step in front of a document
in which no operation is meant. Any other step counts the operation in five metrics, puts
the directive that it counted on the response, and only then raises the rejection, if the
decision is one. Between the two histograms it can break off: a depth that is no double
cannot be observed, and then the complexity is counted and nothing else is. -/

namespace QueryAdmission

/-! ## Tables -/

section Tables

variable {κ α : Type} [DecidableEq κ]

theorem bump_apply (counts : κ → Nat) (key k : κ) :
    bump counts key k = counts k + if k = key then 1 else 0 := by
  unfold bump
  split <;> rfl

@[simp] theorem put_self (table : κ → α) (key : κ) (value : α) : put table key value key = value :=
  if_pos rfl

theorem put_of_ne (table : κ → α) {key k : κ} (value : α) (h : k ≠ key) :
    put table key value k = table k := if_neg h

@[simp] theorem put_put (table : κ → α) (key : κ) (value value' : α) :
    put (put table key value) key value' = put table key value' := by
  funext k
  by_cases h : k = key <;> simp [put, h]

end Tables

/-! ## One observation -/

namespace Histogram

/-- One observation more: the first bucket that takes the value, if any does, holds one more,
and the value is added to the sum. -/
structure Observes (bounds : List Nat) (value : Quantity) (before after : Histogram) : Prop where
  counts : after.counts =
    match (withTop bounds).findIdx? (value.le ·) with
    | some i => before.counts.modify i (· + 1)
    | none => before.counts
  sum : ∃ x, value.toBinary64? = some x ∧ after.sum = before.sum + x

theorem place_eq (value : Quantity) (bounds : List Quantity) (counts : List Nat) :
    place value bounds counts =
      match bounds.findIdx? (value.le ·) with
      | some i => counts.modify i (· + 1)
      | none => counts := by
  induction bounds generalizing counts with
  | nil => cases counts <;> rfl
  | cons bound bounds ih =>
    cases counts with
    | nil =>
      simp only [place, List.modify_nil]
      split <;> rfl
    | cons n counts =>
      rw [place, List.findIdx?_cons]
      by_cases h : value.le bound
      · simp [h]
      · simp only [h, Bool.false_eq_true, if_false, ih]
        cases bounds.findIdx? (value.le ·) <;> simp

theorem observes_of_record? {bounds : List Nat} {before after : Histogram} {value : Quantity}
    (h : before.record? bounds value = some after) : Observes bounds value before after := by
  rw [record?_eq] at h
  obtain ⟨x, hx, rfl⟩ := Option.map_eq_some_iff.mp h
  exact ⟨place_eq value _ before.counts, x, hx, rfl⟩

end Histogram

/-- Of the histograms, that of one type has one observation more, and no other has changed. -/
structure Observed (bounds : List Nat) (type : OperationType) (value : Quantity)
    (before after : OperationType → Option Histogram) : Prop where
  here : ∃ h, after type = some h ∧
    Histogram.Observes bounds value ((before type).getD (.empty bounds)) h
  elsewhere : ∀ other, other ≠ type → after other = before other

theorem observed_put {bounds : List Nat} {type : OperationType} {value : Quantity}
    {before : OperationType → Option Histogram} {h : Histogram}
    (hrecord : ((before type).getD (.empty bounds)).record? bounds value = some h) :
    Observed bounds type value before (put before type (some h)) where
  here := ⟨h, put_self _ _ _, Histogram.observes_of_record? hrecord⟩
  elsewhere _ hne := put_of_ne _ _ hne

/-! ## What an evaluation says -/

namespace Gate

variable {gate : Gate}

/-- The evaluation is that of the operation, with the fragments as given: its score, its
measured depth, and what the policy decides on the two, for which there is a message. -/
structure Judges (gate : Gate) (fragments : Option (List Fragment)) (operation : Operation)
    (evaluation : Evaluation) : Prop where
  subject : evaluation.operation = some operation
  complexity : gate.scorer.score fragments operation.selections 0 = .ok evaluation.complexity
  depth : evaluation.depth = (gate.meter.measure fragments operation.selections 0).depth
  decision : evaluation.decision =
    gate.policy.decide (.float evaluation.complexity) evaluation.depth
  announced : evaluation.decision.Announceable

theorem announceable_of_evaluationLog {operation : Operation} {complexity : Binary64}
    {depth : Quantity} {decision : Decision} {log : List LogRecord}
    (h : gate.evaluationLog operation complexity depth decision = .ok log) :
    decision.Announceable := by
  cases decision with
  | allowed => trivial
  | rejected rejection =>
    simp only [evaluationLog] at h
    split at h
    · obtain ⟨_, _, h⟩ := bind_eq_ok h
      obtain ⟨_, _, h⟩ := bind_eq_ok h
      obtain ⟨text, htext, _⟩ := bind_eq_ok h
      exact ⟨text, htext⟩
    · obtain ⟨_, _, h⟩ := bind_eq_ok h
      obtain ⟨text, htext, _⟩ := bind_eq_ok h
      exact ⟨text, htext⟩

/-- An evaluation that goes through found no operation to target, or judges the one that it
found. -/
theorem evaluate_cases {document : Option Document} {name : Option String}
    {evaluation : Evaluation} {logs : List LogRecord}
    (h : gate.evaluate document name = .ok (evaluation, logs)) :
    (document.bind (·.target? name) = none ∧ evaluation = ⟨none, .zero, .int 0, .allowed⟩ ∧
      logs = []) ∨
    ∃ d operation, document = some d ∧ d.target? name = some operation ∧
      gate.Judges (gate.bound d) operation evaluation := by
  cases htarget : document.bind (·.target? name) with
  | none =>
    rw [evaluate_of_none htarget] at h
    obtain ⟨rfl, rfl⟩ := Prod.mk.inj (Except.ok.inj h)
    exact .inl ⟨rfl, rfl, rfl⟩
  | some operation =>
    obtain ⟨d, rfl, hfound⟩ := Option.bind_eq_some_iff.mp htarget
    simp only [evaluate, hfound] at h
    obtain ⟨complexity, hscore, h⟩ := bind_eq_ok h
    obtain ⟨_, _, h⟩ := bind_eq_ok h
    obtain ⟨_, hlog, h⟩ := bind_eq_ok h
    obtain ⟨rfl, _⟩ := Prod.mk.inj (Except.ok.inj h)
    exact .inr ⟨d, operation, rfl, hfound, rfl, hscore, rfl, rfl,
      announceable_of_evaluationLog hlog⟩

/-- What a policy rejects shows the code, and behind it the details. -/
theorem extensions_of_decide {policy : Policy} {complexity depth : Quantity}
    {rejection : Rejection} (h : policy.decide complexity depth = .rejected rejection) :
    rejection.extensions = ("code", .text rejection.kind.code) :: rejection.details := by
  unfold Policy.decide at h
  split at h
  · cases h
    rfl
  · split at h
    · cases h
      rfl
    · cases h

end Gate

/-! ## One operation counted -/

/-- The kind of a rejection; what is allowed has none. -/
def Decision.kind? : Decision → Option RejectionKind
  | .allowed => none
  | .rejected rejection => some rejection.kind

-- by this name, so that the directive below holds no copy of the proof
local instance lawfulBEqOptionString : LawfulBEq (Option String) := inferInstance

/-- The directive that goes with a decision on an operation: nothing is kept unless it is a
query, nor if it was rejected and the selector looks at that; queries on the allow-list are
for all caches, and the others for the browser. -/
def CacheSelector.rule (selector : CacheSelector) (operation : Operation) (decision : Decision) :
    CacheDirective :=
  if operation.type ≠ .query ∨ decision ≠ .allowed ∧ selector.noStoreOnRejection = true then
    .noStore
  else if operation.name ∈ selector.publicQueries then .shared
  else .personal

/-- The metrics with one operation counted: one observation of its complexity and one of its
depth, one decision, a rejection if it is one, and one directive. -/
structure Metrics.Counted (before after : Metrics) (type : OperationType) (evaluation : Evaluation)
    (directive : CacheDirective) : Prop where
  complexity : Observed Histogram.complexityBounds type (.float evaluation.complexity)
    before.complexity after.complexity
  depth : Observed Histogram.depthBounds type evaluation.depth before.depth after.depth
  decisions : ∀ key, after.decisions key = before.decisions key +
    if key = (type, evaluation.decision.outcome) then 1 else 0
  rejections : ∀ kind, after.rejections kind = before.rejections kind +
    if evaluation.decision.kind? = some kind then 1 else 0
  directives : ∀ other, after.directives other = before.directives other +
    if other = directive then 1 else 0

/-- The metrics where the counting of an operation broke off at its depth: its complexity is
observed, and the depths of its type can be seen, with nothing added to them. -/
structure Metrics.Interrupted (before after : Metrics) (type : OperationType)
    (complexity : Binary64) : Prop where
  complexity : Observed Histogram.complexityBounds type (.float complexity)
    before.complexity after.complexity
  opened : after.depth type = some ((before.depth type).getD (.empty Histogram.depthBounds))
  depth : ∀ other, other ≠ type → after.depth other = before.depth other
  decisions : after.decisions = before.decisions
  rejections : after.rejections = before.rejections
  directives : after.directives = before.directives

namespace AdmissionControl

variable (control : AdmissionControl)

theorem text_toLower_eq_query (type : OperationType) :
    type.text.toLower = "query" ↔ type = .query := by
  cases type <;> decide +kernel

theorem directive_eq (operation : Operation) (decision : Decision) :
    control.directive operation decision = control.selector.rule operation decision := by
  simp only [directive, CacheSelector.forResponse, CacheSelector.select, CacheSelector.rule,
    ne_eq, text_toLower_eq_query]
  cases decision with
  | allowed => simp [Decision.isAllowed]
  | rejected rejection =>
    by_cases htype : operation.type = .query <;> cases control.selector.noStoreOnRejection <;>
      simp [Decision.isAllowed, htype]

/-- A complexity can always be observed. -/
theorem observeComplexity_float (metrics : Metrics) (type : OperationType) (x : Binary64) :
    ∃ table, metrics.observeComplexity type (.float x) =
        some { metrics with complexity := table } ∧
      Observed Histogram.complexityBounds type (.float x) metrics.complexity table := by
  cases hrecord : ((metrics.complexity type).getD (.empty Histogram.complexityBounds)).record?
      Histogram.complexityBounds (.float x) with
  | none =>
    rw [Histogram.record?_eq] at hrecord
    cases hrecord
  | some h =>
    refine ⟨_, ?_, observed_put hrecord⟩
    simp only [Metrics.observeComplexity, hrecord, Option.map_some]

/-- A depth can be observed if it is a double. -/
theorem observeDepth_openDepth (metrics : Metrics) (type : OperationType) (depth : Quantity) :
    (depth.toBinary64? = none ∧ (metrics.openDepth type).observeDepth type depth = none) ∨
    (depth.toBinary64? ≠ none ∧
      ∃ table, (metrics.openDepth type).observeDepth type depth =
          some { metrics with depth := table } ∧
        Observed Histogram.depthBounds type depth metrics.depth table) := by
  simp only [Metrics.observeDepth, Metrics.openDepth, put_self, put_put, Option.getD_some]
  cases hrecord : ((metrics.depth type).getD (.empty Histogram.depthBounds)).record?
      Histogram.depthBounds depth with
  | none =>
    rw [Histogram.record?_eq, Option.map_eq_none_iff] at hrecord
    exact .inl ⟨hrecord, rfl⟩
  | some h =>
    refine .inr ⟨?_, _, rfl, observed_put hrecord⟩
    intro hnone
    rw [Histogram.record?_eq, hnone] at hrecord
    cases hrecord

/-- To count a decision and a directive raises one number in each of their tables. -/
theorem countDecision_countDirective (metrics : Metrics) (type : OperationType)
    (decision : Decision) (directive : CacheDirective) :
    ∃ decisions rejections directives,
      (metrics.countDecision type decision).countDirective directive =
        { metrics with decisions, rejections, directives } ∧
      (∀ key, decisions key = metrics.decisions key +
        if key = (type, decision.outcome) then 1 else 0) ∧
      (∀ kind, rejections kind = metrics.rejections kind +
        if decision.kind? = some kind then 1 else 0) ∧
      ∀ other, directives other = metrics.directives other +
        if other = directive then 1 else 0 := by
  cases decision with
  | allowed =>
    exact ⟨_, _, _, rfl, bump_apply _ _, fun kind => rfl, bump_apply _ _⟩
  | rejected rejection =>
    refine ⟨_, _, _, rfl, bump_apply _ _, ?_, bump_apply _ _⟩
    intro kind
    show bump metrics.rejections rejection.kind kind = _
    simp only [bump_apply, Decision.kind?, Option.some.injEq, eq_comm]

/-- Counting goes through where the depth is a double, and elsewhere breaks off there. -/
theorem record_cases (metrics : Metrics) (operation : Operation) (evaluation : Evaluation) :
    (evaluation.depth.toBinary64? = none ∧
      ∃ after, control.record metrics operation evaluation = (after, some .outOfRange) ∧
        metrics.Interrupted after operation.type evaluation.complexity) ∨
    (evaluation.depth.toBinary64? ≠ none ∧
      ∃ after, control.record metrics operation evaluation = (after, none) ∧
        metrics.Counted after operation.type evaluation
          (control.selector.rule operation evaluation.decision)) := by
  obtain ⟨complexities, hobserve, hcomplexity⟩ :=
    observeComplexity_float metrics operation.type evaluation.complexity
  simp only [record, hobserve]
  rcases observeDepth_openDepth { metrics with complexity := complexities } operation.type
      evaluation.depth with ⟨hdepth, hnone⟩ | ⟨hdepth, depths, hsome, hdepths⟩
  · rw [hnone]
    refine .inl ⟨hdepth, _, rfl, hcomplexity, put_self _ _ _, ?_, rfl, rfl, rfl⟩
    exact fun other hne => put_of_ne _ _ hne
  · obtain ⟨decisions, rejections, directives, hcount, hdecisions, hrejections, hdirectives⟩ :=
      countDecision_countDirective { metrics with complexity := complexities, depth := depths }
        operation.type evaluation.decision (control.directive operation evaluation.decision)
    simp only [hsome, hcount]
    refine .inr ⟨hdepth, _, rfl, hcomplexity, hdepths, hdecisions, hrejections, ?_⟩
    rw [← directive_eq]
    exact hdirectives

/-! ## One step -/

/-- What a step did that evaluated an operation and counted it: it put the directive on the
response, if there is one, and ended as the evaluation decided. An error that it raised
has a message, and shows the code and the details of that decision. -/
structure Settled (before after : Metrics) (context : Context) (operation : Operation)
    (evaluation : Evaluation) (step : AdmissionStep) : Prop where
  counted : before.Counted after operation.type evaluation
    (control.selector.rule operation evaluation.decision)
  header : step.header =
    if context.hasResponse then some (control.selector.rule operation evaluation.decision)
    else none
  ending : step.ending = .ofDecision evaluation.decision
  error : ∀ rejection, step.ending = .rejected rejection →
    (∃ text, rejection.message = .ok text) ∧
      rejection.extensions = ("code", .text rejection.kind.code) :: rejection.details

/-- What a step did whose counting broke off at the depth of the operation. -/
structure BrokenOff (before after : Metrics) (operation : Operation) (evaluation : Evaluation)
    (step : AdmissionStep) : Prop where
  counted : before.Interrupted after operation.type evaluation.complexity
  header : step.header = none
  ending : step.ending = .failed .outOfRange

theorem step_of_error (metrics : Metrics) (context : Context) {document : Option Document}
    {name : Option String} {failure : Failure}
    (h : control.gate.evaluate document name = .error failure) :
    control.step metrics document name context = (metrics, ⟨.failed failure, none, []⟩) := by
  simp only [step, h]

theorem step_of_none (metrics : Metrics) (context : Context) {document : Option Document}
    {name : Option String} {evaluation : Evaluation} {logs : List LogRecord}
    (h : control.gate.evaluate document name = .ok (evaluation, logs))
    (hnone : evaluation.operation = none) :
    control.step metrics document name context = (metrics, ⟨.admitted, none, logs⟩) := by
  simp only [step, h, hnone]

/-- A step that found an operation counted it and ended as was decided, or broke off. -/
theorem step_of_some (metrics : Metrics) (context : Context) {document : Option Document}
    {name : Option String} {evaluation : Evaluation} {logs : List LogRecord}
    {operation : Operation}
    (h : control.gate.evaluate document name = .ok (evaluation, logs))
    (hsome : evaluation.operation = some operation) :
    (control.step metrics document name context).2.logs = logs ∧
      if evaluation.depth.toBinary64? = none then
        BrokenOff metrics (control.step metrics document name context).1 operation evaluation
          (control.step metrics document name context).2
      else
        control.Settled metrics (control.step metrics document name context).1 context operation
          evaluation (control.step metrics document name context).2 := by
  rcases control.record_cases metrics operation evaluation with
    ⟨hdepth, after, hrecord, hinterrupted⟩ | ⟨hdepth, after, hrecord, hcounted⟩
  · have hstep : control.step metrics document name context =
        (after, ⟨.failed .outOfRange, none, logs⟩) := by
      simp only [step, h, hsome, hrecord]
    rw [hstep, if_pos hdepth]
    exact ⟨rfl, hinterrupted, rfl, rfl⟩
  · have hstep : control.step metrics document name context =
        (after, ⟨.ofDecision evaluation.decision,
          if context.hasResponse then some (control.selector.rule operation evaluation.decision)
          else none, logs⟩) := by
      simp only [step, h, hsome, hrecord, directive_eq]
      cases evaluation.decision <;> rfl
    rw [hstep, if_neg hdepth]
    refine ⟨rfl, hcounted, rfl, rfl, ?_⟩
    intro rejection hrejection
    have hdecision := StepEnd.ofDecision_eq_rejected.mp hrejection
    rcases Gate.evaluate_cases h with ⟨_, rfl, _⟩ | ⟨_, _, _, _, hjudges⟩
    · cases hsome
    · have hannounced := hjudges.announced
      rw [hdecision] at hannounced
      rw [hjudges.decision] at hdecision
      exact ⟨hannounced, Gate.extensions_of_decide hdecision⟩

/-- A step fails without a trace, or finds no operation and lets the request pass without a
trace, or counts an operation, answers with the directive, and ends as was decided. Only
a depth that is no double makes it break off halfway. -/
theorem step_effects (metrics : Metrics) (document : Option Document) (name : Option String)
    (context : Context) :
    match control.gate.evaluate document name with
    | .error failure =>
      control.step metrics document name context = (metrics, ⟨.failed failure, none, []⟩)
    | .ok (evaluation, logs) =>
      evaluation.operation = document.bind (·.target? name) ∧
        (control.step metrics document name context).2.logs = logs ∧
        match evaluation.operation with
        | none => control.step metrics document name context = (metrics, ⟨.admitted, none, []⟩)
        | some operation =>
          if evaluation.depth.toBinary64? = none then
            BrokenOff metrics (control.step metrics document name context).1 operation evaluation
              (control.step metrics document name context).2
          else
            control.Settled metrics (control.step metrics document name context).1 context operation
              evaluation (control.step metrics document name context).2 := by
  cases heval : control.gate.evaluate document name with
  | error failure => exact control.step_of_error metrics context heval
  | ok found =>
    obtain ⟨evaluation, logs⟩ := found
    rcases Gate.evaluate_cases heval with
      ⟨htarget, rfl, rfl⟩ | ⟨d, operation, rfl, htarget, hjudges⟩
    · have hstep := control.step_of_none metrics context heval rfl
      exact ⟨htarget.symm, by rw [hstep], hstep⟩
    · obtain ⟨hlogs, hcase⟩ := control.step_of_some metrics context heval hjudges.subject
      simp only [hjudges.subject, Option.bind_some, htarget]
      exact ⟨trivial, hlogs, hcase⟩

/-! ### A depth that cannot be counted -/

/-- Settings with a depth limit beyond all doubles. Two selections exhaust the budget. -/
def boundlessSettings : Settings :=
  { strictSettings with
    maxDepth := 1 <<< 1100
    depthNodeBudget := 1
    budget_pos := Nat.one_pos
    cutoff_le := by decide }

def twoFields : Document := queryWith [leafOf "me", leafOf "users"] [leafOf "me"]

/-- The settings reject two fields as too deep, at a depth that is no double. -/
theorem boundless_rejects_twoFields :
    ∃ gate evaluation logs operation, boundlessSettings.gate = .ok gate ∧
      gate.evaluate (some twoFields) none = .ok (evaluation, logs) ∧
      evaluation.operation = some operation ∧ operation.type = .query ∧
      evaluation.decision ≠ .allowed ∧ evaluation.depth.toBinary64? = none := by
  have hevaluation : (boundlessSettings.gate.toOption.bind fun gate =>
      (gate.evaluate (some twoFields) none).toOption).map (fun found =>
        (found.1.operation.map (·.type), found.1.decision.isAllowed,
          found.1.depth.toBinary64?)) =
      some (some .query, false, none) := by decide +kernel
  obtain ⟨⟨evaluation, logs⟩, hfound, hshown⟩ := Option.map_eq_some_iff.mp hevaluation
  obtain ⟨gate, hgate, heval⟩ := Option.bind_eq_some_iff.mp hfound
  obtain ⟨htype, hallowed, hdepth⟩ : _ ∧ _ ∧ _ := by simpa only [Prod.mk.injEq] using hshown
  obtain ⟨operation, hoperation, htype⟩ := Option.map_eq_some_iff.mp htype
  refine ⟨gate, evaluation, logs, operation, eq_ok_of_toOption hgate, eq_ok_of_toOption heval,
    hoperation, htype, ?_, hdepth⟩
  obtain ⟨rejection, hrejected⟩ := Decision.isAllowed_eq_false_iff.mp hallowed
  simp [hrejected]

/-- In front of two fields the step of these settings breaks off halfway. It is not settled:
the complexity is counted, and the rejection is neither counted nor raised. -/
theorem step_unsettled_twoFields :
    ∃ gate evaluation logs operation, boundlessSettings.gate = .ok gate ∧
      gate.evaluate (some twoFields) none = .ok (evaluation, logs) ∧
      evaluation.operation = some operation ∧ evaluation.decision ≠ .allowed ∧
      (step ⟨gate, .standard⟩ .empty (some twoFields) none .none).1.complexity .query ≠ none ∧
      (step ⟨gate, .standard⟩ .empty (some twoFields) none .none).1.decisions
        (.query, .rejected) = 0 ∧
      ¬Settled ⟨gate, .standard⟩ .empty
        (step ⟨gate, .standard⟩ .empty (some twoFields) none .none).1 .none operation evaluation
        (step ⟨gate, .standard⟩ .empty (some twoFields) none .none).2 := by
  obtain ⟨gate, evaluation, logs, operation, hgate, heval, hoperation, htype, hrejected, hdepth⟩ :=
    boundless_rejects_twoFields
  obtain ⟨_, hbroken⟩ := step_of_some ⟨gate, .standard⟩ .empty .none heval hoperation
  rw [if_pos hdepth] at hbroken
  obtain ⟨hcounted, _, hending⟩ := hbroken
  refine ⟨gate, evaluation, logs, operation, hgate, heval, hoperation, hrejected, ?_, ?_, ?_⟩
  · obtain ⟨h, hh, _⟩ := hcounted.complexity.here
    rw [← htype, hh]
    exact Option.some_ne_none h
  · rw [hcounted.decisions]
    rfl
  · intro hsettled
    rw [hsettled.ending] at hending
    exact StepEnd.ofDecision_ne_failed hending

end AdmissionControl

end QueryAdmission
