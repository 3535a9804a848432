import QueryAdmission.Proofs.Construction
import QueryAdmission.Proofs.DepthWalk
import QueryAdmission.Proofs.Messages

/-! # The verdict of a gate

A gate with a whole depth limit measures one level past it. What it then says of an
operation is settled by three numbers: the score, the depth of the outline, and the number
of selections the outline has within the limit. How the walk got there does not show. -/

namespace QueryAdmission

namespace Gate

variable {gate : Gate} {limit : Nat}

/-- Gates with the depth limit `limit` that measure one level past it: those that settings
describe, and those that are made without a meter of their own. -/
inductive Built (limit : Nat) (gate : Gate) : Prop
  | ofSettings {settings : Settings} (hgate : settings.gate = .ok gate)
      (hlimit : settings.maxDepth = limit)
  | ofPolicy {maxComplexity : Quantity} {policy : Policy} {scorer : Scorer}
      {resolveFragments logEvaluations : Bool} {logger : String}
      (hpolicy : Policy.make maxComplexity (.int limit) = .ok policy)
      (hgate : Gate.make policy scorer none resolveFragments logEvaluations logger = .ok gate)

/-- The policy rejects depths beyond `limit`, and the meter measures one level past it. -/
structure Limited (gate : Gate) (limit : Nat) : Prop where
  maxDepth : gate.policy.maxDepth = .int limit
  cap : gate.meter.cap = some (.int (limit + 1))

theorem Built.limited (h : gate.Built limit) : gate.Limited limit := by
  cases h with
  | ofSettings hgate hlimit =>
    obtain ⟨_, hcap, _, hpolicy, _⟩ := Settings.gate_eq_ok hgate
    subst hlimit
    exact ⟨by rw [hpolicy], hcap⟩
  | ofPolicy hpolicy hgate =>
    obtain rfl := make_eq_ok hgate
    obtain rfl := Policy.make_eq_ok hpolicy
    exact ⟨rfl, rfl⟩

/-! ## What a gate reports -/

/-- The outline of an operation, with spreads put in as far as the gate resolves them. -/
def outlineOf (gate : Gate) (document : Document) (operation : Operation) : Outline :=
  DepthMeter.outlineOf (gate.bound document) operation.selections

/-- The depth that is reported for an outline: one past the limit where the sets within the
limit hold more selections than the budget, and the true depth up to there elsewhere. -/
def reportedDepth (gate : Gate) (limit : Nat) (outline : Outline) : Int :=
  if gate.meter.budget < outline.sizeTo limit then limit + 1
  else min outline.height (limit + 1)

/-- What a gate decides on an operation of the given score and outline. -/
def verdict (gate : Gate) (limit : Nat) (complexity : Binary64) (outline : Outline) :
    Decision :=
  if gate.policy.maxComplexity.lt (.float complexity) then
    .rejected ⟨.tooComplex,
      [("complexity", .quantity (.float complexity)),
        ("maxComplexity", .quantity gate.policy.maxComplexity)]⟩
  else if limit < outline.height ∨ gate.meter.budget < outline.sizeTo limit then
    .rejected ⟨.tooDeep,
      [("depth", .quantity (.int (limit + 1))), ("maxDepth", .quantity (.int limit))]⟩
  else .allowed

theorem limit_lt_reportedDepth {outline : Outline} :
    (limit : Int) < gate.reportedDepth limit outline ↔
      limit < outline.height ∨ gate.meter.budget < outline.sizeTo limit := by
  unfold reportedDepth
  split <;> omega

theorem reportedDepth_of_lt {outline : Outline}
    (h : (limit : Int) < gate.reportedDepth limit outline) :
    gate.reportedDepth limit outline = limit + 1 := by
  unfold reportedDepth at *
  split at h <;> rename_i hbudget
  · rw [if_pos hbudget]
  · rw [if_neg hbudget]
    omega

theorem verdict_eq_allowed {complexity : Binary64} {outline : Outline} :
    gate.verdict limit complexity outline = .allowed ↔
      gate.policy.maxComplexity.lt (.float complexity) = false ∧
        outline.height ≤ limit ∧ outline.sizeTo limit ≤ gate.meter.budget := by
  unfold verdict
  split
  · rename_i hcomplex
    simp only [hcomplex, reduceCtorEq, Bool.true_eq_false, false_and]
  · rename_i hcomplex
    rw [Bool.not_eq_true] at hcomplex
    split
    · simp only [reduceCtorEq, false_iff, not_and]
      omega
    · simp only [hcomplex, true_and, true_iff]
      omega

theorem measure_depth (h : gate.Limited limit) (document : Document) (operation : Operation) :
    (gate.meter.measure (gate.bound document) operation.selections 0).depth =
      .int (gate.reportedDepth limit (gate.outlineOf document operation)) := by
  rw [DepthMeter.measure_of_cap h.cap]
  unfold reportedDepth outlineOf
  split <;> rfl

theorem policy_decide_eq_verdict (h : gate.Limited limit) (complexity : Binary64)
    (outline : Outline) :
    gate.policy.decide (.float complexity) (.int (gate.reportedDepth limit outline)) =
      gate.verdict limit complexity outline := by
  simp only [Policy.decide, verdict, h.maxDepth, Quantity.int_lt_int, decide_eq_true_eq,
    limit_lt_reportedDepth]
  split
  · rfl
  · split
    · rename_i hdeep
      rw [reportedDepth_of_lt (limit_lt_reportedDepth.mpr hdeep)]
    · rfl

theorem decide_eq_verdict (h : gate.Limited limit) (operation : Operation)
    (complexity : Binary64) (outline : Outline) :
    gate.decide (some operation) (.float complexity) (.int (gate.reportedDepth limit outline)) =
      gate.verdict limit complexity outline := policy_decide_eq_verdict h complexity outline

/-! ## Evaluation -/

theorem evaluate_of_none {document : Option Document} {name : Option String}
    (h : document.bind (·.target? name) = none) :
    gate.evaluate document name = .ok (⟨none, .zero, .int 0, .allowed⟩, []) := by
  cases document with
  | none => rfl
  | some document =>
    rw [Option.bind_some] at h
    simp only [evaluate, h]

theorem evaluate_of_failure {document : Document} {name : Option String} {operation : Operation}
    (htarget : document.target? name = some operation) {failure : Failure}
    (hscore : gate.scorer.score (gate.bound document) operation.selections 0 = .error failure) :
    gate.evaluate (some document) name = .error failure := by
  simp only [evaluate, htarget, hscore]
  rfl

/-- The log of a depth walk, where the depth is whole. -/
theorem depthLog_int (meter : DepthMeter) (depth : Int) (exhausted : Bool) :
    depthLog meter ⟨.int depth, exhausted⟩ =
      .ok (if exhausted then
        [⟨.warning, depthLogger, "Depth traversal stopped after " ++ toString meter.budget ++
          " selections; reporting depth " ++ toString depth⟩] else []) := by
  cases exhausted <;> rfl

/-- What a gate decides on an operation can be announced if the limit of the verdict, where one
is violated, can be written; the score always can. -/
theorem announceable_verdict_iff (h : gate.Limited limit) {complexity : Binary64}
    {outline : Outline} :
    (gate.verdict limit complexity outline).Announceable ↔
      (gate.policy.maxComplexity.lt (.float complexity) = true →
        gate.policy.maxComplexity.Writable) ∧
      (gate.policy.maxComplexity.lt (.float complexity) = false →
        limit < outline.height ∨ gate.meter.budget < outline.sizeTo limit →
        limit + 1 < tenTo WholeNumber.digitLimit) := by
  rw [← policy_decide_eq_verdict h, Policy.announceable_decide_iff, h.maxDepth,
    Quantity.int_lt_int, decide_eq_true_eq, limit_lt_reportedDepth]
  refine and_congr ?_ ?_
  · exact imp_congr_right fun _ => and_iff_right (Quantity.writable_float complexity)
  · refine imp_congr_right fun _ => imp_congr_right fun hdeep => ?_
    rw [reportedDepth_of_lt (limit_lt_reportedDepth.mpr hdeep)]
    -- the limit has no more digits than the depth, which is one more
    exact ⟨fun hboth => hboth.1, fun hdepth => ⟨hdepth, Nat.lt_of_succ_lt hdepth⟩⟩

/-- An evaluation whose depth is whole can be logged if its decision can be announced. -/
theorem evaluationLog_int (gate : Gate) (operation : Operation) (complexity : Binary64)
    (depth : Int) {decision : Decision} (h : decision.Announceable) :
    ∃ log, gate.evaluationLog operation complexity (.int depth) decision = .ok log := by
  unfold evaluationLog
  cases decision with
  | allowed => cases gate.logEvaluations <;> exact ⟨_, rfl⟩
  | rejected rejection =>
    obtain ⟨text, htext⟩ := h
    simp only [htext]
    cases gate.logEvaluations <;> exact ⟨_, rfl⟩

/-- Otherwise there is no log. -/
theorem evaluationLog_of_not_announceable (gate : Gate) (operation : Operation)
    (complexity : Binary64) (depth : Int)
    (h : ¬(gate.decide (some operation) (.float complexity) (.int depth)).Announceable) :
    gate.evaluationLog operation complexity (.int depth)
        (gate.decide (some operation) (.float complexity) (.int depth)) =
      .error (.literal .unwritable) := by
  cases hdecision : gate.decide (some operation) (.float complexity) (.int depth) with
  | allowed =>
    rw [hdecision] at h
    exact absurd trivial h
  | rejected rejection =>
    unfold evaluationLog
    simp only [Policy.message_of_not_announceable hdecision h]
    cases gate.logEvaluations <;> rfl

/-- Where the score is known, the evaluation comes to the verdict: it reports the verdict if that
can be announced, and fails if not. -/
theorem evaluate_of_score (h : gate.Limited limit) {document : Document} {name : Option String}
    {operation : Operation} (htarget : document.target? name = some operation)
    {complexity : Binary64}
    (hscore : gate.scorer.score (gate.bound document) operation.selections 0 = .ok complexity) :
    let decision := gate.verdict limit complexity (gate.outlineOf document operation)
    (decision.Announceable → ∃ logs, gate.evaluate (some document) name =
      .ok (⟨some operation, complexity,
        .int (gate.reportedDepth limit (gate.outlineOf document operation)), decision⟩, logs)) ∧
    (¬decision.Announceable →
      gate.evaluate (some document) name = .error (.literal .unwritable)) := by
  have hdepth := measure_depth h document operation
  have hdecide := decide_eq_verdict h operation complexity (gate.outlineOf document operation)
  simp only [evaluate, htarget, hscore]
  cases hreading : gate.meter.measure (gate.bound document) operation.selections 0 with
  | mk depth exhausted =>
    rw [hreading] at hdepth
    simp only at hdepth
    subst hdepth
    rw [← hdecide]
    simp only [bind, Except.bind, depthLog_int]
    refine ⟨fun hannounce => ?_, fun hannounce => ?_⟩
    · obtain ⟨log, hlog⟩ := gate.evaluationLog_int operation complexity
        (gate.reportedDepth limit (gate.outlineOf document operation)) hannounce
      simp only [hlog, pure, Except.pure]
      exact ⟨_, rfl⟩
    · simp only [gate.evaluationLog_of_not_announceable operation complexity _ hannounce]

/-- An evaluation that goes through found no operation, or reports the verdict on it. -/
theorem evaluate_eq_ok (h : gate.Limited limit) {document : Document} {name : Option String}
    {evaluation : Evaluation} {logs : List LogRecord}
    (heval : gate.evaluate (some document) name = .ok (evaluation, logs)) :
    (document.target? name = none ∧ evaluation = ⟨none, .zero, .int 0, .allowed⟩) ∨
      ∃ operation complexity, document.target? name = some operation ∧
        gate.scorer.score (gate.bound document) operation.selections 0 = .ok complexity ∧
        evaluation = ⟨some operation, complexity,
          .int (gate.reportedDepth limit (gate.outlineOf document operation)),
          gate.verdict limit complexity (gate.outlineOf document operation)⟩ := by
  cases htarget : document.target? name with
  | none =>
    rw [evaluate_of_none (by rw [Option.bind_some, htarget])] at heval
    exact .inl ⟨rfl, (Prod.mk.inj (Except.ok.inj heval)).1.symm⟩
  | some operation =>
    cases hscore : gate.scorer.score (gate.bound document) operation.selections 0 with
    | error failure =>
      rw [evaluate_of_failure htarget hscore] at heval
      cases heval
    | ok complexity =>
      obtain ⟨hannounced, hunwritable⟩ := evaluate_of_score h htarget hscore
      by_cases hannounce :
          (gate.verdict limit complexity (gate.outlineOf document operation)).Announceable
      · obtain ⟨logs', hlogs⟩ := hannounced hannounce
        rw [hlogs] at heval
        exact .inr ⟨operation, complexity, rfl, hscore,
          (Prod.mk.inj (Except.ok.inj heval)).1.symm⟩
      · rw [hunwritable hannounce] at heval
        cases heval

/-- What a gate makes of a request. Without an operation it allows the request at no
complexity and no depth. An operation whose score fails fails likewise. Any other is judged
by its score, the true depth of its nesting, and the selections within the depth limit. The
verdict is reported exactly if it can be announced: a rejection for a limit that has too many
digits to be written fails. -/
theorem evaluate_verdict (built : gate.Built limit) (document : Option Document)
    (name : Option String) :
    (document.bind (·.target? name) = none →
      gate.evaluate document name = .ok (⟨none, .zero, .int 0, .allowed⟩, [])) ∧
    ∀ d operation, document = some d → d.target? name = some operation →
      match gate.scorer.score (gate.bound d) operation.selections 0 with
      | .error failure => gate.evaluate document name = .error failure
      | .ok complexity =>
        let outline := gate.outlineOf d operation
        let decision := gate.verdict limit complexity outline
        (decision.Announceable → ∃ logs, gate.evaluate document name =
          .ok (⟨some operation, complexity, .int (gate.reportedDepth limit outline), decision⟩,
            logs)) ∧
        (¬decision.Announceable →
          gate.evaluate document name = .error (.literal .unwritable)) ∧
        (decision.Announceable ↔
          (gate.policy.maxComplexity.lt (.float complexity) = true →
            gate.policy.maxComplexity.Writable) ∧
          (gate.policy.maxComplexity.lt (.float complexity) = false →
            limit < outline.height ∨ gate.meter.budget < outline.sizeTo limit →
            limit + 1 < tenTo WholeNumber.digitLimit)) := by
  refine ⟨evaluate_of_none, ?_⟩
  rintro d operation rfl htarget
  split
  · rename_i failure hscore
    exact evaluate_of_failure htarget hscore
  · rename_i complexity hscore
    obtain ⟨hannounced, hunwritable⟩ := evaluate_of_score built.limited htarget hscore
    exact ⟨hannounced, hunwritable, announceable_verdict_iff built.limited⟩

/-- A query that spreads a fragment. -/
def spreadQuery : Operation := ⟨.query, none, [], [], some [.spread "a" [] none]⟩

/-- A document whose fragment spreads itself. -/
def cyclicDocument : Document :=
  ⟨[.operation spreadQuery, .fragment ⟨"a", "User", [],
    some [.field none "friend" [] [] (some [.spread "a" [] none])]⟩]⟩

/-- The score follows a cycle down to the cutoff, the depth once around. -/
theorem evaluate_verdict_cyclic :
    standard.Built 10 ∧ ∃ logs, standard.evaluate (some cyclicDocument) none =
      .ok (⟨some spreadQuery, Binary64.ofInt 4, .int 2, .allowed⟩, logs) := by
  have hbuilt : standard.Built 10 :=
    .ofPolicy (show Policy.make (.int 500) (.int 10) = .ok .standard from rfl)
      (show Gate.make .standard .standard none true false standardLogger = .ok standard from rfl)
  have hscore : standard.scorer.score (standard.bound cyclicDocument) spreadQuery.selections 0 =
      .ok (Binary64.ofInt 4) := eq_ok_of_toOption (by decide +kernel)
  have houtline : standard.outlineOf cyclicDocument spreadQuery =
      .branch (.branch (.leaf .done) .done) .done := by
    show DepthMeter.outlineOf (some cyclicDocument.fragments) spreadQuery.selections = _
    cbv
  have hdepth : standard.reportedDepth 10 (.branch (.branch (.leaf .done) .done) .done) = 2 := by
    decide
  have hverdict : standard.verdict 10 (Binary64.ofInt 4)
      (.branch (.branch (.leaf .done) .done) .done) = .allowed := by decide +kernel
  refine ⟨hbuilt, ?_⟩
  -- the gate is made a variable, or applying the theorem to it would run the score
  generalize standard = gate at *
  obtain ⟨_, hverdicts⟩ := evaluate_verdict hbuilt (some cyclicDocument) none
  have h := hverdicts cyclicDocument spreadQuery rfl rfl
  rw [hscore, houtline] at h
  simp only [hdepth, hverdict] at h
  exact h.1 trivial

/-! ## Findings -/

/-- What an evaluation shows of an operation: complexity, depth, decision and log. -/
structure Findings where
  complexity : Binary64
  depth : Quantity
  decision : Decision
  logs : List LogRecord

/-- What the evaluation of a request shows, or how it fails. -/
def findings (gate : Gate) (document : Option Document) (name : Option String) :
    Except Failure Findings :=
  (gate.evaluate document name).map fun (e, logs) => ⟨e.complexity, e.depth, e.decision, logs⟩

/-- The findings on an operation, given its score and the report on its depth. -/
def findingsOf (gate : Gate) (operation : Operation) (score : Except Failure Binary64)
    (reading : DepthMeter.Reading) : Except Failure Findings := do
  let complexity ← score
  let warning ← depthLog gate.meter reading
  let decision := gate.decide (some operation) (.float complexity) reading.depth
  let log ← gate.evaluationLog operation complexity reading.depth decision
  return ⟨complexity, reading.depth, decision, warning ++ log⟩

theorem findings_of_target {document : Document} {name : Option String} {operation : Operation}
    (htarget : document.target? name = some operation) :
    gate.findings (some document) name =
      gate.findingsOf operation
        (gate.scorer.score (gate.bound document) operation.selections 0)
        (gate.meter.measure (gate.bound document) operation.selections 0) := by
  simp only [findings, findingsOf, evaluate, htarget]
  cases gate.scorer.score (gate.bound document) operation.selections 0 with
  | error failure => rfl
  | ok complexity =>
    generalize gate.meter.measure (gate.bound document) operation.selections 0 = reading
    simp only [bind, Except.bind, Except.map]
    cases depthLog gate.meter reading with
    | error failure => rfl
    | ok warning =>
      cases gate.evaluationLog operation complexity reading.depth
          (gate.decide (some operation) (.float complexity) reading.depth) with
      | error failure => rfl
      | ok log => rfl

/-- Of an operation itself, the findings show no more than its type and name. -/
theorem findingsOf_congr {operation operation' : Operation}
    (htype : operation.type = operation'.type) (hname : operation.name = operation'.name)
    (score : Except Failure Binary64) (reading : DepthMeter.Reading) :
    gate.findingsOf operation score reading = gate.findingsOf operation' score reading := by
  have hlog : ∀ complexity depth decision,
      gate.evaluationLog operation complexity depth decision =
        gate.evaluationLog operation' complexity depth decision := by
    intro complexity depth decision
    unfold evaluationLog logName
    rw [htype, hname]
  have hdecide : ∀ complexity depth, gate.decide (some operation) complexity depth =
      gate.decide (some operation') complexity depth := fun _ _ => rfl
  simp only [findingsOf, hlog, hdecide]

/-- Requests that target operations of one type and name, with the same score and the same
report on their depth, have the same findings. -/
theorem findings_congr {d d' : Document} {name : Option String}
    (h : Option.Rel (fun o o' => o.type = o'.type ∧ o.name = o'.name ∧
        gate.scorer.score (gate.bound d) o.selections 0 =
          gate.scorer.score (gate.bound d') o'.selections 0 ∧
        gate.meter.measure (gate.bound d) o.selections 0 =
          gate.meter.measure (gate.bound d') o'.selections 0)
      (d.target? name) (d'.target? name)) :
    gate.findings (some d) name = gate.findings (some d') name := by
  cases htarget : d.target? name with
  | none =>
    rw [htarget] at h
    generalize htarget' : d'.target? name = target at h
    cases h
    simp only [findings, evaluate, htarget, htarget']
  | some o =>
    rw [htarget] at h
    generalize htarget' : d'.target? name = target at h
    cases h with
    | some h =>
      obtain ⟨htype, hname, hscore, hmeasure⟩ := h
      rw [findings_of_target htarget, findings_of_target htarget', hscore, hmeasure,
        findingsOf_congr htype hname]

end Gate

end QueryAdmission
