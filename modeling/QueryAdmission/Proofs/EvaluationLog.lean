import QueryAdmission.Proofs.Padding
import QueryAdmission.Proofs.Recording

/-! # What an evaluation logs

The log is handed back with the evaluation, so an evaluation that fails hands back none. Its
recording takes the same steps and keeps what they have logged when a later one fails. For
a gate with a whole depth limit it shows that two steps can fail: the score, which is before
anything is logged, and the message of a rejection whose limit has too many digits to be
written, which is after the warning of the walk and the record of the measurements. What is
logged is settled by the size of the outline, the switch for measurements, and the verdict. -/

namespace QueryAdmission

namespace Gate

open Recording (write)

variable {gate : Gate} {limit : Nat} {d : Document} {operation : Operation}

/-! ## An evaluation as a recording -/

/-- How records refer to an operation: by its type and its name. -/
def subject (operation : Operation) : String := operation.type.text ++ " " ++ logName operation

/-- The record of the measurements, if every evaluation is logged. -/
def measurementLog (gate : Gate) (operation : Operation) (complexity : Binary64)
    (depth : Quantity) : Except Failure (List LogRecord) :=
  if gate.logEvaluations then do
    return [⟨.info, gate.logger, "[GraphQL] " ++ subject operation ++ ": complexity=" ++
      complexity.text ++ ", depth=" ++ (← depthText depth)⟩]
  else .ok []

/-- The record of a decision, if it is a rejection. -/
def decisionLog (gate : Gate) (operation : Operation) :
    Decision → Except Failure (List LogRecord)
  | .allowed => .ok []
  | .rejected rejection => do
    return [⟨.warning, gate.logger,
      "Rejected " ++ subject operation ++ ": " ++ (← rejection.message)⟩]

theorem evaluationLog_eq (gate : Gate) (operation : Operation) (complexity : Binary64)
    (depth : Quantity) (decision : Decision) :
    gate.evaluationLog operation complexity depth decision = do
      let measured ← gate.measurementLog operation complexity depth
      return measured ++ (← gate.decisionLog operation decision) := by
  have hdecided : ∀ measured : List LogRecord,
      (match decision with
        | .allowed => pure measured
        | .rejected rejection => do
          return measured ++ [⟨.warning, gate.logger, "Rejected " ++ subject operation ++ ": " ++
            (← rejection.message)⟩]) =
        (do return measured ++ (← gate.decisionLog operation decision) :
          Except Failure (List LogRecord)) := by
    intro measured
    cases decision with
    | allowed => exact congrArg Except.ok (List.append_nil measured).symm
    | rejected rejection =>
      simp only [decisionLog]
      cases rejection.message <;> rfl
  unfold evaluationLog measurementLog
  cases gate.logEvaluations with
  | false => exact hdecided []
  | true =>
    cases depthText depth with
    | error failure => rfl
    | ok text => exact hdecided _

/-- The evaluation of an operation, with every record logged where it arises. -/
def recordingOf (gate : Gate) (document : Document) (operation : Operation) :
    Recording LogRecord Evaluation := do
  let fragments := gate.bound document
  let complexity ← gate.scorer.score fragments operation.selections 0
  let reading := gate.meter.measure fragments operation.selections 0
  write (← depthLog gate.meter reading)
  let decision := gate.decide (some operation) (.float complexity) reading.depth
  write (← gate.measurementLog operation complexity reading.depth)
  write (← gate.decisionLog operation decision)
  return ⟨some operation, complexity, reading.depth, decision⟩

/-- The evaluation of a request, with every record logged where it arises. -/
def recording (gate : Gate) (document : Option Document) (name : Option String) :
    Recording LogRecord Evaluation :=
  match document with
  | none => return ⟨none, .zero, .int 0, .allowed⟩
  | some document =>
    match document.target? name with
    | none => return ⟨none, .zero, .int 0, .allowed⟩
    | some operation => gate.recordingOf document operation

/-- How an evaluation ends, and what it has logged by then. -/
def recorded (gate : Gate) (document : Option Document) (name : Option String) :
    Except Failure Evaluation × List LogRecord :=
  (gate.recording document name).after []

theorem recorded_of_none {document : Option Document} {name : Option String}
    (h : document.bind (·.target? name) = none) :
    gate.recorded document name = (.ok ⟨none, .zero, .int 0, .allowed⟩, []) := by
  cases document with
  | none => rfl
  | some d =>
    rw [Option.bind_some] at h
    simp only [recorded, recording, h]
    rfl

theorem recorded_of_target {name : Option String} (h : d.target? name = some operation) :
    gate.recorded (some d) name = (gate.recordingOf d operation).after [] := by
  simp only [recorded, recording, h]

theorem recordingOf_of_failure {failure : Failure}
    (h : gate.scorer.score (gate.bound d) operation.selections 0 = .error failure) :
    (gate.recordingOf d operation).after [] = (.error failure, []) := by
  simp only [recordingOf, h, Recording.after_bind, Recording.after_lift]

/-- What is logged once the score is known: the warning of the walk, the measurements, and
the decision, as far as none of them fails. -/
theorem recordingOf_of_score {complexity : Binary64} {depth : Quantity} {exhausted : Bool}
    {warning measured decided : List LogRecord}
    (hscore : gate.scorer.score (gate.bound d) operation.selections 0 = .ok complexity)
    (hreading : gate.meter.measure (gate.bound d) operation.selections 0 = ⟨depth, exhausted⟩)
    (hwarning : depthLog gate.meter ⟨depth, exhausted⟩ = .ok warning)
    (hmeasured : gate.measurementLog operation complexity depth = .ok measured)
    (hdecided : gate.decisionLog operation
      (gate.decide (some operation) (.float complexity) depth) = .ok decided) :
    (gate.recordingOf d operation).after [] =
      (.ok ⟨some operation, complexity, depth,
        gate.decide (some operation) (.float complexity) depth⟩,
        warning ++ measured ++ decided) := by
  simp only [recordingOf, hscore, hreading, hwarning, hmeasured, hdecided, Recording.after_bind,
    Recording.after_lift, Recording.after_write, Recording.after_pure, List.nil_append]

/-- A decision that cannot be announced is the last step, and what is logged before it stays. -/
theorem recordingOf_of_unannounced {complexity : Binary64} {depth : Quantity} {exhausted : Bool}
    {warning measured : List LogRecord} {failure : Failure}
    (hscore : gate.scorer.score (gate.bound d) operation.selections 0 = .ok complexity)
    (hreading : gate.meter.measure (gate.bound d) operation.selections 0 = ⟨depth, exhausted⟩)
    (hwarning : depthLog gate.meter ⟨depth, exhausted⟩ = .ok warning)
    (hmeasured : gate.measurementLog operation complexity depth = .ok measured)
    (hdecided : gate.decisionLog operation
      (gate.decide (some operation) (.float complexity) depth) = .error failure) :
    (gate.recordingOf d operation).after [] = (.error failure, warning ++ measured) := by
  simp only [recordingOf, hscore, hreading, hwarning, hmeasured, hdecided, Recording.after_bind,
    Recording.after_lift, Recording.after_write, List.nil_append]

/-- The recording ends as the evaluation does: it fails in the same way, or it has the same
result and has logged what is handed back with it. -/
theorem evaluate_eq_recorded (gate : Gate) (document : Option Document) (name : Option String) :
    gate.evaluate document name =
      (gate.recorded document name).1.map (·, (gate.recorded document name).2) := by
  cases htarget : document.bind (·.target? name) with
  | none => rw [evaluate_of_none htarget, recorded_of_none htarget, Except.map]
  | some operation =>
    obtain ⟨d, rfl, hfound⟩ := Option.bind_eq_some_iff.mp htarget
    simp only [recorded_of_target hfound, evaluate, hfound, recordingOf, evaluationLog_eq,
      Recording.after_bind, Recording.after_lift, Recording.after_write, Recording.after_pure]
    cases gate.scorer.score (gate.bound d) operation.selections 0 with
    | error failure => rfl
    | ok complexity =>
      generalize gate.meter.measure (gate.bound d) operation.selections 0 = reading
      simp only [bind, Except.bind]
      cases depthLog gate.meter reading with
      | error failure => rfl
      | ok warning =>
        cases gate.measurementLog operation complexity reading.depth with
        | error failure => rfl
        | ok measured =>
          cases gate.decisionLog operation
              (gate.decide (some operation) (.float complexity) reading.depth) with
          | error failure => rfl
          | ok decided =>
            simp only [List.nil_append, List.append_assoc, pure, Except.pure, Except.map]

/-! ## The records -/

/-- The warning of a walk that the budget stopped: it names the budget, and one level more
than the limit. -/
def exhaustionRecords (gate : Gate) (limit : Nat) (outline : Outline) : List LogRecord :=
  if gate.meter.budget < outline.sizeTo limit then
    [⟨.warning, depthLogger, "Depth traversal stopped after " ++ toString gate.meter.budget ++
      " selections; reporting depth " ++ toString (limit + 1)⟩]
  else []

/-- The measurements, if every evaluation is logged. -/
def measurementRecords (gate : Gate) (operation : Operation) (complexity : Binary64)
    (depth : Int) : List LogRecord :=
  if gate.logEvaluations then
    [⟨.info, gate.logger, "[GraphQL] " ++ subject operation ++ ": complexity=" ++
      complexity.text ++ ", depth=" ++ toString depth⟩]
  else []

/-- A decision and its records: none if the operation is allowed, and one warning with its
message if it is rejected. -/
inductive Announces (gate : Gate) (operation : Operation) : Decision → List LogRecord → Prop
  | allowed : Announces gate operation .allowed []
  | rejected {rejection : Rejection} {text : String} (h : rejection.message = .ok text) :
      Announces gate operation (.rejected rejection)
        [⟨.warning, gate.logger, "Rejected " ++ subject operation ++ ": " ++ text⟩]

/-- The walk of a gate with a depth limit warns exactly when the budget does not suffice. -/
theorem depthLog_of_limited (h : gate.Limited limit) (d : Document) (operation : Operation) :
    depthLog gate.meter (gate.meter.measure (gate.bound d) operation.selections 0) =
      .ok (gate.exhaustionRecords limit (gate.outlineOf d operation)) := by
  rw [DepthMeter.measure_of_cap h.cap, exhaustionRecords, outlineOf]
  split <;> exact depthLog_int _ _ _

theorem measurementLog_int (gate : Gate) (operation : Operation) (complexity : Binary64)
    (depth : Int) :
    gate.measurementLog operation complexity (.int depth) =
      .ok (gate.measurementRecords operation complexity depth) := by
  unfold measurementLog measurementRecords
  cases gate.logEvaluations <;> rfl

theorem exists_announces (gate : Gate) (operation : Operation) {decision : Decision}
    (h : decision.Announceable) :
    ∃ decided, gate.decisionLog operation decision = .ok decided ∧
      gate.Announces operation decision decided := by
  cases decision with
  | allowed => exact ⟨[], rfl, .allowed⟩
  | rejected rejection =>
    obtain ⟨text, htext⟩ := h
    refine ⟨_, ?_, .rejected htext⟩
    simp only [decisionLog, htext]
    rfl

theorem decisionLog_of_not_announceable (gate : Gate) (operation : Operation)
    {complexity depth : Quantity}
    (h : ¬(gate.decide (some operation) complexity depth).Announceable) :
    gate.decisionLog operation (gate.decide (some operation) complexity depth) =
      .error (.literal .unwritable) := by
  cases hdecision : gate.decide (some operation) complexity depth with
  | allowed =>
    rw [hdecision] at h
    exact absurd trivial h
  | rejected rejection =>
    simp only [decisionLog, Policy.message_of_not_announceable hdecision h]
    rfl

/-- Where the score is known, the records are the warning of an exhausted walk, the
measurements if they are asked for, and what announces the verdict. A verdict that cannot be
announced ends the evaluation behind the first two. -/
theorem recorded_of_score (h : gate.Limited limit) {name : Option String}
    (htarget : d.target? name = some operation) {complexity : Binary64}
    (hscore : gate.scorer.score (gate.bound d) operation.selections 0 = .ok complexity) :
    let depth := gate.reportedDepth limit (gate.outlineOf d operation)
    let decision := gate.verdict limit complexity (gate.outlineOf d operation)
    let records := gate.exhaustionRecords limit (gate.outlineOf d operation) ++
      gate.measurementRecords operation complexity depth
    (decision.Announceable → ∃ decided, gate.Announces operation decision decided ∧
      gate.recorded (some d) name =
        (.ok ⟨some operation, complexity, .int depth, decision⟩, records ++ decided)) ∧
    (¬decision.Announceable →
      gate.recorded (some d) name = (.error (.literal .unwritable), records)) := by
  have hdepth := measure_depth h d operation
  have hwarning := depthLog_of_limited h d operation
  have hmeasured := gate.measurementLog_int operation complexity
    (gate.reportedDepth limit (gate.outlineOf d operation))
  have hdecide := decide_eq_verdict h operation complexity (gate.outlineOf d operation)
  cases hreading : gate.meter.measure (gate.bound d) operation.selections 0 with
  | mk depth exhausted =>
    rw [hreading] at hdepth hwarning
    simp only at hdepth
    subst hdepth
    rw [recorded_of_target htarget, ← hdecide]
    refine ⟨fun hannounce => ?_, fun hannounce => ?_⟩
    · obtain ⟨decided, hdecided, hannounces⟩ := gate.exists_announces operation hannounce
      exact ⟨decided, hannounces,
        recordingOf_of_score hscore hreading hwarning hmeasured hdecided⟩
    · exact recordingOf_of_unannounced hscore hreading hwarning hmeasured
        (gate.decisionLog_of_not_announceable operation hannounce)

/-- What the evaluation of a request logs. Without an operation that is nothing, and nothing
either if the score fails. Otherwise there is, in this order, a warning if the selections
within the limit are more than the budget, a record of the measurements if the switch is on,
and a warning with the message if the operation is rejected. Where the message of the rejection
cannot be written, the evaluation fails in place of the last, and the first two stay. -/
theorem evaluate_logs (built : gate.Built limit) (document : Option Document)
    (name : Option String) :
    gate.evaluate document name =
      (gate.recorded document name).1.map (·, (gate.recorded document name).2) ∧
    (document.bind (·.target? name) = none →
      gate.recorded document name = (.ok ⟨none, .zero, .int 0, .allowed⟩, [])) ∧
    ∀ d operation, document = some d → d.target? name = some operation →
      match gate.scorer.score (gate.bound d) operation.selections 0 with
      | .error failure => gate.recorded document name = (.error failure, [])
      | .ok complexity =>
        let depth := gate.reportedDepth limit (gate.outlineOf d operation)
        let decision := gate.verdict limit complexity (gate.outlineOf d operation)
        let records := gate.exhaustionRecords limit (gate.outlineOf d operation) ++
          gate.measurementRecords operation complexity depth
        (decision.Announceable → ∃ decided, gate.Announces operation decision decided ∧
          gate.recorded document name =
            (.ok ⟨some operation, complexity, .int depth, decision⟩, records ++ decided)) ∧
        (¬decision.Announceable →
          gate.recorded document name = (.error (.literal .unwritable), records)) := by
  refine ⟨gate.evaluate_eq_recorded document name, recorded_of_none, ?_⟩
  rintro d operation rfl htarget
  split
  · rename_i failure hscore
    exact (recorded_of_target htarget).trans (recordingOf_of_failure hscore)
  · rename_i complexity hscore
    exact recorded_of_score built.limited htarget hscore

/-! ### A query that is too much in every respect -/

/-- Settings under which two selections exhaust a walk and every evaluation is logged. -/
def watchfulSettings : Settings :=
  { strictSettings with
    depthNodeBudget := 2
    logEvaluations := true
    budget_pos := by decide }

/-- The query of `threeFieldsInCycle`. -/
def queryIntoCycle : Operation :=
  ⟨.query, none, [], [],
    some [leafOf "me", .spread "rest" [] none, leafOf "users", leafOf "lists"]⟩

def outlineIntoCycle : Outline :=
  .leaf (.branch (.leaf (.leaf .done)) (.leaf (.leaf .done)))

def tooComplex : Rejection :=
  ⟨.tooComplex, [("complexity", .quantity (.float (.ofInt 6))),
    ("maxComplexity", .quantity (.float watchfulSettings.maxComplexity))]⟩

theorem exists_scorer_watchful :
    ∃ scorer, watchfulSettings.scorer = .ok scorer ∧
      scorer.score (some threeFieldsInCycle.fragments) queryIntoCycle.selections 0 =
        .ok (.ofInt 6) := by
  have hscore : (watchfulSettings.scorer.toOption.bind fun scorer =>
      (scorer.score (some threeFieldsInCycle.fragments) queryIntoCycle.selections 0).toOption) =
        some (.ofInt 6) := by decide +kernel
  obtain ⟨scorer, hscorer, hscore⟩ := Option.bind_eq_some_iff.mp hscore
  exact ⟨scorer, eq_ok_of_toOption hscorer, eq_ok_of_toOption hscore⟩

theorem outlineOf_watchful (scorer : Scorer) :
    (watchfulSettings.gateWith scorer).outlineOf threeFieldsInCycle queryIntoCycle =
      outlineIntoCycle := by
  show DepthMeter.outlineOf (some threeFieldsInCycle.fragments) queryIntoCycle.selections = _
  cbv

theorem verdict_watchful (scorer : Scorer) :
    (watchfulSettings.gateWith scorer).verdict 3 (.ofInt 6) outlineIntoCycle =
      .rejected tooComplex := by
  have hlt : (Quantity.float watchfulSettings.maxComplexity).lt (.float (.ofInt 6)) = true := by
    decide +kernel
  exact if_pos hlt

theorem exhaustionRecords_watchful (scorer : Scorer) :
    (watchfulSettings.gateWith scorer).exhaustionRecords 3 outlineIntoCycle =
      [⟨.warning, "query_guard.analysis.depth",
        "Depth traversal stopped after 2 selections; reporting depth 4"⟩] := by
  have hbudget : (watchfulSettings.gateWith scorer).meter.budget = 2 := rfl
  rw [exhaustionRecords, hbudget]
  cbv

theorem measurementRecords_watchful (scorer : Scorer) :
    (watchfulSettings.gateWith scorer).measurementRecords queryIntoCycle (.ofInt 6)
        ((watchfulSettings.gateWith scorer).reportedDepth 3 outlineIntoCycle) =
      [⟨.info, "query_guard.admission",
        "[GraphQL] query anonymous: complexity=6.0, depth=4"⟩] := by
  have hcomplexity : (Binary64.ofInt 6).text = "6.0" := by decide +kernel
  have hbudget : (watchfulSettings.gateWith scorer).meter.budget = 2 := rfl
  have hlogs : (watchfulSettings.gateWith scorer).logEvaluations = true := rfl
  rw [measurementRecords, hcomplexity, hlogs, if_pos rfl, reportedDepth, hbudget]
  rfl

theorem message_tooComplex :
    tooComplex.message = .ok "Query complexity (6.0) exceeds maximum allowed (2.0)" :=
  eq_ok_of_toOption (by decide +kernel)

/-- Of a query that is too much in every respect, all three records are logged. -/
theorem evaluate_logs_queryIntoCycle :
    ∃ gate evaluation, watchfulSettings.gate = .ok gate ∧ gate.Built 3 ∧
      gate.evaluate (some threeFieldsInCycle) none = .ok (evaluation,
        [⟨.warning, "query_guard.analysis.depth",
            "Depth traversal stopped after 2 selections; reporting depth 4"⟩,
          ⟨.info, "query_guard.admission",
            "[GraphQL] query anonymous: complexity=6.0, depth=4"⟩,
          ⟨.warning, "query_guard.admission", "Rejected query anonymous: " ++
            "Query complexity (6.0) exceeds maximum allowed (2.0)"⟩]) := by
  obtain ⟨scorer, hscorer, hscore⟩ := exists_scorer_watchful
  have hgate := Settings.gate_of_scorer hscorer
  have hbuilt : (watchfulSettings.gateWith scorer).Built 3 := .ofSettings hgate rfl
  have hscore : (watchfulSettings.gateWith scorer).scorer.score
      ((watchfulSettings.gateWith scorer).bound threeFieldsInCycle) queryIntoCycle.selections 0 =
        .ok (.ofInt 6) := hscore
  have houtline := outlineOf_watchful scorer
  have hverdict := verdict_watchful scorer
  have hexhausted := exhaustionRecords_watchful scorer
  have hmeasured := measurementRecords_watchful scorer
  have htext := message_tooComplex
  have hlogger : (watchfulSettings.gateWith scorer).logger = "query_guard.admission" := rfl
  -- variables in their place, or applying the theorem to them would run the evaluation
  generalize watchfulSettings.gateWith scorer = gate at *
  generalize Binary64.ofInt 6 = six at *
  generalize tooComplex = rejection at *
  obtain ⟨heval, -, hrecorded⟩ := evaluate_logs hbuilt (some threeFieldsInCycle) none
  have hrecorded := hrecorded threeFieldsInCycle queryIntoCycle rfl rfl
  rw [hscore, houtline] at hrecorded
  obtain ⟨decided, hannounces, hrecorded⟩ := hrecorded.1 (hverdict ▸ ⟨_, htext⟩)
  rw [hverdict] at hannounces
  cases hannounces with
  | rejected hmessage =>
    obtain rfl := Except.ok.inj (hmessage.symm.trans htext)
    rw [hrecorded, hexhausted, hmeasured, hlogger] at heval
    exact ⟨_, _, hgate, hbuilt, heval⟩

/-! ### A limit that cannot be shown -/

/-- Settings with the greatest depth limit that can be written: one level more has too many
digits. Two selections exhaust the budget. -/
def longestSettings : Settings :=
  { strictSettings with
    maxDepth := tenTo WholeNumber.digitLimit - 1
    depthNodeBudget := 1
    budget_pos := Nat.one_pos
    cutoff_le := by decide +kernel }

def queryForTwo : Operation := ⟨.query, none, [], [], some [leafOf "me", leafOf "users"]⟩

def twoOfUsers : Document := ⟨[.operation queryForTwo]⟩

/-- Two fields are too deep for the settings, as their walk is abandoned. The warning of the
walk is logged, and then the evaluation fails, as the depth is too long for the message. -/
theorem recorded_unannounced_twoOfUsers :
    ∃ gate record, longestSettings.gate = .ok gate ∧
      gate.evaluate (some twoOfUsers) none = .error (.literal .unwritable) ∧
      gate.recorded (some twoOfUsers) none = (.error (.literal .unwritable), [record]) := by
  have hscores : (longestSettings.scorer.toOption.bind fun scorer =>
      (scorer.score (some twoOfUsers.fragments) queryForTwo.selections 0).toOption) =
        some (.ofInt 2) := by decide +kernel
  obtain ⟨scorer, hscorer, hscore⟩ := Option.bind_eq_some_iff.mp hscores
  have hgate := Settings.gate_of_scorer (eq_ok_of_toOption hscorer)
  have hlimited := (Built.ofSettings hgate rfl).limited
  have hscore : (longestSettings.gateWith scorer).scorer.score
      ((longestSettings.gateWith scorer).bound twoOfUsers) queryForTwo.selections 0 =
        .ok (.ofInt 2) := eq_ok_of_toOption hscore
  have houtline : (longestSettings.gateWith scorer).outlineOf twoOfUsers queryForTwo =
      .leaf (.leaf .done) := by
    show DepthMeter.outlineOf (some twoOfUsers.fragments) queryForTwo.selections = _
    cbv
  have hcheap : (longestSettings.gateWith scorer).policy.maxComplexity.lt
      (.float (.ofInt 2)) = false :=
    show (Quantity.float longestSettings.maxComplexity).lt _ = false by decide +kernel
  have hbudget : (longestSettings.gateWith scorer).meter.budget = 1 := rfl
  have hquiet : (longestSettings.gateWith scorer).logEvaluations = false := rfl
  have hlong : tenTo WholeNumber.digitLimit ≤ longestSettings.maxDepth + 1 :=
    Nat.le_add_of_sub_le (Nat.le_refl _)
  have htarget : twoOfUsers.target? none = some queryForTwo := rfl
  -- the limit is made a variable, or it would be written out
  generalize longestSettings.gateWith scorer = gate at *
  generalize longestSettings.maxDepth = limit at *
  generalize Binary64.ofInt 2 = two at *
  have hsize : Outline.sizeTo (.leaf (.leaf .done)) limit = 2 := rfl
  have hannounce :
      ¬(gate.verdict limit two (gate.outlineOf twoOfUsers queryForTwo)).Announceable := by
    rw [announceable_verdict_iff hlimited, houtline, hbudget, hsize]
    exact fun h => Nat.not_lt.2 hlong (h.2 hcheap (.inr Nat.one_lt_two))
  have hrecorded := (recorded_of_score hlimited htarget hscore).2 hannounce
  rw [houtline, exhaustionRecords, hbudget, hsize, if_pos Nat.one_lt_two, measurementRecords,
    hquiet, if_neg Bool.false_ne_true, List.append_nil] at hrecorded
  refine ⟨gate, _, hgate, ?_, hrecorded⟩
  rw [evaluate_eq_recorded, hrecorded]
  rfl

end Gate

end QueryAdmission
