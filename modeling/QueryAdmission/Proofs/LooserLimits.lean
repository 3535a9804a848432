import QueryAdmission.Proofs.Padding

/-! # Looser limits

What a gate allows has been seen whole: the walk went down to the last set, and every
selection was within the budget. A higher depth limit opens no further sets to such a
walk, so it cannot use up a budget that was enough before, and the gate of looser
settings makes the same of the request. -/

namespace QueryAdmission

/-- Below the deepest set there are no more selections. -/
theorem Outline.sizeTo_of_height_le {o : Outline} {n m : Nat} (h : o.height ≤ n) (hle : n ≤ m) :
    o.sizeTo m = o.sizeTo n := by
  induction o generalizing n m with
  | done => rfl
  | leaf rest ih => rw [sizeTo, sizeTo, ih h hle]
  | branch inner rest ihi ih =>
    simp only [height] at h
    cases n with
    | zero => omega
    | succ n =>
      cases m with
      | zero => omega
      | succ m => rw [sizeTo, sizeTo, ihi (n := n) (by omega) (by omega), ih (by omega) hle]

/-! ## What is allowed -/

namespace Gate

variable {gate : Gate} {limit : Nat} {document : Document} {name : Option String}
  {operation : Operation} {complexity : Binary64}

/-- Of what it allows, a gate reports the true depth and logs the measurements if asked to. -/
theorem evaluate_of_allowed (h : gate.Limited limit)
    (htarget : document.target? name = some operation)
    (hscore : gate.scorer.score (gate.bound document) operation.selections 0 = .ok complexity)
    (hallowed : gate.verdict limit complexity (gate.outlineOf document operation) = .allowed) :
    gate.evaluate (some document) name =
      (gate.evaluationLog operation complexity
        (.int (gate.outlineOf document operation).height) .allowed).map fun log =>
          (⟨some operation, complexity, .int (gate.outlineOf document operation).height, .allowed⟩,
            log) := by
  obtain ⟨_, hheight, hsize⟩ := verdict_eq_allowed.mp hallowed
  have hmeasure : gate.meter.measure (gate.bound document) operation.selections 0 =
      ⟨.int (gate.outlineOf document operation).height, false⟩ := by
    rw [DepthMeter.measure_of_cap h.cap]
    simp only [outlineOf] at hheight hsize ⊢
    rw [if_neg (by omega), min_eq_left (by omega)]
  have hdepth : gate.reportedDepth limit (gate.outlineOf document operation) =
      (gate.outlineOf document operation).height := by
    rw [reportedDepth, if_neg (by omega), min_eq_left (by omega)]
  have hdecide : gate.decide (some operation) (.float complexity)
      (.int (gate.outlineOf document operation).height) = .allowed := by
    rw [← hdepth, decide_eq_verdict h, hallowed]
  simp only [evaluate, htarget, hscore, hmeasure, hdecide, bind, Except.bind, depthLog_int]
  cases gate.evaluationLog operation complexity
      (.int (gate.outlineOf document operation).height) .allowed <;> rfl

end Gate

/-! ## Settings with looser limits -/

namespace Settings

/-- Limits to put in the place of those that settings have, none of them lower. -/
structure LooserLimits (s : Settings) where
  maxComplexity : NonNegative
  maxDepth : Nat
  depthNodeBudget : Nat
  complexity_le : (Quantity.float s.maxComplexity).le (.float maxComplexity) = true
  depth_le : s.maxDepth ≤ maxDepth
  budget_le : s.depthNodeBudget ≤ depthNodeBudget

/-- The settings with looser limits, and with all else as it was. -/
def loosened (s : Settings) (limits : s.LooserLimits) : Settings :=
  { s with
    maxComplexity := limits.maxComplexity
    maxDepth := limits.maxDepth
    depthNodeBudget := limits.depthNodeBudget
    budget_pos := Nat.lt_of_lt_of_le s.budget_pos limits.budget_le
    cutoff_le := Nat.le_trans s.cutoff_le limits.depth_le }

variable {settings : Settings} {gate : Gate}

/-- Looser limits do not reject what the stricter ones allow. -/
theorem verdict_loosened (limits : settings.LooserLimits) (scorer : Scorer) {x : Binary64}
    {o : Outline}
    (h : (settings.gateWith scorer).verdict settings.maxDepth x o = .allowed) :
    ((settings.loosened limits).gateWith scorer).verdict limits.maxDepth x o = .allowed := by
  obtain ⟨hcomplex, hheight, hsize⟩ := Gate.verdict_eq_allowed.mp h
  have hdepth := limits.depth_le
  have hbudget := limits.budget_le
  refine Gate.verdict_eq_allowed.mpr ⟨?_, by omega, ?_⟩
  · rw [Bool.eq_false_iff]
    intro hlt
    have hlt := Quantity.lt_of_le_of_lt limits.complexity_le hlt
    rw [show (Quantity.float settings.maxComplexity).lt (.float x) = false from hcomplex] at hlt
    cases hlt
  · rw [Outline.sizeTo_of_height_le hheight hdepth]
    exact Nat.le_trans hsize hbudget

/-- What a gate allows, the gate of looser settings allows too, with the same complexity and
depth and the same log. -/
theorem evaluate_loosened (hgate : settings.gate = .ok gate) (limits : settings.LooserLimits)
    {document : Option Document} {name : Option String} {evaluation : Evaluation}
    {logs : List LogRecord} (heval : gate.evaluate document name = .ok (evaluation, logs))
    (hallowed : evaluation.decision = .allowed) :
    ∃ gate', (settings.loosened limits).gate = .ok gate' ∧
      gate'.evaluate document name = .ok (evaluation, logs) := by
  obtain ⟨scorer, hscorer, rfl⟩ := exists_gateWith hgate
  have hgate' := (settings.loosened limits).gate_of_scorer hscorer
  have hlimited := (Gate.Built.ofSettings hgate rfl).limited
  have hlimited' := (Gate.Built.ofSettings hgate' rfl).limited
  refine ⟨_, hgate', ?_⟩
  cases document with
  | none => exact heval
  | some document =>
    rcases Gate.evaluate_eq_ok hlimited heval with
      ⟨htarget, _⟩ | ⟨operation, complexity, htarget, hscore, hevaluation⟩
    · have hnone : (some document).bind (·.target? name) = none := htarget
      rw [Gate.evaluate_of_none hnone] at heval ⊢
      exact heval
    · rw [hevaluation] at hallowed
      rw [Gate.evaluate_of_allowed hlimited htarget hscore hallowed] at heval
      rw [Gate.evaluate_of_allowed hlimited' htarget hscore
        (verdict_loosened limits scorer hallowed)]
      exact heval

/-- A query that spreads a fragment, which spreads itself, and asks for the own user. -/
def ownUserInCycle : Document :=
  queryWith [.spread "rest" [] none, leafOf "me"] [.spread "rest" [] none]

/-- The strict settings with a complexity of four and five levels, and the budget as it is. -/
def widerLimits : strictSettings.LooserLimits where
  maxComplexity := ⟨.ofInt 4, by decide +kernel⟩
  maxDepth := 5
  depthNodeBudget := 9
  complexity_le := by decide +kernel
  depth_le := by decide
  budget_le := by decide

/-- Two more levels make no difference to a query that goes around a cycle once. -/
theorem evaluate_loosened_cyclic :
    ∃ gate gate' evaluation logs, strictSettings.gate = .ok gate ∧
      gate.evaluate (some ownUserInCycle) none = .ok (evaluation, logs) ∧
      evaluation.decision = .allowed ∧ (strictSettings.loosened widerLimits).gate = .ok gate' ∧
      gate'.evaluate (some ownUserInCycle) none = .ok (evaluation, logs) := by
  have hallowed : (strictSettings.gate.toOption.bind fun gate =>
      (gate.evaluate (some ownUserInCycle) none).toOption).map (·.1.decision.isAllowed) =
        some true := by decide +kernel
  cases hgate : strictSettings.gate with
  | error failure =>
    rw [hgate] at hallowed
    cases hallowed
  | ok gate =>
    obtain ⟨evaluation, logs, heval, hallowed⟩ := exists_evaluation hgate hallowed
    have hallowed := Decision.isAllowed_iff.mp hallowed
    obtain ⟨gate', hgate', heval'⟩ := evaluate_loosened hgate widerLimits heval hallowed
    exact ⟨gate, gate', evaluation, logs, rfl, heval, hallowed, hgate', heval'⟩

end Settings

end QueryAdmission
