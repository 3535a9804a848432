import QueryAdmission.Proofs.Reconciliation

/-! # Requests do not influence one another

What a step answers depends on its request alone, and what it adds to the metrics does not
depend on what is there. Any two additions commute, up to the sums of the histograms, which
are rounded in the order in which they are made. So the requests of a run can come in any
order, and those whose evaluation fails can as well be left out. -/

namespace QueryAdmission

/-! ## Metrics without their sums -/

namespace Histogram

/-- The histogram with its sum taken back to zero. -/
def sumless (h : Histogram) : Histogram := { h with sum := .zero }

@[simp] theorem sumless_cumulative (h : Histogram) : h.sumless.cumulative = h.cumulative := rfl

@[simp] theorem sumless_count (h : Histogram) : h.sumless.count = h.count := rfl

/-- Two observations can be placed in either order. -/
theorem place_comm (a b : Quantity) (bounds : List Quantity) (counts : List Nat) :
    place a bounds (place b bounds counts) = place b bounds (place a bounds counts) := by
  induction bounds generalizing counts with
  | nil => cases counts <;> rfl
  | cons bound bounds ih =>
    cases counts with
    | nil => rfl
    | cons n counts =>
      by_cases ha : a.le bound <;> by_cases hb : b.le bound <;> simp [place, ha, hb, ih]

end Histogram

/-- All that metrics say, but for the sums of their histograms. -/
def Metrics.sumless (m : Metrics) : Metrics :=
  { m with
    complexity := fun type => (m.complexity type).map Histogram.sumless
    depth := fun type => (m.depth type).map Histogram.sumless }

/-! ## What one step adds -/

/-- The table where the histogram of a type is there, with the value placed if there is one. -/
def placed (bounds : List Nat) (type : OperationType) (value : Option Quantity)
    (table : OperationType → Option Histogram) : OperationType → Option Histogram :=
  let before := ((table type).getD (.empty bounds)).counts
  put table type
    (some ⟨value.elim before fun v => Histogram.place v (Histogram.withTop bounds) before, .zero⟩)

theorem placed_comm (bounds : List Nat) (type type' : OperationType) (value value' : Option Quantity)
    (table : OperationType → Option Histogram) :
    placed bounds type value (placed bounds type' value' table) =
      placed bounds type' value' (placed bounds type value table) := by
  by_cases h : type = type'
  · subst h
    cases value <;> cases value' <;> simp [placed, Histogram.place_comm]
  · funext other
    simp only [placed, put_of_ne _ _ h, put_of_ne _ _ (Ne.symm h)]
    by_cases hother : other = type <;> by_cases hother' : other = type' <;>
      simp_all [put]

/-- What the counting of one operation adds to metrics. -/
structure Gain where
  type : OperationType
  complexity : Binary64
  /-- None if it cannot be observed. -/
  depth : Option Quantity
  decisions : OperationType × Outcome → Nat
  rejections : RejectionKind → Nat
  directives : CacheDirective → Nat

/-- Metrics with a gain, and without sums. -/
def Metrics.plus (m : Metrics) (gain : Gain) : Metrics where
  decisions key := m.decisions key + gain.decisions key
  rejections kind := m.rejections kind + gain.rejections kind
  directives directive := m.directives directive + gain.directives directive
  complexity := placed Histogram.complexityBounds gain.type (some (.float gain.complexity))
    m.complexity
  depth := placed Histogram.depthBounds gain.type gain.depth m.depth

theorem Metrics.plus_comm (m : Metrics) (a b : Gain) : (m.plus a).plus b = (m.plus b).plus a := by
  simp only [plus, Nat.add_right_comm, Metrics.mk.injEq, true_and]
  exact ⟨placed_comm _ _ _ _ _ _, placed_comm _ _ _ _ _ _⟩

/-- What an operation adds that is counted to its end. -/
def Gain.counted (type : OperationType) (evaluation : Evaluation) (directive : CacheDirective) :
    Gain where
  type
  complexity := evaluation.complexity
  depth := some evaluation.depth
  decisions key := if key = (type, evaluation.decision.outcome) then 1 else 0
  rejections kind := if evaluation.decision.kind? = some kind then 1 else 0
  directives other := if other = directive then 1 else 0

/-- What an operation adds whose counting breaks off at its depth. -/
def Gain.interrupted (type : OperationType) (complexity : Binary64) : Gain :=
  ⟨type, complexity, none, fun _ => 0, fun _ => 0, fun _ => 0⟩

theorem Observed.sumless_eq {bounds : List Nat} {type : OperationType} {value : Quantity}
    {before after : OperationType → Option Histogram} (h : Observed bounds type value before after) :
    (fun other => (after other).map Histogram.sumless) =
      placed bounds type (some value) fun other => (before other).map Histogram.sumless := by
  funext other
  by_cases hother : other = type
  · subst hother
    obtain ⟨histogram, hhistogram, hobserves⟩ := h.here
    simp only [hhistogram, Option.map_some, placed, put_self, Option.some.injEq,
      Histogram.sumless, Histogram.mk.injEq, and_true, Option.elim_some]
    rw [hobserves.counts, ← Histogram.place_eq]
    cases before other <;> rfl
  · simp only [placed, put_of_ne _ _ hother, h.elsewhere other hother]

namespace Metrics

variable {before after : Metrics} {type : OperationType}

theorem Counted.sumless_eq {evaluation : Evaluation} {directive : CacheDirective}
    (h : before.Counted after type evaluation directive) :
    after.sumless = before.sumless.plus (.counted type evaluation directive) := by
  simp only [sumless, plus, Gain.counted, Metrics.mk.injEq]
  exact ⟨funext h.decisions, funext h.rejections, funext h.directives, h.complexity.sumless_eq,
    h.depth.sumless_eq⟩

theorem Interrupted.sumless_eq {complexity : Binary64}
    (h : before.Interrupted after type complexity) :
    after.sumless = before.sumless.plus (.interrupted type complexity) := by
  simp only [sumless, plus, Gain.interrupted, Metrics.mk.injEq, Nat.add_zero]
  refine ⟨h.decisions, h.rejections, h.directives, h.complexity.sumless_eq, ?_⟩
  funext other
  by_cases hother : other = type
  · subst hother
    simp only [h.opened, placed, put_self, Option.map_some, Option.elim_none]
    cases before.depth other <;> rfl
  · simp only [placed, put_of_ne _ _ hother, h.depth other hother]

end Metrics

namespace AdmissionControl

variable (control : AdmissionControl)

/-- What the step in front of a request adds to metrics, if it counts the request at all. -/
def gain? (arrival : Arrival) : Option Gain :=
  match control.gate.evaluate arrival.document arrival.name with
  | .error _ => none
  | .ok (evaluation, _) => evaluation.operation.map fun operation =>
    if evaluation.depth.toBinary64? = none then .interrupted operation.type evaluation.complexity
    else .counted operation.type evaluation
      (control.selector.rule operation evaluation.decision)

/-- What becomes of a request that no other came before. -/
def alone (arrival : Arrival) : AdmissionStep :=
  (control.step .empty arrival.document arrival.name arrival.context).2

/-- Whether the evaluation of a request does not fail. -/
def evaluates (arrival : Arrival) : Bool :=
  (control.gate.evaluate arrival.document arrival.name).isOk

/-- A request is answered alike whatever the metrics are. -/
theorem step_snd (metrics : Metrics) (arrival : Arrival) :
    (control.step metrics arrival.document arrival.name arrival.context).2 =
      control.alone arrival := by
  unfold alone
  cases heval : control.gate.evaluate arrival.document arrival.name with
  | error failure => simp only [control.step_of_error _ arrival.context heval]
  | ok found =>
    obtain ⟨evaluation, logs⟩ := found
    cases hoperation : evaluation.operation with
    | none => simp only [control.step_of_none _ arrival.context heval hoperation]
    | some operation =>
      simp only [step, heval, hoperation]
      rcases control.record_cases metrics operation evaluation with
        ⟨hdepth, after, hrecord, _⟩ | ⟨hdepth, after, hrecord, _⟩ <;>
      rcases control.record_cases .empty operation evaluation with
        ⟨hdepth', after', hrecord', _⟩ | ⟨hdepth', after', hrecord', _⟩
      · simp only [hrecord, hrecord']
      · exact absurd hdepth hdepth'
      · exact absurd hdepth' hdepth
      · simp only [hrecord, hrecord']
        cases evaluation.decision <;> rfl

/-- A step adds its gain, if it has one. -/
theorem step_sumless (metrics : Metrics) (arrival : Arrival) :
    (control.step metrics arrival.document arrival.name arrival.context).1.sumless =
      (control.gain? arrival).elim metrics.sumless metrics.sumless.plus := by
  unfold gain?
  cases heval : control.gate.evaluate arrival.document arrival.name with
  | error failure =>
    rw [control.step_of_error _ arrival.context heval]
    rfl
  | ok found =>
    obtain ⟨evaluation, logs⟩ := found
    cases hoperation : evaluation.operation with
    | none =>
      rw [control.step_of_none _ arrival.context heval hoperation]
      simp only [hoperation, Option.map_none, Option.elim_none]
    | some operation =>
      obtain ⟨_, hcase⟩ := control.step_of_some metrics arrival.context heval hoperation
      simp only [hoperation, Option.map_some, Option.elim_some]
      split at hcase
      · rename_i hdepth
        rw [if_pos hdepth]
        exact hcase.counted.sumless_eq
      · rename_i hdepth
        rw [if_neg hdepth]
        exact hcase.counted.sumless_eq

/-! ## Runs -/

/-- Every request of a run is answered as if it had come alone. -/
theorem run_snd (metrics : Metrics) (arrivals : List Arrival) :
    (control.run metrics arrivals).2 = arrivals.map control.alone := by
  induction arrivals generalizing metrics with
  | nil => rfl
  | cons arrival rest ih => simp only [run, List.map_cons, step_snd, ih]

/-- A run adds the gains of its requests one after the other. -/
theorem run_sumless (metrics : Metrics) (arrivals : List Arrival) :
    (control.run metrics arrivals).1.sumless =
      (arrivals.filterMap control.gain?).foldl Metrics.plus metrics.sumless := by
  induction arrivals generalizing metrics with
  | nil => rfl
  | cons arrival rest ih =>
    simp only [run, ih, step_sumless, List.filterMap_cons]
    cases control.gain? arrival <;> rfl

/-- Requests whose evaluation fails leave no trace in the metrics. -/
theorem run_filter_evaluates (metrics : Metrics) (arrivals : List Arrival) :
    (control.run metrics (arrivals.filter control.evaluates)).1 =
      (control.run metrics arrivals).1 := by
  induction arrivals generalizing metrics with
  | nil => rfl
  | cons arrival rest ih =>
    rw [List.filter_cons]
    cases heval : control.gate.evaluate arrival.document arrival.name with
    | error failure =>
      rw [if_neg (by simp [evaluates, heval, Except.isOk, Except.toBool]), ih, run,
        control.step_of_error _ arrival.context heval]
    | ok found =>
      rw [if_pos (by simp [evaluates, heval, Except.isOk, Except.toBool]), run, run, ih]

/-- In whatever order requests come, each of them is answered as if it had come alone, with the
same ending, header and logs, and in the end the metrics are the same up to the sums of their
histograms. Without the requests whose evaluation fails the others are answered the same, and
the metrics are the same with their sums. -/
theorem run_independent (metrics : Metrics) {arrivals reordered : List Arrival}
    (h : arrivals.Perm reordered) :
    (control.run metrics arrivals).2 = arrivals.map control.alone ∧
      (control.run metrics reordered).2 = reordered.map control.alone ∧
      (control.run metrics reordered).1.sumless = (control.run metrics arrivals).1.sumless ∧
      (control.run metrics (arrivals.filter control.evaluates)).2 =
        (arrivals.filter control.evaluates).map control.alone ∧
      (control.run metrics (arrivals.filter control.evaluates)).1 =
        (control.run metrics arrivals).1 := by
  refine ⟨control.run_snd _ _, control.run_snd _ _, ?_, control.run_snd _ _,
    control.run_filter_evaluates _ _⟩
  rw [run_sumless, run_sumless]
  exact ((h.filterMap _).foldl_eq' (fun a _ b _ m => m.plus_comm a b) _).symm

/-- A query for a page whose size is no number. -/
def misreadQuery : Document :=
  queryWith [.field none "members" [⟨"limit", .int "ten"⟩] [] none] [leafOf "me"]

/-- An allowed query, one whose evaluation fails, and a rejected one. -/
def mixedArrivals : List Arrival :=
  [⟨some twoFields, none, .dictionary .present⟩, ⟨some misreadQuery, none, .none⟩,
    ⟨some threeFields, none, .dictionary .present⟩]

theorem run_independent_mixedArrivals :
    ∃ gate, strictSettings.gate = .ok gate ∧
      mixedArrivals.Perm mixedArrivals.reverse ∧
      (mixedArrivals.filter (evaluates ⟨gate, .standard⟩)).length = 2 ∧
      (run ⟨gate, .standard⟩ .empty mixedArrivals).2 = mixedArrivals.map (alone ⟨gate, .standard⟩) ∧
      (run ⟨gate, .standard⟩ .empty mixedArrivals.reverse).2 =
        mixedArrivals.reverse.map (alone ⟨gate, .standard⟩) ∧
      (run ⟨gate, .standard⟩ .empty mixedArrivals.reverse).1.sumless =
        (run ⟨gate, .standard⟩ .empty mixedArrivals).1.sumless ∧
      (run ⟨gate, .standard⟩ .empty (mixedArrivals.filter (evaluates ⟨gate, .standard⟩))).1 =
        (run ⟨gate, .standard⟩ .empty mixedArrivals).1 := by
  have hkept : (strictSettings.gate.toOption.map fun gate =>
      (mixedArrivals.filter (evaluates ⟨gate, .standard⟩)).length) = some 2 := by decide +kernel
  obtain ⟨gate, hgate, hkept⟩ := Option.map_eq_some_iff.mp hkept
  have hperm := (List.reverse_perm mixedArrivals).symm
  obtain ⟨hanswers, hreordered, hmetrics, _, hsame⟩ :=
    run_independent ⟨gate, .standard⟩ .empty hperm
  exact ⟨gate, eq_ok_of_toOption hgate, hperm, hkept, hanswers, hreordered, hmetrics, hsame⟩

end AdmissionControl

end QueryAdmission
