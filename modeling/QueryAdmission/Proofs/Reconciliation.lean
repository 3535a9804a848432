import Mathlib.Algebra.BigOperators.Group.Finset.Piecewise
import Mathlib.Data.Fintype.Prod
import QueryAdmission.Proofs.StepEffects

/-! # The metrics reconcile

Whatever requests a run of admission steps meets, the numbers that it leaves behind fit
together: decisions with observations, rejections with decisions and with the errors that
were raised, directives with decisions, and the buckets of every histogram with its count.
A step whose counting breaks off has observed a complexity without a decision, and nothing
else sets the numbers apart. -/

namespace QueryAdmission

instance : Fintype OperationType where
  elems := {.query, .mutation, .subscription}
  complete type := by cases type <;> decide

instance : Fintype Outcome where
  elems := {.allowed, .rejected}
  complete outcome := by cases outcome <;> decide

instance : Fintype RejectionKind where
  elems := {.tooComplex, .tooDeep}
  complete kind := by cases kind <;> decide

instance : Fintype CacheDirective where
  elems := {.shared, .personal, .noStore}
  complete directive := by cases directive <;> decide

/-- Where one entry of a table is one higher, so is the total. -/
theorem sum_raised {κ : Type} [Fintype κ] [DecidableEq κ] {before after : κ → Nat} {key : κ}
    (h : ∀ k, after k = before k + if k = key then 1 else 0) :
    ∑ k, after k = ∑ k, before k + 1 := by
  simp only [h, Finset.sum_add_distrib, Finset.sum_ite_eq', Finset.mem_univ, if_true]

/-! ## Buckets -/

theorem sum_modify_succ {counts : List Nat} {i : Nat} (h : i < counts.length) :
    (counts.modify i (· + 1)).sum = counts.sum + 1 := by
  induction counts generalizing i with
  | nil => cases h
  | cons n counts ih =>
    cases i with
    | zero => simp only [List.modify_zero_cons, List.sum_cons]; omega
    | succ i =>
      have := ih (Nat.lt_of_succ_lt_succ h)
      simp only [List.modify_succ_cons, List.sum_cons, this]
      omega

namespace Quantity

/-- All but NaN is at most infinite. -/
theorem le_infinite {a : Quantity} (h : a ≠ .float .nan) :
    a.le (.float (.infinite false)) = true := by
  cases ha : a.point? with
  | none => exact absurd (point?_eq_none.mp ha) h
  | some p =>
    have htop : (float (.infinite false)).point? = some .high := rfl
    simp only [le, ha, htop]
    cases p <;> rfl

/-- A maximum that starts from a number is never NaN. -/
theorem max_ne_nan {a b : Quantity} (h : a ≠ .float .nan) : a.max b ≠ .float .nan := by
  unfold max
  split
  · rename_i hlt
    intro hnan
    rw [hnan] at hlt
    simp [lt, point?_eq_none.mpr rfl] at hlt
  · exact h

end Quantity

/-- No walk reports NaN as the depth, whatever the cap is. -/
theorem DepthMeter.measure_ne_nan (meter : DepthMeter) (fragments : Option (List Fragment))
    (selections : SelectionSet) (level : Int) :
    (meter.measure fragments selections level).depth ≠ .float .nan := by
  cases selections with
  | none => exact Quantity.noConfusion
  | some selections =>
    show (meter.run fragments _).depth ≠ _
    generalize (⟨⟨selections, level, []⟩, [], 0, level⟩ : Walk) = walk
    fun_induction meter.run fragments walk with
    | case1 walk h => exact Quantity.noConfusion
    | case2 walk h => exact Quantity.max_ne_nan Quantity.noConfusion
    | case3 walk next h ih => exact ih

namespace Histogram

variable {bounds : List Nat}

/-- The running totals of a list of counts never fall, and end at the sum. -/
theorem cumulative_go (total : Nat) (counts : List Nat) :
    (cumulative.go total counts).length = counts.length ∧
      (total :: cumulative.go total counts).Pairwise (· ≤ ·) ∧
      (total :: cumulative.go total counts).getLast? = some (total + counts.sum) := by
  induction counts generalizing total with
  | nil => simp [cumulative.go]
  | cons n counts ih =>
    obtain ⟨hlength, hsorted, hlast⟩ := ih (total + n)
    refine ⟨by simp only [cumulative.go, List.length_cons, hlength], ?_, ?_⟩
    · refine List.pairwise_cons.mpr ⟨?_, hsorted⟩
      intro m hm
      rcases List.mem_cons.mp hm with rfl | hm
      · exact Nat.le_add_right total n
      · exact Nat.le_trans (Nat.le_add_right total n) (List.rel_of_pairwise_cons hsorted hm)
    · rw [cumulative.go, List.getLast?_cons_cons, hlast, List.sum_cons, Nat.add_assoc]

/-- The histogram has a bucket for each bound and one more, the cumulative counts never
fall, and the last of them is the count. -/
structure Steady (bounds : List Nat) (h : Histogram) : Prop where
  length : h.cumulative.length = bounds.length + 1
  sorted : h.cumulative.Pairwise (· ≤ ·)
  last : h.cumulative.getLast? = some h.count

theorem length_cumulative (h : Histogram) : h.cumulative.length = h.counts.length :=
  (cumulative_go 0 h.counts).1

theorem count_eq_sum (h : Histogram) : h.count = h.counts.sum := by
  obtain ⟨_, _, hlast⟩ := cumulative_go 0 h.counts
  unfold count cumulative
  cases hgo : cumulative.go 0 h.counts with
  | nil =>
    rw [hgo] at hlast
    simpa using hlast
  | cons n rest =>
    rw [hgo, List.getLast?_cons_cons, Nat.zero_add] at hlast
    rw [List.getLastD_eq_getLast?, hlast, Option.getD_some]

theorem steady_of_length {h : Histogram} (hlength : h.counts.length = bounds.length + 1) :
    h.Steady bounds := by
  have hlength' := h.length_cumulative.trans hlength
  obtain ⟨_, hsorted, _⟩ := cumulative_go 0 h.counts
  refine ⟨hlength', hsorted.of_cons, ?_⟩
  have hne : h.cumulative ≠ [] := by
    intro hnil
    rw [hnil] at hlength'
    cases hlength'
  rw [count, List.getLastD_eq_getLast?, List.getLast?_eq_some_getLast hne, Option.getD_some]

theorem Steady.length_counts {h : Histogram} (hsteady : h.Steady bounds) :
    h.counts.length = bounds.length + 1 :=
  h.length_cumulative.symm.trans hsteady.length

theorem steady_empty (bounds : List Nat) : (empty bounds).Steady bounds :=
  steady_of_length List.length_replicate

theorem count_empty (bounds : List Nat) : (empty bounds).count = 0 := by
  rw [count_eq_sum, empty, List.sum_replicate, Nat.nsmul_eq_mul, Nat.mul_zero]

/-- All but NaN falls into a bucket. -/
theorem Observes.count_eq {value : Quantity} {before after : Histogram}
    (h : Observes bounds value before after) (hsteady : before.Steady bounds)
    (hvalue : value ≠ .float .nan) : after.Steady bounds ∧ after.count = before.count + 1 := by
  have hcounts := h.counts
  have hlength := hsteady.length_counts
  cases hplace : (withTop bounds).findIdx? (value.le ·) with
  | none =>
    have htop : Quantity.float (.infinite false) ∈ withTop bounds :=
      List.mem_append_right _ List.mem_cons_self
    have := List.findIdx?_eq_none_iff.mp hplace _ htop
    rw [Quantity.le_infinite hvalue] at this
    cases this
  | some i =>
    have hi : i < before.counts.length := by
      have hlt := (List.findIdx?_eq_some_iff_findIdx_eq.mp hplace).1
      simpa [withTop, hlength] using hlt
    rw [hplace] at hcounts
    refine ⟨steady_of_length ?_, ?_⟩
    · rw [hcounts, List.length_modify, hlength]
    · rw [count_eq_sum, count_eq_sum, hcounts, sum_modify_succ hi]

end Histogram

/-! ## Tables of histograms -/

/-- How many observations of a type there are. -/
def observations (table : OperationType → Option Histogram) (type : OperationType) : Nat :=
  (table type).elim 0 Histogram.count

/-- Every histogram of a table is steady. -/
def AllSteady (bounds : List Nat) (table : OperationType → Option Histogram) : Prop :=
  ∀ type h, table type = some h → h.Steady bounds

section Tables

variable {bounds : List Nat} {type : OperationType} {value : Quantity}
  {before after : OperationType → Option Histogram}

theorem steady_getD (h : AllSteady bounds before) (type : OperationType) :
    ((before type).getD (.empty bounds)).Steady bounds := by
  cases htype : before type with
  | none => exact Histogram.steady_empty bounds
  | some histogram => exact h type histogram htype

theorem count_getD (bounds : List Nat) (before : OperationType → Option Histogram)
    (type : OperationType) :
    ((before type).getD (.empty bounds)).count = observations before type := by
  unfold observations
  cases before type with
  | none => exact Histogram.count_empty bounds
  | some histogram => rfl

theorem Observed.allSteady (h : Observed bounds type value before after)
    (hsteady : AllSteady bounds before) (hvalue : value ≠ .float .nan) :
    AllSteady bounds after := by
  intro other histogram hother
  by_cases hne : other = type
  · obtain ⟨found, hfound, hobserves⟩ := h.here
    rw [hne, hfound] at hother
    obtain rfl := Option.some.inj hother
    exact (hobserves.count_eq (steady_getD hsteady type) hvalue).1
  · rw [h.elsewhere other hne] at hother
    exact hsteady other histogram hother

/-- One observation of one type is one more of that type. -/
theorem Observed.observations_eq (h : Observed bounds type value before after)
    (hsteady : AllSteady bounds before) (hvalue : value ≠ .float .nan) (other : OperationType) :
    observations after other = observations before other + if other = type then 1 else 0 := by
  by_cases hne : other = type
  · obtain ⟨found, hfound, hobserves⟩ := h.here
    have hcount := (hobserves.count_eq (steady_getD hsteady type) hvalue).2
    rw [count_getD] at hcount
    rw [if_pos hne, hne, observations, hfound]
    exact hcount
  · rw [if_neg hne, observations, h.elsewhere other hne]
    rfl

end Tables

/-! ## One step -/

namespace Metrics

/-- How many operations of a type were decided. -/
def decided (m : Metrics) (type : OperationType) : Nat :=
  m.decisions (type, .allowed) + m.decisions (type, .rejected)

/-- The numbers fit together, after so many errors raised, and after the counting of so many
operations of each type broke off. -/
structure Reconciled (selector : CacheSelector) (broken : OperationType → Nat) (raised : Nat)
    (m : Metrics) : Prop where
  complexity : ∀ type, observations m.complexity type = m.decided type + broken type
  depth : ∀ type, observations m.depth type = m.decided type
  rejections : ∑ type, m.decisions (type, .rejected) = ∑ kind, m.rejections kind
  raised : ∑ kind, m.rejections kind = raised
  directives : ∑ directive, m.directives directive = ∑ type, m.decided type
  noStore : selector.noStoreOnRejection = true →
    ∑ kind, m.rejections kind ≤ m.directives .noStore
  complexitySteady : AllSteady Histogram.complexityBounds m.complexity
  depthSteady : AllSteady Histogram.depthBounds m.depth

variable {selector : CacheSelector} {broken : OperationType → Nat} {raised : Nat}
  {before after : Metrics} {type : OperationType} {evaluation : Evaluation}
  {directive : CacheDirective}

theorem reconciled_empty : Reconciled selector (fun _ => 0) 0 .empty where
  complexity _ := rfl
  depth _ := rfl
  rejections := rfl
  raised := rfl
  directives := rfl
  noStore _ := Nat.zero_le _
  complexitySteady _ _ h := by cases h
  depthSteady _ _ h := by cases h

/-- One operation counted is one more that was decided of its type. -/
theorem Counted.decided_eq (h : before.Counted after type evaluation directive)
    (other : OperationType) :
    after.decided other = before.decided other + if other = type then 1 else 0 := by
  unfold decided
  rw [h.decisions, h.decisions]
  cases evaluation.decision.outcome <;> simp <;> omega

/-- If it was rejected, it is one more rejection, by type as by kind. -/
theorem Counted.rejected_eq (h : before.Counted after type evaluation directive) :
    ∑ kind, after.rejections kind =
        ∑ kind, before.rejections kind + (if evaluation.decision = .allowed then 0 else 1) ∧
      ∑ other, after.decisions (other, .rejected) =
        ∑ other, before.decisions (other, .rejected) +
          if evaluation.decision = .allowed then 0 else 1 := by
  have hkinds := h.rejections
  have hdecisions := fun other => h.decisions (other, .rejected)
  cases hdecision : evaluation.decision with
  | allowed =>
    simp only [hdecision, Decision.kind?, Decision.outcome, Prod.mk.injEq, reduceCtorEq, and_false,
      if_false, Nat.add_zero] at hkinds hdecisions
    simp only [hkinds, hdecisions, if_true, Nat.add_zero, and_self]
  | rejected rejection =>
    have hkind : ∀ kind, Decision.kind? (.rejected rejection) = some kind ↔ kind = rejection.kind :=
      fun kind => Option.some_inj.trans eq_comm
    simp only [hdecision, hkind, Decision.outcome, Prod.mk.injEq, and_true] at hkinds hdecisions
    rw [if_neg Decision.noConfusion]
    exact ⟨sum_raised hkinds, sum_raised hdecisions⟩

theorem Reconciled.counted (h : before.Reconciled selector broken raised) {operation : Operation}
    (hcounted : before.Counted after operation.type evaluation
      (selector.rule operation evaluation.decision))
    (hcomplexity : evaluation.complexity ≠ .nan) (hdepth : evaluation.depth ≠ .float .nan) :
    after.Reconciled selector broken
      (raised + if evaluation.decision = .allowed then 0 else 1) := by
  have hfloat : Quantity.float evaluation.complexity ≠ .float .nan :=
    fun hnan => hcomplexity (Quantity.float.inj hnan)
  obtain ⟨hrejections, hrejected⟩ := hcounted.rejected_eq
  refine ⟨?_, ?_, ?_, ?_, ?_, ?_, hcounted.complexity.allSteady h.complexitySteady hfloat,
    hcounted.depth.allSteady h.depthSteady hdepth⟩
  · intro other
    rw [hcounted.complexity.observations_eq h.complexitySteady hfloat, hcounted.decided_eq,
      h.complexity]
    omega
  · intro other
    rw [hcounted.depth.observations_eq h.depthSteady hdepth, hcounted.decided_eq, h.depth]
  · rw [hrejections, hrejected, h.rejections]
  · rw [hrejections, h.raised]
  · rw [sum_raised hcounted.directives, sum_raised hcounted.decided_eq, h.directives]
  · intro hflag
    have hbefore := h.noStore hflag
    rw [hrejections, hcounted.directives]
    by_cases hallowed : evaluation.decision = .allowed
    · rw [if_pos hallowed]
      omega
    · have hrule : selector.rule operation evaluation.decision = .noStore :=
        if_pos (.inr ⟨hallowed, hflag⟩)
      rw [if_neg hallowed, hrule, if_pos rfl]
      omega

theorem Reconciled.interrupted (h : before.Reconciled selector broken raised)
    {complexity : Binary64} (hinterrupted : before.Interrupted after type complexity)
    (hcomplexity : complexity ≠ .nan) :
    after.Reconciled selector (fun other => broken other + if other = type then 1 else 0)
      raised := by
  have hfloat : Quantity.float complexity ≠ .float .nan :=
    fun hnan => hcomplexity (Quantity.float.inj hnan)
  have hdecided : after.decided = before.decided := by
    funext other
    rw [decided, hinterrupted.decisions, decided]
  have hdepth : ∀ other, observations after.depth other = observations before.depth other := by
    intro other
    by_cases hne : other = type
    · rw [hne, observations, hinterrupted.opened, ← count_getD Histogram.depthBounds]
      rfl
    · rw [observations, hinterrupted.depth other hne, observations]
  refine ⟨?_, ?_, ?_, ?_, ?_, ?_, hinterrupted.complexity.allSteady h.complexitySteady hfloat, ?_⟩
  · intro other
    rw [hinterrupted.complexity.observations_eq h.complexitySteady hfloat, hdecided, h.complexity]
    omega
  · intro other
    rw [hdepth, hdecided, h.depth]
  · rw [hinterrupted.decisions, hinterrupted.rejections, h.rejections]
  · rw [hinterrupted.rejections, h.raised]
  · rw [hinterrupted.directives, hdecided, h.directives]
  · rw [hinterrupted.rejections, hinterrupted.directives]
    exact h.noStore
  · intro other histogram hother
    by_cases hne : other = type
    · rw [hne, hinterrupted.opened] at hother
      obtain rfl := Option.some.inj hother
      exact steady_getD h.depthSteady type
    · rw [hinterrupted.depth other hne] at hother
      exact h.depthSteady other histogram hother

end Metrics

/-! ## Runs of steps -/

/-- A request in front of an admission step. -/
structure Arrival where
  document : Option Document
  name : Option String
  context : Context

def StepEnd.isRejected : StepEnd → Bool
  | .rejected _ => true
  | _ => false

namespace AdmissionControl

variable (control : AdmissionControl)

/-- One step after the other: the metrics at the end, and what each step did. -/
def run (metrics : Metrics) : List Arrival → Metrics × List AdmissionStep
  | [] => (metrics, [])
  | arrival :: rest =>
    let (after, step) := control.step metrics arrival.document arrival.name arrival.context
    let (last, steps) := run after rest
    (last, step :: steps)

/-- Whether an arrival finds an operation of the type at a depth that cannot be counted. -/
def breaksOff (type : OperationType) (arrival : Arrival) : Bool :=
  match control.gate.evaluate arrival.document arrival.name with
  | .error _ => false
  | .ok (evaluation, _) =>
    evaluation.operation.any (·.type = type) && evaluation.depth.toBinary64?.isNone

/-- No arrival is evaluated to NaN as its complexity. -/
def Numeric (arrivals : List Arrival) : Prop :=
  ∀ arrival ∈ arrivals, ∀ evaluation logs,
    control.gate.evaluate arrival.document arrival.name = .ok (evaluation, logs) →
      evaluation.complexity ≠ .nan

theorem numeric_iff (arrivals : List Arrival) :
    (∀ arrival ∈ arrivals, (control.gate.evaluate arrival.document arrival.name).toOption.all
      (·.1.complexity ≠ .nan) = true) ↔ control.Numeric arrivals := by
  refine forall₂_congr fun arrival _ => ?_
  cases control.gate.evaluate arrival.document arrival.name with
  | error failure => simp [Except.toOption]
  | ok found =>
    obtain ⟨evaluation, logs⟩ := found
    simp only [Except.toOption, Option.all_some, decide_eq_true_eq, Except.ok.injEq,
      Prod.mk.injEq, and_imp]
    exact ⟨fun h _ _ hevaluation _ => hevaluation ▸ h, fun h => h evaluation logs rfl rfl⟩

instance (arrivals : List Arrival) : Decidable (control.Numeric arrivals) :=
  decidable_of_iff _ (control.numeric_iff arrivals)

variable {control}

/-- What one step adds to the numbers. -/
theorem step_reconciled {metrics : Metrics} {broken : OperationType → Nat} {raised : Nat}
    (h : metrics.Reconciled control.selector broken raised) {arrival : Arrival}
    (hnumeric : ∀ evaluation logs,
      control.gate.evaluate arrival.document arrival.name = .ok (evaluation, logs) →
        evaluation.complexity ≠ .nan) :
    (control.step metrics arrival.document arrival.name arrival.context).1.Reconciled
      control.selector
      (fun type => broken type + if control.breaksOff type arrival then 1 else 0)
      (raised + if (control.step metrics arrival.document arrival.name
        arrival.context).2.ending.isRejected then 1 else 0) := by
  unfold breaksOff
  cases heval : control.gate.evaluate arrival.document arrival.name with
  | error failure =>
    rw [control.step_of_error metrics arrival.context heval]
    exact h
  | ok found =>
    obtain ⟨evaluation, logs⟩ := found
    have hcomplexity := hnumeric evaluation logs heval
    rcases Gate.evaluate_cases heval with
      ⟨_, rfl, _⟩ | ⟨d, operation, hdocument, _, hjudges⟩
    · rw [control.step_of_none metrics arrival.context heval rfl]
      exact h
    · obtain ⟨_, hcase⟩ := control.step_of_some metrics arrival.context heval hjudges.subject
      simp only [hjudges.subject, Option.any_some, decide_eq_true_eq, Bool.and_eq_true]
      split at hcase
      · rename_i hdepth
        rw [hcase.ending, hdepth]
        have hafter := h.interrupted hcase.counted hcomplexity
        simpa [StepEnd.isRejected, eq_comm] using hafter
      · rename_i hdepth
        have hnan : evaluation.depth ≠ .float .nan := by
          rw [hjudges.depth]
          exact DepthMeter.measure_ne_nan _ _ _ _
        have hafter := h.counted hcase.counted hcomplexity hnan
        rw [hcase.ending]
        cases hdecision : evaluation.decision <;> rw [hdecision] at hafter <;>
          simpa [hdepth, StepEnd.ofDecision, StepEnd.isRejected] using hafter

/-- What a run adds to the numbers, from metrics that fit together. -/
theorem run_reconciled {metrics : Metrics} {broken : OperationType → Nat} {raised : Nat}
    (h : metrics.Reconciled control.selector broken raised) {arrivals : List Arrival}
    (hnumeric : control.Numeric arrivals) :
    (control.run metrics arrivals).1.Reconciled control.selector
      (fun type => broken type + arrivals.countP (control.breaksOff type))
      (raised + (control.run metrics arrivals).2.countP (·.ending.isRejected)) := by
  induction arrivals generalizing metrics broken raised with
  | nil => exact h
  | cons arrival rest ih =>
    have hstep := step_reconciled h (hnumeric arrival List.mem_cons_self)
    have hrest := ih hstep fun later hlater => hnumeric later (List.mem_cons_of_mem _ hlater)
    simp only [run, List.countP_cons]
    simpa only [Nat.add_assoc, Nat.add_comm, Nat.add_left_comm] using hrest

/-- After every run of steps from no metrics at all the numbers fit together, if no
complexity was NaN. For each type as many complexities were observed as operations decided,
and one more for each operation whose counting broke off. -/
theorem metrics_reconcile (control : AdmissionControl) (arrivals : List Arrival)
    (hnumeric : control.Numeric arrivals) :
    (control.run .empty arrivals).1.Reconciled control.selector
      (fun type => arrivals.countP (control.breaksOff type))
      ((control.run .empty arrivals).2.countP (·.ending.isRejected)) := by
  simpa using run_reconciled Metrics.reconciled_empty hnumeric

/-- An allowed query, a rejected one, and a document without operations. -/
def threeArrivals : List Arrival :=
  [⟨some twoFields, none, .dictionary .present⟩, ⟨some threeFields, none, .none⟩,
    ⟨some ⟨[]⟩, none, .none⟩]

theorem metrics_reconcile_threeArrivals :
    ∃ gate, strictSettings.gate = .ok gate ∧
      Numeric ⟨gate, .standard⟩ threeArrivals ∧
      (run ⟨gate, .standard⟩ .empty threeArrivals).1.Reconciled .standard
        (fun type => threeArrivals.countP (breaksOff ⟨gate, .standard⟩ type))
        ((run ⟨gate, .standard⟩ .empty threeArrivals).2.countP (·.ending.isRejected)) := by
  have hnumeric : (strictSettings.gate.toOption.map fun gate =>
      decide (Numeric ⟨gate, .standard⟩ threeArrivals)) = some true := by decide +kernel
  obtain ⟨gate, hgate, hnumeric⟩ := Option.map_eq_some_iff.mp hnumeric
  have hnumeric := of_decide_eq_true hnumeric
  exact ⟨gate, eq_ok_of_toOption hgate, hnumeric, metrics_reconcile _ _ hnumeric⟩

/-- After one step in front of two fields, the metrics of settings without a depth limit
among the doubles show one observed complexity and no decision. -/
theorem metrics_unreconciled_twoFields :
    ∃ gate, boundlessSettings.gate = .ok gate ∧
      Numeric ⟨gate, .standard⟩ [⟨some twoFields, none, .none⟩] ∧
      observations (run ⟨gate, .standard⟩ .empty [⟨some twoFields, none, .none⟩]).1.complexity
        .query = 1 ∧
      (run ⟨gate, .standard⟩ .empty [⟨some twoFields, none, .none⟩]).1.decided .query = 0 := by
  have hnumbers : (boundlessSettings.gate.toOption.map fun gate =>
      let metrics := (run ⟨gate, .standard⟩ .empty [⟨some twoFields, none, .none⟩]).1
      (decide (Numeric ⟨gate, .standard⟩ [⟨some twoFields, none, .none⟩]),
        observations metrics.complexity .query, metrics.decided .query)) =
      some (true, 1, 0) := by decide +kernel
  obtain ⟨gate, hgate, hnumbers⟩ := Option.map_eq_some_iff.mp hnumbers
  simp only [Prod.mk.injEq, decide_eq_true_eq] at hnumbers
  exact ⟨gate, eq_ok_of_toOption hgate, hnumbers⟩

end AdmissionControl

end QueryAdmission
