import QueryAdmission.Proofs.AcceptedSettings
import QueryAdmission.Proofs.EvaluationLog

/-! # The standard gate and the gate of the standard settings

The standards are written down twice: as whole numbers with the gate, and in the settings,
which turn prices and the complexity limit into doubles. The two gates agree on every
request. Prices enter a score only as doubles, and limits count by their values; what is
left is the logger and the way in which equal numbers are written. -/

namespace QueryAdmission

/-! ## Values -/

namespace Quantity

theorem lt_left_of_same {a b c : Quantity} (h : a.same b = true) : a.lt c = b.lt c := by
  obtain ⟨hab, hba⟩ := Bool.and_eq_true_iff.mp h
  exact Bool.eq_iff_iff.mpr ⟨lt_of_le_of_lt hba, lt_of_le_of_lt hab⟩

/-- What is greater than something is not NaN, and so equals itself. -/
theorem same_self_of_lt {a b : Quantity} (h : a.lt b = true) : b.same b = true := by
  unfold lt at h
  unfold same le
  cases hb : b.point? with
  | none => cases ha : a.point? <;> simp only [ha, hb, Bool.false_eq_true] at h
  | some p => cases p <;> simp [Point.lt]

theorem same_int (n : Int) : (int n).same (int n) = true := by
  simp [same, int_le_int]

end Quantity

/-- Equality of decisions: both allow, or their rejections are equal. -/
def Decision.same : Decision → Decision → Bool
  | .allowed, .allowed => true
  | .rejected a, .rejected b => a.same b
  | _, _ => false

/-- Rejections of one kind with the same two details, equal in value. -/
theorem Rejection.same_of_details {kind : RejectionKind} {key key' : String}
    (hkey : key ≠ key') {a a' b b' : Quantity} (h : a.same a' = true) (h' : b.same b' = true) :
    Rejection.same ⟨kind, [(key, .quantity a), (key', .quantity b)]⟩
      ⟨kind, [(key, .quantity a'), (key', .quantity b')]⟩ = true := by
  have hother : (key' == key) = false := beq_false_of_ne hkey.symm
  simp [Rejection.same, List.lookup_cons, Detail.same, h, h', hother]

/-! ## Prices -/

/-- The same costs, once they are doubles. -/
def CostTable.Restates (a b : CostTable) : Prop :=
  ∀ name, (a.costOf name).toBinary64? = (b.costOf name).toBinary64?

namespace Scorer

/-- The same scorer, but for the form in which it has its costs. -/
structure Restates (a b : Scorer) : Prop where
  costs : a.table.Restates b.table
  cutoff : a.cutoff = b.cutoff
  pageArgument : a.pageArgument = b.pageArgument
  pageCap : a.pageCap = b.pageCap
  pageWeight : a.pageWeight = b.pageWeight

theorem addTo_congr {total : Binary64} {p q : Quantity} (h : p.toBinary64? = q.toBinary64?) :
    addTo total p = addTo total q := by
  simp only [addTo, Binary64.plus?, h]

namespace Restates

variable {a b : Scorer} (h : a.Restates b)

include h

theorem pagePrice_eq : a.pagePrice = b.pagePrice := by
  funext limit
  simp only [pagePrice, h.pageCap, h.pageWeight]

theorem addSurcharge_eq : a.addSurcharge = b.addSurcharge := by
  funext total argument
  simp only [addSurcharge, h.pageArgument, h.pagePrice_eq]

theorem addField_eq : a.addField = b.addField := by
  funext total name arguments
  simp only [addField, surcharge, h.addSurcharge_eq, addTo_congr (h.costs name)]

theorem addSelection_eq : a.addSelection unnoted = b.addSelection unnoted := by
  funext fragments room inner state selection
  cases selection <;> simp only [addSelection, h.addField_eq]

theorem scoreWithin_eq (fragments : Option (List Fragment)) (room : Nat) :
    a.scoreWithin fragments room = b.scoreWithin fragments room := by
  induction room with
  | zero => rfl
  | succ room ih =>
    funext selections memo
    cases selections with
    | none => rfl
    | some selections =>
      simp only [scoreWithin, visitWithin] at ih ⊢
      simp only [ih, h.addSelection_eq]

theorem score_eq : a.score = b.score := by
  funext fragments selections level
  simp only [score, room, h.cutoff, h.scoreWithin_eq]

end Restates

end Scorer

/-! ## Gates -/

namespace Gate

/-- How the outcomes of two gates for one request may differ: in the form of the decision's
numbers, and in how each gate announces its decision under its own logger's name. -/
inductive Agree (a b : Gate) : Except Failure (Evaluation × List LogRecord) →
    Except Failure (Evaluation × List LogRecord) → Prop
  | failed (failure : Failure) : Agree a b (.error failure) (.error failure)
  | unasked (evaluation : Evaluation) : Agree a b (.ok (evaluation, [])) (.ok (evaluation, []))
  | evaluated {operation : Operation} {complexity : Binary64} {depth : Quantity}
      {decision decision' : Decision} {warning announced announced' : List LogRecord}
      (same : decision.same decision' = true)
      (announces : a.Announces operation decision announced)
      (announces' : b.Announces operation decision' announced') :
      Agree a b (.ok (⟨some operation, complexity, depth, decision⟩, warning ++ announced))
        (.ok (⟨some operation, complexity, depth, decision'⟩, warning ++ announced'))

/-- The same gate, but for the logger and for the form in which it has costs and the complexity
limit. Neither logs every evaluation. -/
structure Restates (a b : Gate) : Prop where
  maxComplexity : a.policy.maxComplexity.same b.policy.maxComplexity = true
  maxDepth : a.policy.maxDepth = b.policy.maxDepth
  scorer : a.scorer.Restates b.scorer
  meter : a.meter = b.meter
  resolveFragments : a.resolveFragments = b.resolveFragments
  quiet : a.logEvaluations = false
  quiet' : b.logEvaluations = false

variable {a b : Gate} {limit : Nat}

theorem measurementRecords_of_quiet (h : a.logEvaluations = false) (operation : Operation)
    (complexity : Binary64) (depth : Int) :
    a.measurementRecords operation complexity depth = [] := by
  simp [measurementRecords, h]

namespace Restates

variable (h : a.Restates b)

include h

theorem bound_eq : a.bound = b.bound := by
  funext document
  simp only [bound, h.resolveFragments]

theorem outlineOf_eq : a.outlineOf = b.outlineOf := by
  funext document operation
  simp only [outlineOf, h.bound_eq]

theorem reportedDepth_eq : a.reportedDepth = b.reportedDepth := by
  funext limit outline
  simp only [reportedDepth, h.meter]

theorem exhaustionRecords_eq : a.exhaustionRecords = b.exhaustionRecords := by
  funext limit outline
  simp only [exhaustionRecords, h.meter]

theorem limited (hlimited : a.Limited limit) : b.Limited limit :=
  ⟨h.maxDepth ▸ hlimited.maxDepth, h.meter ▸ hlimited.cap⟩

theorem verdict_same (complexity : Binary64) (outline : Outline) :
    (a.verdict limit complexity outline).same (b.verdict limit complexity outline) = true := by
  unfold verdict
  rw [Quantity.lt_left_of_same h.maxComplexity, h.meter]
  split
  · rename_i hcomplex
    exact Rejection.same_of_details (by decide) (Quantity.same_self_of_lt hcomplex)
      h.maxComplexity
  · split
    · exact Rejection.same_of_details (by decide) (Quantity.same_int _) (Quantity.same_int _)
    · rfl

/-- Gates that restate each other agree on every request, if their limits can be written. -/
theorem evaluate_agree (hlimited : a.Limited limit)
    (hwritable : a.policy.maxComplexity.Writable) (hwritable' : b.policy.maxComplexity.Writable)
    (hlimit : limit + 1 < tenTo WholeNumber.digitLimit) (document : Option Document)
    (name : Option String) :
    Agree a b (a.evaluate document name) (b.evaluate document name) := by
  cases htarget : document.bind (·.target? name) with
  | none =>
    rw [evaluate_of_none htarget, evaluate_of_none htarget]
    exact .unasked _
  | some operation =>
    obtain ⟨d, rfl, hfound⟩ := Option.bind_eq_some_iff.mp htarget
    have hscores : a.scorer.score (a.bound d) operation.selections 0 =
        b.scorer.score (b.bound d) operation.selections 0 := by
      rw [h.scorer.score_eq, h.bound_eq]
    cases hscore : b.scorer.score (b.bound d) operation.selections 0 with
    | error failure =>
      rw [evaluate_of_failure hfound (hscores.trans hscore), evaluate_of_failure hfound hscore]
      exact .failed failure
    | ok complexity =>
      obtain ⟨announced, hannounces, hrecorded⟩ :=
        (recorded_of_score hlimited hfound (hscores.trans hscore)).1
          ((announceable_verdict_iff hlimited).mpr ⟨fun _ => hwritable, fun _ _ => hlimit⟩)
      obtain ⟨announced', hannounces', hrecorded'⟩ :=
        (recorded_of_score (h.limited hlimited) hfound hscore).1
          ((announceable_verdict_iff (h.limited hlimited)).mpr
            ⟨fun _ => hwritable', fun _ _ => hlimit⟩)
      rw [evaluate_eq_recorded, evaluate_eq_recorded, hrecorded, hrecorded',
        measurementRecords_of_quiet h.quiet, measurementRecords_of_quiet h.quiet',
        List.append_nil, List.append_nil, h.reportedDepth_eq, h.exhaustionRecords_eq]
      rw [h.outlineOf_eq] at hannounces ⊢
      exact .evaluated (h.verdict_same complexity _) hannounces hannounces'

end Restates

end Gate

/-! ## The standards -/

/-- The double of a quantity's value, where it has one. -/
def Quantity.double (q : Quantity) : Binary64 := q.toBinary64?.getD .zero

/-- The standard costs, as doubles. -/
def CostTable.standardDoubles : List (String × Binary64) :=
  standardCosts.map fun (name, cost) => (name, cost.double)

theorem CostTable.standard_toBinary64? (name : String) :
    (standard.costOf name).toBinary64? = some (standard.costOf name).double := by
  have hrange : ∀ {q : Quantity}, q.toBinary64?.isSome = true → q.toBinary64? = some q.double :=
    fun h => by rw [Quantity.double, ← Option.get_eq_getD _ (h := h), Option.some_get]
  rcases standard.costOf_cases name with ⟨entry, hentry, hcost⟩ | hcost
  · have hcosts : ∀ entry ∈ standard.costs, entry.2.toBinary64?.isSome = true := by decide +kernel
    rw [hcost]
    exact hrange (hcosts entry hentry)
  · rw [hcost]
    exact hrange (by decide +kernel)

namespace Settings

/-- What the settings are without any source, as far as a gate is described by them. -/
structure Standard (settings : Settings) : Prop where
  maxComplexity : settings.maxComplexity.val = .ofInt 500
  maxDepth : settings.maxDepth = 10
  complexityCutoff : settings.complexityCutoff = Scorer.standardCutoff
  defaultFieldCost : settings.defaultFieldCost.val = CostTable.standardFallback.double
  fieldCosts : settings.fieldCosts = CostTable.standardDoubles
  resolveFragments : settings.resolveFragments = true
  depthNodeBudget : settings.depthNodeBudget = DepthMeter.standardBudget
  logEvaluations : settings.logEvaluations = false

theorem exists_standard : ∃ settings, load ⟨[], [], none⟩ = .ok settings ∧ settings.Standard := by
  have hfields : ((load ⟨[], [], none⟩).toOption.any fun settings =>
      decide (settings.maxComplexity.val = .ofInt 500 ∧ settings.maxDepth = 10 ∧
        settings.complexityCutoff = Scorer.standardCutoff ∧
        settings.defaultFieldCost.val = CostTable.standardFallback.double ∧
        settings.fieldCosts = CostTable.standardDoubles ∧ settings.resolveFragments = true ∧
        settings.depthNodeBudget = DepthMeter.standardBudget ∧
        settings.logEvaluations = false)) = true := by
    decide +kernel
  obtain ⟨settings, hload, hfields⟩ := (Option.any_eq_true _ _).mp hfields
  obtain ⟨hcomplexity, hdepth, hcutoff, hfallback, hcosts, hresolve, hbudget, hlog⟩ :=
    of_decide_eq_true hfields
  exact ⟨settings, eq_ok_of_toOption hload, hcomplexity, hdepth, hcutoff, hfallback, hcosts,
    hresolve, hbudget, hlog⟩

namespace Standard

variable {settings : Settings} (h : settings.Standard)

include h

theorem exists_describes : ∃ gate, settings.gate = .ok gate ∧ settings.Describes gate := by
  have hcosts : ∀ entry ∈ CostTable.standardDoubles,
      (Quantity.float entry.2).isNegative = false := by decide +kernel
  exact Settings.exists_describes (h.fieldCosts ▸ hcosts)

theorem costs_restate {table : CostTable} (htable : ∀ name, table.costOf name =
    .float ((settings.fieldCosts.lookup name).getD settings.defaultFieldCost)) :
    CostTable.standard.Restates table := by
  intro name
  rw [CostTable.standard_toBinary64?, htable, h.fieldCosts, h.defaultFieldCost,
    CostTable.standardDoubles, lookup_map, Option.getD_map]
  rfl

/-- The gate of the standard settings restates the standard gate. -/
theorem restates {gate : Gate} (hgate : settings.gate = .ok gate)
    (hdescribes : settings.Describes gate) : Gate.standard.Restates gate := by
  obtain ⟨scorer, hscorer, rfl⟩ := exists_gateWith hgate
  obtain ⟨table, _, rfl⟩ := scorer_eq_ok hscorer
  exact {
    maxComplexity := by
      have hsame : (Quantity.int 500).same (.float (.ofInt 500)) = true := by decide +kernel
      rw [gateWith, h.maxComplexity]
      exact hsame
    maxDepth := by
      rw [gateWith, h.maxDepth]
      rfl
    scorer := {
      costs := h.costs_restate hdescribes.costOf
      cutoff := h.complexityCutoff.symm
      pageArgument := rfl
      pageCap := rfl
      pageWeight := rfl }
    meter := by
      simp only [gateWith, h.maxDepth, h.depthNodeBudget]
      rfl
    resolveFragments := h.resolveFragments.symm
    quiet := rfl
    quiet' := h.logEvaluations }

end Standard

end Settings

/-- The gate with nothing configured and the gate of the settings without any source agree on
every request: the scores or their failures, the depths, and decisions equal in value. The
second has its limit of 500 as a double, and a logger of its own. -/
theorem Gate.standard_agree_settings :
    make .standard .standard none true false standardLogger = .ok standard ∧
      ∃ settings gate, Settings.load ⟨[], [], none⟩ = .ok settings ∧ settings.gate = .ok gate ∧
        gate.policy = ⟨.float (.ofInt 500), .int 10⟩ ∧ gate.logger = Settings.gateLogger ∧
        ∀ document name,
          Agree standard gate (standard.evaluate document name) (gate.evaluate document name) := by
  have hstandard : make .standard .standard none true false standardLogger = .ok standard := rfl
  have hbuilt : standard.Built 10 :=
    .ofPolicy (show Policy.make (.int 500) (.int 10) = .ok .standard from rfl) hstandard
  obtain ⟨settings, hload, hsettings⟩ := Settings.exists_standard
  obtain ⟨gate, hgate, hdescribes⟩ := hsettings.exists_describes
  have hpolicy : gate.policy = ⟨.float (.ofInt 500), .int 10⟩ := by
    rw [hdescribes.policy, hsettings.maxComplexity, hsettings.maxDepth]
    rfl
  have hlogger : gate.logger = Settings.gateLogger := by
    obtain ⟨scorer, _, rfl⟩ := Settings.exists_gateWith hgate
    rfl
  have hrestates := hsettings.restates hgate hdescribes
  have hwritable : standard.policy.maxComplexity.Writable :=
    show (500 : Int).natAbs < tenTo WholeNumber.digitLimit by decide +kernel
  have hwritable' : gate.policy.maxComplexity.Writable := by
    rw [hpolicy]
    exact Quantity.writable_float _
  exact ⟨hstandard, settings, gate, hload, hgate, hpolicy, hlogger,
    hrestates.evaluate_agree hbuilt.limited hwritable hwritable' (by decide +kernel)⟩

end QueryAdmission
