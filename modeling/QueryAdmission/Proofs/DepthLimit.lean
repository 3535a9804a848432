import QueryAdmission.Proofs.DepthReport
import QueryAdmission.Proofs.StepEffects

/-! # Which gates enforce their depth limit

A gate can be made with any meter, and holds against its limit what the meter reports. It
keeps every document to the limit exactly if the meter looks past the limit: if its cap,
or its budget where it has no cap, is greater. Behind as many selections as the budget
allows, any other meter lets every depth pass. -/

namespace QueryAdmission

/-! ## What the budget hides -/

namespace DepthMeter

variable {meter : DepthMeter} {fragments : Option (List Fragment)}

/-- Selections that open no set use up the budget, and the walk is abandoned in front of what
comes behind them. -/
theorem run_behind_leaves {path : List String} {leaves : List Selection}
    (hleaves : ∀ leaf ∈ leaves, opened fragments path leaf = none) (selection : Selection)
    (rest : List Selection) (level : Int) (stack : List Frame) {visited : Nat} (deepest : Int)
    (hbudget : visited + leaves.length = meter.budget) :
    meter.run fragments ⟨⟨leaves ++ selection :: rest, level, path⟩, stack, visited, deepest⟩ =
      ⟨(Quantity.int deepest).max (meter.cap.getD (.int meter.budget)), true⟩ := by
  induction leaves generalizing visited with
  | nil =>
    have hused : meter.budget ≤ visited := by simp at hbudget; omega
    exact run_of_exhausted (by simp [step, hused])
  | cons leaf leaves ih =>
    have hleft : ¬meter.budget ≤ visited := by simp at hbudget; omega
    have hopened := hleaves leaf (by simp)
    have hstep : meter.step fragments
        ⟨⟨leaf :: (leaves ++ selection :: rest), level, path⟩, stack, visited, deepest⟩ =
      .next ⟨⟨leaves ++ selection :: rest, level, path⟩, stack, visited + 1, deepest⟩ := by
      simp [step, hleft, visit, entered, hopened]
    rw [List.cons_append, run_of_next hstep]
    exact ih (fun leaf h => hleaves leaf (List.mem_cons_of_mem _ h))
      (by simp at hbudget; omega)

/-- Whatever stands behind as many leaves as the budget allows, the report says nothing of it. -/
theorem measure_behind_leaves {leaves : List Selection}
    (hleaves : ∀ leaf ∈ leaves, opened fragments [] leaf = none)
    (hbudget : leaves.length = meter.budget) (selection : Selection) (rest : List Selection)
    (level : Int) :
    meter.measure fragments (some (leaves ++ selection :: rest)) level =
      ⟨(Quantity.int level).max (meter.cap.getD (.int meter.budget)), true⟩ :=
  run_behind_leaves hleaves selection rest level [] level (by rw [Nat.zero_add, hbudget])

end DepthMeter

/-- A spread of a fragment that the documents here do not define: it opens no set and costs
nothing. -/
def danglingSpread : Selection := .spread "unknown" [] none

/-- Inline fragments, each in the set of the one before, and a dangling spread in the last. -/
def nestedInline : Nat → List Selection
  | 0 => [danglingSpread]
  | depth + 1 => [.inline none [] (some (nestedInline depth))]

/-- A query that nests to `depth` behind as many dangling spreads as `budget` says. -/
def hiddenQuery (budget depth : Nat) : Operation :=
  ⟨.query, none, [], [], some (List.replicate budget danglingSpread ++ nestedInline depth)⟩

/-- The document with the query, and without fragments. -/
def hiddenDocument (budget depth : Nat) : Document :=
  ⟨[.operation (hiddenQuery budget depth)]⟩

section Hidden

variable {fragments : Option (List Fragment)} {path : List String}

theorem exists_nestedInline (depth : Nat) : ∃ selection, nestedInline depth = [selection] := by
  cases depth with
  | zero => exact ⟨_, rfl⟩
  | succ depth => exact ⟨_, rfl⟩

theorem opened_danglingSpread (h : ∀ name, fragments.bind (Fragment.find? · name) = none) :
    DepthMeter.opened fragments path danglingSpread = none := by
  rw [danglingSpread, DepthMeter.opened_spread, h]
  simp

theorem height_nestedInline (h : ∀ name, fragments.bind (Fragment.find? · name) = none)
    (depth : Nat) : (DepthMeter.outline fragments path (nestedInline depth)).height = depth := by
  induction depth with
  | zero => simp [nestedInline, DepthMeter.outline_cons, opened_danglingSpread h, Outline.height]
  | succ depth ih =>
    simp only [nestedInline, DepthMeter.outline_cons, DepthMeter.opened, Selection.body,
      Option.map_some, DepthMeter.outline_nil, Outline.height, ih]
    omega

theorem height_behind_leaves (h : ∀ name, fragments.bind (Fragment.find? · name) = none)
    (budget : Nat) (selections : List Selection) :
    (DepthMeter.outline fragments path
        (List.replicate budget danglingSpread ++ selections)).height =
      (DepthMeter.outline fragments path selections).height := by
  induction budget with
  | zero => rfl
  | succ budget ih =>
    rw [List.replicate_succ, List.cons_append, DepthMeter.outline_cons, opened_danglingSpread h]
    exact ih

namespace Scorer

variable {s : Scorer}

theorem zero_add_zero : Binary64.zero + Binary64.zero = Binary64.zero := by
  decide

theorem addPlain_danglingSpread (h : ∀ name, fragments.bind (Fragment.find? · name) = none)
    (inner : SelectionSet → Except Failure Binary64) :
    s.addPlain fragments inner .zero danglingSpread = .ok .zero := by
  simp only [danglingSpread, addPlain, resolve?, h, Option.map_none, zero_add_zero]

theorem plainScore_nestedInline (h : ∀ name, fragments.bind (Fragment.find? · name) = none)
    (level : Int) :
    ∀ depth, s.plainScore fragments (some (nestedInline depth)) level = .ok .zero := by
  induction level using s.level_induction with
  | below level hlevel =>
    intro depth
    exact plainScore_above hlevel _
  | within level hlevel ih =>
    intro depth
    rw [plainScore_some hlevel]
    cases depth with
    | zero =>
      simp only [nestedInline, List.foldlM_cons, addPlain_danglingSpread h, List.foldlM_nil]
      rfl
    | succ depth =>
      simp only [nestedInline, List.foldlM_cons, addPlain, ih, List.foldlM_nil]
      exact congrArg Except.ok zero_add_zero

theorem score_hiddenQuery (h : ∀ name, fragments.bind (Fragment.find? · name) = none)
    (budget depth : Nat) :
    s.score fragments (hiddenQuery budget depth).selections 0 = .ok .zero := by
  have hlevel : (0 : Int) ≤ s.cutoff := Int.natCast_nonneg _
  have hnested := plainScore_nestedInline (s := s) h 0 depth
  rw [plainScore_some hlevel] at hnested
  unfold score
  rw [(s.scoreWithin_agree fragments 0 _ [] memoSound_nil).1, hiddenQuery, plainScore_some hlevel]
  induction budget with
  | zero => exact hnested
  | succ budget ih =>
    rw [List.replicate_succ, List.cons_append, List.foldlM_cons, addPlain_danglingSpread h]
    exact ih

end Scorer

end Hidden

/-! ## Gates -/

/-- A policy allows what exceeds neither of its limits. -/
theorem Policy.decide_eq_allowed {policy : Policy} {complexity depth : Quantity} :
    policy.decide complexity depth = .allowed ↔
      policy.maxComplexity.lt complexity = false ∧ policy.maxDepth.lt depth = false := by
  unfold Policy.decide
  split
  · rename_i hcomplexity
    simp [hcomplexity]
  · rename_i hcomplexity
    split <;> rename_i hdepth <;> simp [hcomplexity, hdepth]

namespace Gate

variable {gate : Gate}

/-- No operation that the gate allows nests deeper than `limit`, with its spreads put in as far
as the gate resolves them. -/
def KeepsTo (gate : Gate) (limit : Int) : Prop :=
  ∀ document name evaluation logs operation,
    gate.evaluate (some document) name = .ok (evaluation, logs) →
    evaluation.operation = some operation → evaluation.decision = .allowed →
    (gate.outlineOf document operation).height ≤ limit

theorem find?_bound_hiddenDocument (gate : Gate) (budget depth : Nat) (name : String) :
    (gate.bound (hiddenDocument budget depth)).bind (Fragment.find? · name) = none := by
  unfold bound
  cases gate.resolveFragments <;> rfl

/-- An evaluation goes through where the score is known, the depth is whole, and the decision can
be announced. -/
theorem evaluate_of_reading {document : Document} {name : Option String} {operation : Operation}
    (htarget : document.target? name = some operation) {complexity : Binary64}
    (hscore : gate.scorer.score (gate.bound document) operation.selections 0 = .ok complexity)
    {depth : Int} {exhausted : Bool}
    (hmeasure : gate.meter.measure (gate.bound document) operation.selections 0 =
      ⟨.int depth, exhausted⟩)
    (hannounce :
      (gate.decide (some operation) (.float complexity) (.int depth)).Announceable) :
    ∃ logs, gate.evaluate (some document) name =
      .ok (⟨some operation, complexity, .int depth,
        gate.decide (some operation) (.float complexity) (.int depth)⟩, logs) := by
  obtain ⟨log, hlog⟩ := gate.evaluationLog_int operation complexity depth hannounce
  simp only [evaluate, htarget, hscore, hmeasure, bind, Except.bind, depthLog_int, hlog, pure,
    Except.pure]
  exact ⟨_, rfl⟩

section Made

variable {maxComplexity : Quantity} {limit : Int} {policy : Policy} {scorer : Scorer}
  {meter : Option DepthMeter} {resolveFragments logEvaluations : Bool} {logger : String}
  {cap : Option Int}

/-- A policy has a depth limit of at least zero, and no operation costs too much at zero. -/
theorem bounds_of_make (h : Policy.make maxComplexity (.int limit) = .ok policy) :
    0 ≤ limit ∧ maxComplexity.lt (.float .zero) = false := by
  unfold Policy.make at h
  split at h
  · cases h
  · rename_i hcomplexity
    split at h
    · cases h
    · rename_i hdepth
      refine ⟨?_, ?_⟩
      · simpa [Quantity.isNegative, Quantity.int_lt_int] using hdepth
      · have hzero : (Quantity.float .zero).point? = (Quantity.int 0).point? := by decide
        have hlt : maxComplexity.lt (.float .zero) = maxComplexity.isNegative := by
          simp only [Quantity.isNegative, Quantity.lt, hzero]
        rw [hlt]
        simpa using hcomplexity

/-- Under a meter that looks past the limit, what is allowed nests no deeper than the limit. -/
theorem keepsTo_of_lt (hlimit : gate.policy.maxDepth = .int limit)
    (hcap : gate.meter.cap = cap.map .int) (hpast : limit < cap.getD gate.meter.budget) :
    gate.KeepsTo limit := by
  intro document name evaluation logs operation heval hoperation hallowed
  rcases evaluate_cases heval with ⟨_, rfl, _⟩ | ⟨d, o, hd, _, hjudges⟩
  · cases hoperation
  obtain rfl := Option.some.inj hd
  obtain rfl := Option.some.inj (hjudges.subject.symm.trans hoperation)
  have hdepth : gate.policy.maxDepth.lt evaluation.depth = false :=
    (Policy.decide_eq_allowed.mp (hjudges.decision.symm.trans hallowed)).2
  rw [hlimit, hjudges.depth] at hdepth
  show ((DepthMeter.outlineOf (gate.bound document) o.selections).height : Int) ≤ limit
  by_cases hsize : (DepthMeter.outlineOf (gate.bound document) o.selections).sizeBelow cap 0 ≤
      gate.meter.budget
  · rw [DepthMeter.measure_within hcap hsize, Quantity.int_lt_int] at hdepth
    cases cap with
    | none =>
      simp [Outline.depthBelow] at hdepth
      omega
    | some cap =>
      simp [Outline.depthBelow] at hdepth hpast
      omega
  · -- an abandoned walk reports the cap or the budget at least, and is not allowed
    obtain ⟨depth, hmeasure, hcapped, huncapped⟩ :=
      DepthMeter.measure_beyond hcap (Nat.lt_of_not_le hsize)
    rw [hmeasure, Quantity.int_lt_int] at hdepth
    simp at hdepth
    cases cap with
    | none =>
      have := (huncapped rfl).1
      simp at hpast
      omega
    | some cap =>
      have := (hcapped cap rfl).1
      simp at hpast
      omega

/-- A meter that does not look past the limit reports no more than the limit of a query that
nests deeper behind as many leaves as the budget allows. -/
theorem not_keepsTo_of_le (hpolicy : Policy.make maxComplexity (.int limit) = .ok gate.policy)
    (hcap : gate.meter.cap = cap.map .int) (hshort : cap.getD gate.meter.budget ≤ limit) :
    ¬gate.KeepsTo limit := by
  intro hkeeps
  obtain ⟨hlimit, hcomplexity⟩ := bounds_of_make hpolicy
  have hmade := Policy.make_eq_ok hpolicy
  have hnames := gate.find?_bound_hiddenDocument gate.meter.budget (limit.toNat + 1)
  generalize hdocument : hiddenDocument gate.meter.budget (limit.toNat + 1) = document at hnames
  generalize hoperation : hiddenQuery gate.meter.budget (limit.toNat + 1) = operation
  have htarget : document.target? none = some operation := by
    rw [← hdocument, ← hoperation]
    rfl
  have hmeasure : gate.meter.measure (gate.bound document) operation.selections 0 =
      ⟨.int (max 0 (cap.getD gate.meter.budget)), true⟩ := by
    obtain ⟨selection, hselection⟩ := exists_nestedInline (limit.toNat + 1)
    rw [← hoperation, hiddenQuery, hselection, DepthMeter.measure_behind_leaves _ (by simp), hcap]
    · cases cap <;> simp [Quantity.max_int]
    · intro leaf hleaf
      rw [List.eq_of_mem_replicate hleaf, opened_danglingSpread hnames]
  have hscore : gate.scorer.score (gate.bound document) operation.selections 0 = .ok .zero := by
    rw [← hoperation]
    exact Scorer.score_hiddenQuery hnames _ _
  have hallowed : gate.decide (some operation) (.float .zero)
      (.int (max 0 (cap.getD gate.meter.budget))) = .allowed := by
    refine Policy.decide_eq_allowed.mpr ?_
    rw [hmade, Quantity.int_lt_int]
    refine ⟨hcomplexity, ?_⟩
    simp
    omega
  obtain ⟨logs, heval⟩ := evaluate_of_reading htarget hscore hmeasure (hallowed ▸ trivial)
  have hheight := hkeeps document none _ logs operation heval rfl hallowed
  rw [outlineOf, DepthMeter.outlineOf, ← hoperation, hiddenQuery, Option.getD_some,
    height_behind_leaves hnames, height_nestedInline hnames] at hheight
  omega

/-- A gate keeps every document to its depth limit exactly if its meter looks past the limit: if
the cap of the meter, or its budget where it has no cap, is greater than the limit. -/
theorem keepsTo_iff (hpolicy : Policy.make maxComplexity (.int limit) = .ok policy)
    (hgate : Gate.make policy scorer meter resolveFragments logEvaluations logger = .ok gate)
    (hcap : gate.meter.cap = cap.map .int) :
    gate.KeepsTo limit ↔ limit < cap.getD gate.meter.budget := by
  have hgatePolicy : gate.policy = policy := by rw [make_eq_ok hgate]
  constructor
  · intro hkeeps
    by_contra hshort
    rw [← hgatePolicy] at hpolicy
    exact not_keepsTo_of_le hpolicy hcap (by omega) hkeeps
  · intro hpast
    have hlimit : gate.policy.maxDepth = .int limit := by
      rw [hgatePolicy, Policy.make_eq_ok hpolicy]
    exact keepsTo_of_lt hlimit hcap hpast

end Made

/-- Fields, each in the set of the one before. -/
def nestedFields : Nat → List Selection
  | 0 => [leafOf "a"]
  | depth + 1 => [.field none "a" [] [] (some (nestedFields depth))]

theorem height_nestedFields (fragments : Option (List Fragment)) (path : List String)
    (depth : Nat) : (DepthMeter.outline fragments path (nestedFields depth)).height = depth := by
  induction depth with
  | zero => simp [nestedFields, leafOf, DepthMeter.outline_cons, DepthMeter.opened,
      Selection.body, Outline.height]
  | succ depth ih =>
    simp only [nestedFields, DepthMeter.outline_cons, DepthMeter.opened, Selection.body,
      Option.map_some, DepthMeter.outline_nil, Outline.height, ih]
    omega

/-- A query that nests one level deeper than the usual limit allows. -/
def elevenLevels : Operation := ⟨.query, none, [], [], some (nestedFields 11)⟩

/-- A meter without a cap that visits five selections. -/
def fiveVisits : DepthMeter := ⟨none, 5, by decide⟩

/-- The usual gate, but for its meter. -/
def measuredBy (meter : DepthMeter) : Gate := { standard with meter }

/-- The usual gate looks past its limit. -/
theorem keepsTo_standard :
    Policy.make (.int 500) (.int 10) = .ok .standard ∧
      Gate.make .standard .standard none true false standardLogger = .ok standard ∧
      standard.meter.cap = (some 11 : Option Int).map .int ∧ standard.KeepsTo 10 := by
  have hpolicy : Policy.make (.int 500) (.int 10) = .ok .standard := rfl
  have hgate : Gate.make .standard .standard none true false standardLogger = .ok standard := rfl
  have hcap : standard.meter.cap = (some 11 : Option Int).map .int := rfl
  exact ⟨hpolicy, hgate, hcap, (keepsTo_iff hpolicy hgate hcap).mpr (by decide)⟩

/-- The usual constructor takes the meter, and the gate then allows the eleven levels, which are
beyond the limit of its policy. -/
def AllowsElevenLevels (meter : DepthMeter) : Prop :=
  Gate.make .standard .standard (some meter) true false standardLogger =
      .ok (measuredBy meter) ∧
    (measuredBy meter).policy.maxDepth = .int 10 ∧
    ∃ evaluation logs, (measuredBy meter).evaluate (some ⟨[.operation elevenLevels]⟩) none =
        .ok (evaluation, logs) ∧
      evaluation.operation = some elevenLevels ∧ evaluation.decision = .allowed ∧
      10 < ((measuredBy meter).outlineOf ⟨[.operation elevenLevels]⟩ elevenLevels).height

theorem allowsElevenLevels_of_isAllowed {meter : DepthMeter}
    (h : ((measuredBy meter).evaluate (some ⟨[.operation elevenLevels]⟩) none).toOption.map
      (·.1.decision.isAllowed) = some true) : AllowsElevenLevels meter := by
  obtain ⟨⟨evaluation, logs⟩, heval, hallowed⟩ := Option.map_eq_some_iff.mp h
  have heval := eq_ok_of_toOption heval
  refine ⟨rfl, rfl, evaluation, logs, heval, ?_, Decision.isAllowed_iff.mp hallowed, ?_⟩
  · rcases evaluate_cases heval with ⟨htarget, _, _⟩ | ⟨d, operation, hd, htarget, hjudges⟩
    · cases htarget
    · obtain rfl := Option.some.inj hd
      rw [hjudges.subject, ← htarget]
      rfl
  · have hheight : ((measuredBy meter).outlineOf ⟨[.operation elevenLevels]⟩ elevenLevels).height =
        11 := height_nestedFields _ _ 11
    omega

/-- Of eleven levels, a meter that visits five selections reports five, and so does one with a
cap of five: the gates made with them allow what is beyond the limit of their policy. -/
theorem allowed_beyond_limit_elevenLevels :
    AllowsElevenLevels fiveVisits ∧ AllowsElevenLevels (.capped (.int 5)) :=
  ⟨allowsElevenLevels_of_isAllowed (by decide +kernel),
    allowsElevenLevels_of_isAllowed (by decide +kernel)⟩

end Gate

end QueryAdmission
