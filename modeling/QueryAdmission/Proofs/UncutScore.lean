import QueryAdmission.Proofs.CountedFields
import QueryAdmission.Proofs.DepthReport
import QueryAdmission.Proofs.IdleDefinitions
import QueryAdmission.Proofs.StepEffects

/-! # Scores without a cutoff

The scorer counts levels by recursion and the meter by its walk, and they agree: if no
fragment is cyclic and the depth that is measured is at most the cutoff, the score has
been through every set, and a larger cutoff changes nothing. So a gate whose scorer looks
as deep as its policy allows reports the full complexity of all that it allows. -/

namespace QueryAdmission

namespace Scorer

variable {s : Scorer} {fragments : Option (List Fragment)}

/-- The scorer, but that it looks down to another level. -/
def withCutoff (s : Scorer) (cutoff : Nat) : Scorer := { s with cutoff }

/-- A larger cutoff gives the same score of the set, or the same failure. -/
def Uncut (s : Scorer) (fragments : Option (List Fragment)) (set : SelectionSet) : Prop :=
  ∀ cutoff, s.cutoff ≤ cutoff → (s.withCutoff cutoff).score fragments set 0 = s.score fragments set 0

/-- What a selection adds does not depend on the cutoff, and of the sets one level deeper only
on the one that is entered at it. -/
theorem addPlain_withCutoff {cutoff : Nat} {inner inner' : SelectionSet → Except Failure Binary64}
    {selection : Selection}
    (h : inner (entered fragments selection) = inner' (entered fragments selection))
    (total : Binary64) :
    (s.withCutoff cutoff).addPlain fragments inner total selection =
      s.addPlain fragments inner' total selection := by
  cases selection with
  | field label name arguments directives body =>
    cases body with
    | none => rfl
    | some selections =>
      have h : inner (some selections) = inner' (some selections) := h
      simp only [addPlain, h]
      rfl
  | inline on directives body =>
    have h : inner body = inner' body := h
    simp only [addPlain, h]
  | other => rfl
  | spread name directives body =>
    cases body with
    | some selections =>
      have h : inner (some selections) = inner' (some selections) := h
      simp only [addPlain, h]
    | none =>
      have h : inner (resolve? fragments name).join = inner' (resolve? fragments name).join := h
      simp only [addPlain]
      cases hbody : resolve? fragments name with
      | none => rfl
      | some body =>
        rw [hbody] at h
        simp only [Option.join_some] at h
        simp only [h]

end Scorer

/-! ## Levels -/

section Levels

variable {fragments : List Fragment} {path : List String} {selection : Selection}
  {rest : List Selection}
  (hacyclic : ∀ name, ¬Relation.TransGen (Fragment.Uses fragments) name name)
include hacyclic

/-- Without cyclic fragments, the set that a score enters at a selection is the one that a walk
opens there. -/
theorem entered_eq_opened (hbelow : Below fragments path (selection :: rest)) :
    Scorer.entered (some fragments) selection =
      (DepthMeter.opened (some fragments) path selection).map Prod.fst := by
  have hbody : ∀ set : SelectionSet, set = (set.map (·, path)).map Prod.fst := by
    intro set
    cases set <;> rfl
  cases selection with
  | field label name arguments directives body => exact hbody body
  | inline on directives body => exact hbody body
  | other => rfl
  | spread name directives body =>
    cases body with
    | some selections => exact hbody (some selections)
    | none =>
      have hpath : name ∉ path := fun hmem =>
        hacyclic name (hbelow name hmem name (.here List.mem_cons_self))
      simp only [Scorer.entered, Scorer.resolve?, DepthMeter.opened_spread, if_neg hpath]
      cases Option.bind (some fragments) (Fragment.find? · name) with
      | none => rfl
      | some fragment => cases h : fragment.selections <;> simp [h]

/-- What a selection opens, too, is below fragments that use all that it spreads. -/
theorem below_of_opened (hbelow : Below fragments path (selection :: rest))
    {inner : List Selection} {path' : List String}
    (hopened : DepthMeter.opened (some fragments) path selection = some (inner, path')) :
    Below fragments path' inner := by
  have hrel := opened_of_below hacyclic hbelow hbelow
  rw [hopened] at hrel
  cases hrel with
  | some h => exact h.2.1

/-- Selections whose outline ends within the cutoff add the same under a larger cutoff. -/
theorem foldlM_withCutoff (s : Scorer) {cutoff : Nat} (hcutoff : s.cutoff ≤ cutoff)
    (path : List String) (selections : List Selection) :
    ∀ (level : Int) (total : Binary64), Below fragments path selections →
      level + (DepthMeter.outline (some fragments) path selections).height ≤ s.cutoff →
      selections.foldlM ((s.withCutoff cutoff).addPlain (some fragments) fun set =>
          (s.withCutoff cutoff).plainScore (some fragments) set (level + 1)) total =
        selections.foldlM (s.addPlain (some fragments) fun set =>
          s.plainScore (some fragments) set (level + 1)) total := by
  have hrest : ∀ {path selection rest}, Below fragments path (selection :: rest) →
      Below fragments path rest :=
    fun hbelow => hbelow.mono fun name hname => hname.mono (List.subset_cons_self _ _)
  -- over the outline: each set that it has below this one lies within the cutoff, too
  induction path, selections using DepthMeter.outline.induct (some fragments) with
  | case1 path =>
    intro level total _ _
    rfl
  | case2 path selection rest hopened ih =>
    intro level total hbelow hheight
    have hentered := entered_eq_opened hacyclic hbelow
    rw [hopened, Option.map_none] at hentered
    rw [DepthMeter.outline_cons, hopened] at hheight
    rw [List.foldlM_cons, List.foldlM_cons, Scorer.addPlain_withCutoff]
    · congr 1
      funext total'
      exact ih level total' (hrest hbelow) hheight
    · simp only [hentered, Scorer.plainScore_none]
  | case3 path selection rest inner path' hopened ihi ih =>
    intro level total hbelow hheight
    have hentered := entered_eq_opened hacyclic hbelow
    rw [hopened, Option.map_some] at hentered
    rw [DepthMeter.outline_cons, hopened] at hheight
    simp only [Outline.height] at hheight
    have hlevel : level + 1 ≤ s.cutoff := by omega
    have hlevel' : level + 1 ≤ (s.withCutoff cutoff).cutoff :=
      le_trans hlevel (Int.ofNat_le.mpr hcutoff)
    have hinner := ihi (level + 1) Binary64.zero (below_of_opened hacyclic hbelow hopened)
      (by omega)
    rw [List.foldlM_cons, List.foldlM_cons, Scorer.addPlain_withCutoff]
    · congr 1
      funext total'
      exact ih level total' (hrest hbelow) (by omega)
    · simp only [hentered]
      rw [Scorer.plainScore_some hlevel', Scorer.plainScore_some hlevel, hinner]

end Levels

/-! ## Depths within the cutoff -/

/-- No fragment spreads itself, directly or through others. -/
def AcyclicFragments (fragments : Option (List Fragment)) : Prop :=
  ∀ name, ¬Relation.TransGen (Fragment.Uses (fragments.getD [])) name name

/-- No fragments bound and an empty list of them are the same to every set. -/
theorem agreeOn_getD (fragments : Option (List Fragment)) :
    AgreeOn (fun _ => True) fragments (some (fragments.getD [])) := by
  cases fragments with
  | none => exact ⟨fun _ _ => rfl, fun _ _ _ hfound => by cases hfound⟩
  | some fragments => exact ⟨fun _ _ => rfl, fun _ _ _ _ _ _ _ _ => trivial⟩

variable {s : Scorer} {fragments : Option (List Fragment)} {set : SelectionSet}

theorem Scorer.uncut_of_height (hacyclic : AcyclicFragments fragments)
    (hheight : (DepthMeter.outlineOf fragments set).height ≤ s.cutoff) :
    s.Uncut fragments set := by
  intro cutoff hcutoff
  have hagree := agreeOn_getD fragments
  have hset : SpreadsWithin (fun _ => True) set := fun _ _ _ _ => trivial
  rw [DepthMeter.outlineOf_of_agreeOn hagree hset] at hheight
  rw [score_of_agreeOn _ hagree hset, score_of_agreeOn _ hagree hset]
  unfold score
  rw [((s.withCutoff cutoff).scoreWithin_agree _ 0 set [] memoSound_nil).1,
    (s.scoreWithin_agree _ 0 set [] memoSound_nil).1]
  cases set with
  | none => rw [plainScore_none, plainScore_none]
  | some selections =>
    rw [plainScore_some (Int.natCast_nonneg _), plainScore_some (Int.natCast_nonneg _)]
    refine foldlM_withCutoff hacyclic s hcutoff [] selections 0 .zero ?_ ?_
    · intro outer houter
      cases houter
    · rw [Int.zero_add]
      exact Int.ofNat_le.mpr hheight

/-- What a meter without a cap reports of a walk that was not abandoned is the true depth. -/
theorem DepthMeter.height_of_measure {meter : DepthMeter} (hcap : meter.cap = none) {depth : Int}
    (hmeasure : meter.measure fragments set 0 = ⟨.int depth, false⟩) :
    ((outlineOf fragments set).height : Int) = depth := by
  have hcap : meter.cap = (none : Option Int).map .int := hcap
  by_cases hsize : (outlineOf fragments set).sizeBelow none 0 ≤ meter.budget
  · rw [measure_within hcap hsize] at hmeasure
    simpa [Outline.depthBelow] using hmeasure
  · obtain ⟨_, hexhausted, _⟩ := measure_beyond hcap (Nat.lt_of_not_le hsize)
    rw [hexhausted] at hmeasure
    cases hmeasure

namespace Gate

/-- A gate whose scorer looks as deep as its policy allows has scored all of what it allows. -/
theorem uncut_of_allowed {settings : Settings} {gate : Gate} (hgate : settings.gate = .ok gate)
    (hcutoff : settings.complexityCutoff = settings.maxDepth) {document : Document}
    (hacyclic : document.Acyclic) {name : Option String} {evaluation : Evaluation}
    {logs : List LogRecord} (heval : gate.evaluate (some document) name = .ok (evaluation, logs))
    {operation : Operation} (hoperation : evaluation.operation = some operation)
    (hallowed : evaluation.decision = .allowed) :
    gate.scorer.score (gate.bound document) operation.selections 0 =
        .ok evaluation.complexity ∧
      gate.scorer.Uncut (gate.bound document) operation.selections := by
  rcases evaluate_eq_ok (Built.ofSettings hgate rfl).limited heval with
    ⟨_, rfl⟩ | ⟨o, complexity, _, hscore, rfl⟩
  · cases hoperation
  obtain rfl := Option.some.inj hoperation
  refine ⟨hscore, Scorer.uncut_of_height ?_ ?_⟩
  · unfold bound
    cases gate.resolveFragments with
    | true => exact hacyclic
    | false =>
      intro fragment hcycle
      obtain ⟨_, ⟨_, _, hfound, _⟩, _⟩ := Relation.TransGen.head'_iff.mp hcycle
      cases hfound
  · obtain ⟨scorer, hscorer, rfl⟩ := Settings.exists_gateWith hgate
    obtain ⟨_, _, rfl⟩ := Settings.scorer_eq_ok hscorer
    have hheight := (verdict_eq_allowed.mp hallowed).2.1
    show (outlineOf _ document o).height ≤ settings.complexityCutoff
    omega

/-- The scorer and the meter agree on levels. A set without cyclic fragments whose depth, as an
uncapped meter reports it, is at most the cutoff has the same score, or the same failure,
under every larger cutoff. So where settings let the scorer look as deep as the policy
allows, what is allowed is reported with its full complexity. -/
theorem uncut_within_depth :
    (∀ (s : Scorer) (fragments : Option (List Fragment)) (set : SelectionSet) (meter : DepthMeter)
        (depth : Int), AcyclicFragments fragments → meter.cap = none →
      meter.measure fragments set 0 = ⟨.int depth, false⟩ → depth ≤ s.cutoff →
      s.Uncut fragments set) ∧
    ∀ (settings : Settings) (gate : Gate) (document : Document) (name : Option String)
        (evaluation : Evaluation) (logs : List LogRecord) (operation : Operation),
      settings.gate = .ok gate → settings.complexityCutoff = settings.maxDepth →
      document.Acyclic → gate.evaluate (some document) name = .ok (evaluation, logs) →
      evaluation.operation = some operation → evaluation.decision = .allowed →
      gate.scorer.score (gate.bound document) operation.selections 0 =
          .ok evaluation.complexity ∧
        gate.scorer.Uncut (gate.bound document) operation.selections := by
  constructor
  · intro s fragments set meter depth hacyclic hcap hmeasure hdepth
    have hheight := DepthMeter.height_of_measure hcap hmeasure
    exact Scorer.uncut_of_height hacyclic (by omega)
  · intro settings gate document name evaluation logs operation hgate hcutoff hacyclic heval
      hoperation hallowed
    exact uncut_of_allowed hgate hcutoff hacyclic heval hoperation hallowed

/-- A query that spreads a fragment within another one is two levels deep, and its score is
uncut; the strict settings, which look as deep as they allow, allow it. -/
theorem uncut_within_depth_shared :
    (AcyclicFragments (some sharedDocument.fragments) ∧
      (⟨none, 5, by decide⟩ : DepthMeter).measure (some sharedDocument.fragments)
          (some [.spread "a" [] none, .spread "b" [] none]) 0 = ⟨.int 2, false⟩ ∧
      Scorer.standard.Uncut (some sharedDocument.fragments)
        (some [.spread "a" [] none, .spread "b" [] none])) ∧
    ∃ gate evaluation logs operation, strictSettings.gate = .ok gate ∧
      gate.evaluate (some sharedDocument) none = .ok (evaluation, logs) ∧
      evaluation.operation = some operation ∧ evaluation.decision = .allowed ∧
      gate.scorer.score (gate.bound sharedDocument) operation.selections 0 =
          .ok evaluation.complexity ∧
        gate.scorer.Uncut (gate.bound sharedDocument) operation.selections := by
  constructor
  · have hacyclic : AcyclicFragments (some sharedDocument.fragments) := acyclic_sharedDocument
    have hmeasure : (⟨none, 5, by decide⟩ : DepthMeter).measure (some sharedDocument.fragments)
        (some [.spread "a" [] none, .spread "b" [] none]) 0 = ⟨.int 2, false⟩ := by
      decide +kernel
    exact ⟨hacyclic, hmeasure,
      uncut_within_depth.1 _ _ _ _ _ hacyclic rfl hmeasure (by decide)⟩
  · have hallowed : (strictSettings.gate.toOption.bind fun gate =>
        (gate.evaluate (some sharedDocument) none).toOption).map (·.1.decision.isAllowed) =
          some true := by decide +kernel
    cases hgate : strictSettings.gate with
    | error failure =>
      rw [hgate] at hallowed
      cases hallowed
    | ok gate =>
      obtain ⟨evaluation, logs, heval, hallowed⟩ := Settings.exists_evaluation hgate hallowed
      have hallowed := Decision.isAllowed_iff.mp hallowed
      rcases evaluate_cases heval with ⟨htarget, _, _⟩ | ⟨_, operation, _, _, hjudges⟩
      · cases htarget
      · obtain ⟨hscore, huncut⟩ := uncut_within_depth.2 _ _ _ _ _ _ _ hgate rfl
          acyclic_sharedDocument heval hjudges.subject hallowed
        exact ⟨gate, evaluation, logs, operation, rfl, heval, hjudges.subject, hallowed, hscore,
          huncut⟩

end Gate

end QueryAdmission
