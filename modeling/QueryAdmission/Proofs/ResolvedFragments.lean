import QueryAdmission.Proofs.Padding
import QueryAdmission.Proofs.UncutScore

/-! # What resolving fragments changes

A gate that does not resolve fragments treats a document as if it had none. Resolving them
replaces what was a leaf by a set: the outline of every operation grows, and so does its
score. A larger outline can use up the budget before the deepest set is seen, but then one
level more than the limit is reported, which no other report exceeds. -/

namespace QueryAdmission

/-! ## The switch -/

/-- The settings with fragments resolved or not. -/
def Settings.resolving (settings : Settings) (resolve : Bool) : Settings :=
  { settings with resolveFragments := resolve }

/-- The gate with fragments resolved or not. -/
def Gate.resolving (gate : Gate) (resolve : Bool) : Gate :=
  { gate with resolveFragments := resolve }

@[simp] theorem Gate.resolving_scorer (gate : Gate) (resolve : Bool) :
    (gate.resolving resolve).scorer = gate.scorer := rfl

@[simp] theorem Gate.resolving_meter (gate : Gate) (resolve : Bool) :
    (gate.resolving resolve).meter = gate.meter := rfl

/-- The switch changes nothing else in the gate that settings describe. -/
theorem Settings.gate_resolving {settings : Settings} {gate : Gate}
    (h : settings.gate = .ok gate) (resolve : Bool) :
    (settings.resolving resolve).gate = .ok (gate.resolving resolve) := by
  obtain ⟨scorer, hscorer, rfl⟩ := exists_gateWith h
  have hscorer : (settings.resolving resolve).scorer = .ok scorer := hscorer
  exact gate_of_scorer hscorer

/-! ## A document without its fragments -/

namespace Document

/-- The document without its fragment definitions. -/
def withoutFragments (d : Document) : Document :=
  ⟨d.definitions.filter fun definition => definition.fragment?.isNone⟩

theorem target?_withoutFragments (d : Document) (name : Option String) :
    d.withoutFragments.target? name = d.target? name := by
  have hsame : (fun definition : Definition => decide (definition.fragment?.isNone = true ∧
      definition.answersTo name = true)) = (·.answersTo name) := by
    funext definition
    cases definition <;>
      simp [Definition.fragment?, Definition.answersTo, Definition.operation?]
  rw [target?, target?, withoutFragments, List.find?_filter, hsame]

theorem fragments_withoutFragments (d : Document) : d.withoutFragments.fragments = [] := by
  have hnone : d.withoutFragments.fragmentDefinitions = [] := by
    rw [fragmentDefinitions, withoutFragments, List.filterMap_eq_nil_iff]
    intro definition hmem
    simpa using (List.mem_filter.mp hmem).2
  rw [fragments, hnone, Fragment.firsts]

end Document

namespace Gate

variable {gate : Gate} {limit : Nat}

/-- Where fragments are not resolved, a document counts as if it had none. -/
theorem evaluate_unresolved (gate : Gate) (document : Option Document) (name : Option String) :
    (gate.resolving false).evaluate document name =
      (gate.resolving true).evaluate (document.map (·.withoutFragments)) name := by
  cases document with
  | none => rfl
  | some d =>
    have hoff : (gate.resolving false).bound d = none := rfl
    have hon : (gate.resolving true).bound d.withoutFragments = some [] := by
      rw [bound, d.fragments_withoutFragments]
      rfl
    simp only [evaluate, Option.map_some, d.target?_withoutFragments, hoff, hon, resolving_scorer,
      resolving_meter]
    cases d.target? name with
    | none => rfl
    | some operation =>
      have hagree := agreeOn_getD none
      have hset : SpreadsWithin (fun _ => True) operation.selections := fun _ _ _ _ => trivial
      have hscore := gate.scorer.score_of_agreeOn hagree hset 0
      have hmeasure := gate.meter.measure_congr (DepthMeter.outlineOf_of_agreeOn hagree hset) 0
      simp only [hscore, hmeasure, Option.getD_none]
      rfl

/-! ## Growth by resolution -/

/-- A set only grows by what the fragments put into it. -/
theorem growing_eq : Growing fun a b : SelectionSet => a = b := by
  intro a b hab
  subst hab
  exact .refl (fun _ => rfl) a

/-- A larger outline is not reported as less deep: where it uses up the budget, the report is
the deepest there is. -/
theorem reportedDepth_mono {o o' : Outline} (h : o.Embeds o') :
    gate.reportedDepth limit o ≤ gate.reportedDepth limit o' := by
  have hheight := h.height_le
  have hsize := h.sizeTo_le limit
  unfold reportedDepth
  split <;> split <;> omega

/-- With fragments resolved, an evaluation shows no less than without. -/
theorem evaluate_resolving_le (hlimited : gate.Limited limit)
    (hprices : gate.scorer.NoDearer gate.scorer) {d : Document} {name : Option String}
    {e e' : Evaluation} {logs logs' : List LogRecord}
    (heval : (gate.resolving false).evaluate (some d) name = .ok (e, logs))
    (heval' : (gate.resolving true).evaluate (some d) name = .ok (e', logs')) :
    (Quantity.float e.complexity).le (.float e'.complexity) = true ∧
      e.depth.le e'.depth = true ∧
      (e.decision.isAllowed = false → e'.decision.isAllowed = false) := by
  have hlimited : ∀ resolve, (gate.resolving resolve).Limited limit :=
    fun _ => ⟨hlimited.maxDepth, hlimited.cap⟩
  rcases evaluate_eq_ok (hlimited false) heval with ⟨hnone, rfl⟩ | ⟨o, x, ho, hx, rfl⟩
  · rcases evaluate_eq_ok (hlimited true) heval' with ⟨_, rfl⟩ | ⟨o', y, ho', _⟩
    · exact ⟨by decide, by decide, fun h => h⟩
    · rw [hnone] at ho'
      cases ho'
  rcases evaluate_eq_ok (hlimited true) heval' with ⟨hnone, _⟩ | ⟨o', y, ho', hy, rfl⟩
  · rw [hnone] at ho
    cases ho
  obtain rfl := Option.some.inj (ho.symm.trans ho')
  -- no name stands for a fragment before, so there is none that could have lost its set
  have hfragments : FragmentsGrow (fun a b => a = b) ((gate.resolving false).bound d)
      ((gate.resolving true).bound d) := fun _ _ hfound => by cases hfound
  have hscore : x.AtMost y := hprices.score_atMost hprices growing_eq hfragments rfl hx hy
  have houtline : ((gate.resolving false).outlineOf d o).Embeds
      ((gate.resolving true).outlineOf d o) :=
    DepthMeter.outlineOf_embeds growing_eq hfragments rfl
  refine ⟨hscore.le, ?_, ?_⟩
  · rw [Quantity.int_le_int, decide_eq_true_eq]
    exact reportedDepth_mono houtline
  · intro hrejected
    rw [Bool.eq_false_iff] at hrejected ⊢
    intro hallowed
    have hallowed := verdict_mono hscore houtline (Decision.isAllowed_iff.mp hallowed)
    exact hrejected (Decision.isAllowed_iff.mpr hallowed)

/-- The settings switch that resolves fragments. Off, the gate makes of a document what it
makes, when on, of the document without its fragments. And wherever both evaluations go
through, the complexity and the depth are no lower with the switch on, and what is rejected
with the switch off is rejected with it on. -/
theorem evaluate_resolving {settings : Settings} {off on : Gate}
    (hoff : (settings.resolving false).gate = .ok off)
    (hon : (settings.resolving true).gate = .ok on)
    (hnan : ∀ entry ∈ settings.fieldCosts, entry.2 ≠ .nan)
    (document : Option Document) (name : Option String) :
    off.evaluate document name = on.evaluate (document.map (·.withoutFragments)) name ∧
    ∀ e logs e' logs', off.evaluate document name = .ok (e, logs) →
      on.evaluate document name = .ok (e', logs') →
        (Quantity.float e.complexity).le (.float e'.complexity) = true ∧
        e.depth.le e'.depth = true ∧
        (e.decision.isAllowed = false → e'.decision.isAllowed = false) := by
  have hfalse : off.resolving false = off :=
    Except.ok.inj ((Settings.gate_resolving hoff false).symm.trans hoff)
  have htrue : off.resolving true = on :=
    Except.ok.inj ((Settings.gate_resolving hoff true).symm.trans hon)
  have hunresolved := off.evaluate_unresolved document name
  have hlimited := (Built.ofSettings hoff rfl).limited
  have hprices := Settings.noDearer_self (Settings.gate_eq_ok hoff).1 hnan
  rw [hfalse, htrue] at hunresolved
  refine ⟨hunresolved, ?_⟩
  intro e logs e' logs' heval heval'
  cases document with
  | none =>
    cases heval
    cases heval'
    exact ⟨by decide, by decide, fun h => h⟩
  | some d =>
    rw [← hfalse] at heval
    rw [← htrue] at heval'
    exact evaluate_resolving_le hlimited hprices heval heval'

/-- Three fields are too many, whether or not the query goes around a cycle between them. -/
theorem evaluate_resolving_cyclic :
    ∃ off on e e' logs logs', (strictSettings.resolving false).gate = .ok off ∧
      (strictSettings.resolving true).gate = .ok on ∧
      off.evaluate (some threeFieldsInCycle) none = .ok (e, logs) ∧
      on.evaluate (some threeFieldsInCycle.withoutFragments) none = .ok (e, logs) ∧
      on.evaluate (some threeFieldsInCycle) none = .ok (e', logs') ∧
      (Quantity.float e.complexity).le (.float e'.complexity) = true ∧
      e.depth.le e'.depth = true ∧ e'.decision.isAllowed = false := by
  have hjudged : ∀ resolve, ((strictSettings.resolving resolve).gate.toOption.bind fun gate =>
      (gate.evaluate (some threeFieldsInCycle) none).toOption).map (·.1.decision.isAllowed) =
        some false := by decide +kernel
  have hnan : ∀ entry ∈ strictSettings.fieldCosts, entry.2 ≠ .nan := by decide
  have hgate : ∀ resolve, ∃ gate, (strictSettings.resolving resolve).gate = .ok gate := by
    intro resolve
    have h := hjudged resolve
    cases hgate : (strictSettings.resolving resolve).gate with
    | error failure =>
      rw [hgate] at h
      cases h
    | ok gate => exact ⟨gate, rfl⟩
  obtain ⟨off, hoff⟩ := hgate false
  obtain ⟨on, hon⟩ := hgate true
  obtain ⟨e, logs, heval, hrejected⟩ := Settings.exists_evaluation hoff (hjudged false)
  obtain ⟨e', logs', heval', _⟩ := Settings.exists_evaluation hon (hjudged true)
  obtain ⟨hunresolved, hlarger⟩ :=
    evaluate_resolving hoff hon hnan (some threeFieldsInCycle) none
  obtain ⟨hcomplexity, hdepth, hstays⟩ := hlarger e logs e' logs' heval heval'
  rw [hunresolved] at heval
  exact ⟨off, on, e, e', logs, logs', hoff, hon, hunresolved.trans heval, heval, heval',
    hcomplexity, hdepth, hstays hrejected⟩

end Gate

end QueryAdmission
