import QueryAdmission.Proofs.AskedFields
import QueryAdmission.Proofs.DepthReport

/-! # Walks without a cap

Without a cap, a walk goes everywhere that its set and the fragments lead, and still it ends
by itself, whatever the fragments spread. What waits to be visited is finite, as no fragment
is put in below itself; a step visits a part of it, or takes a set from the stack and leaves
the rest as it is. The budget only decides whether a walk is allowed to come to its end. How
deep it gets there is bounded by what is written: a chain of nested sets opens each fragment
at most once, and so passes every written set at most once. -/

namespace QueryAdmission

/-! ## Sets that are written -/

mutual

/-- How many selection sets are written in a selection, at whatever depth. -/
def Selection.sets : Selection → Nat
  | .field _ _ _ _ (some body) => 1 + Selection.setsOf body
  | .inline _ _ (some body) => 1 + Selection.setsOf body
  | .spread _ _ (some body) => 1 + Selection.setsOf body
  | _ => 0

/-- How many selection sets are written in the selections of a set. -/
def Selection.setsOf : List Selection → Nat
  | [] => 0
  | selection :: rest => selection.sets + Selection.setsOf rest

end

/-- How many selection sets a set makes, itself and those that are written in it. -/
def setsWritten : SelectionSet → Nat
  | none => 0
  | some selections => 1 + Selection.setsOf selections

theorem Selection.sets_eq (selection : Selection) :
    selection.sets = setsWritten selection.body := by
  cases selection with
  | field _ _ _ _ body => cases body <;> simp only [sets, Selection.body, setsWritten]
  | inline _ _ body => cases body <;> simp only [sets, Selection.body, setsWritten]
  | spread _ _ body => cases body <;> simp only [sets, Selection.body, setsWritten]
  | other => simp only [sets, Selection.body, setsWritten]

/-- How many selection sets are written in what a walk is given: in the set it starts from,
and in the fragments, their own ones included. -/
def setsGiven (fragments : Option (List Fragment)) (selections : SelectionSet) : Nat :=
  Selection.setsOf (selections.getD []) +
    ((fragments.getD []).map fun f => setsWritten f.selections).sum

namespace DepthMeter

variable {meter : DepthMeter} {fragments : Option (List Fragment)}

/-- How many selection sets are written in the fragments that are not open. -/
def setsUnopened (fragments : Option (List Fragment)) (path : List String) : Nat :=
  Fragment.unused (fun f => setsWritten f.selections) (fragments.getD []) path

/-- A chain of nested sets passes those written in the set and those of fragments that are not
yet open. -/
theorem height_outline_le (fragments : Option (List Fragment)) (path : List String)
    (selections : List Selection) :
    (outline fragments path selections).height ≤
      Selection.setsOf selections + setsUnopened fragments path := by
  induction path, selections using outline.induct fragments with
  | case1 path =>
    rw [outline_nil]
    exact Nat.zero_le _
  | case2 path selection rest hopened ih =>
    rw [outline_cons, hopened, Outline.height, Selection.setsOf]
    omega
  | case3 path selection rest inner inside hopened ihinner ihrest =>
    rw [outline_cons, hopened, Outline.height, Selection.setsOf]
    -- the opened set is written in the selection, or it is that of a fragment
    have hinner : (outline fragments inside inner).height + 1 ≤
        selection.sets + setsUnopened fragments path := by
      rcases opened_eq_some hopened with
        ⟨hbody, rfl⟩ | ⟨name, _, fragment, _, hpath, hfound, hset, rfl⟩
      · rw [selection.sets_eq, hbody, setsWritten]
        omega
      · obtain ⟨list, rfl, hfound⟩ := Option.bind_eq_some_iff.mp hfound
        have hwritten : setsWritten fragment.selections = 1 + Selection.setsOf inner := by
          rw [hset, setsWritten]
        have henter := Fragment.unused_enter (fun f => setsWritten f.selections) hfound hpath
        simp only [hwritten] at henter
        simp only [setsUnopened, Option.getD_some] at ihinner ⊢
        omega
    omega

theorem height_outlineOf_le (fragments : Option (List Fragment)) (selections : SelectionSet) :
    (outlineOf fragments selections).height ≤ setsGiven fragments selections := by
  have hle := height_outline_le fragments [] (selections.getD [])
  simp only [setsUnopened, Fragment.unused, List.not_mem_nil, if_false] at hle
  exact hle

/-! ## The walk ends by itself -/

/-- A step that a walk without a cap takes, under whatever budget allows it. -/
def Walk.Advances (fragments : Option (List Fragment)) (walk next : Walk) : Prop :=
  ∃ meter : DepthMeter, meter.cap = none ∧ meter.step fragments walk = .next next

/-- How many selections wait in the sets of a walk. -/
def Walk.unvisited (fragments : Option (List Fragment)) (walk : Walk) : Nat :=
  (walk.frames.map fun frame => (frame.outline fragments).size).sum

theorem pending_of_none (h : meter.cap = none) (walk : Walk) :
    meter.pending fragments walk.frames = walk.unvisited fragments := by
  rw [Walk.unvisited]
  induction walk.frames with
  | nil => rfl
  | cons frame stack ih =>
    rw [pending, ih, Outline.visits_of_open (closes_of_none h), List.map_cons, List.sum_cons]

/-- A step leaves less to visit, or as much in fewer sets. -/
theorem Walk.Advances.decreases {walk next : Walk} (h : walk.Advances fragments next) :
    Prod.Lex (· < ·) (· < ·) (next.unvisited fragments, next.stack.length)
      (walk.unvisited fragments, walk.stack.length) := by
  obtain ⟨meter, hcap, hstep⟩ := h
  have hpending := step_pending hstep
  rw [pending_of_none hcap, pending_of_none hcap] at hpending
  -- a visit uses up a selection that waits, and to take a set from the stack uses up none
  rcases step_eq_next hstep with ⟨selection, rest, _, _, rfl⟩ | ⟨_, frame, stack, hstack, rfl⟩
  · refine .left _ _ ?_
    simp only [visit] at hpending ⊢
    omega
  · have hsame : Walk.unvisited fragments { walk with current := frame, stack := stack } =
        walk.unvisited fragments := Nat.add_left_cancel hpending
    rw [hsame, hstack]
    exact .right _ (Nat.lt_succ_self _)

/-- There is no endless walk, whatever the fragments spread and the budget is. -/
theorem wellFounded_advances (fragments : Option (List Fragment)) :
    WellFounded fun next walk : Walk => walk.Advances fragments next :=
  Subrelation.wf (fun h => Walk.Advances.decreases h)
    (InvImage.wf (fun walk : Walk => (walk.unvisited fragments, walk.stack.length))
      (Prod.lex Nat.lt_wfRel Nat.lt_wfRel).wf)

/-- A walk without a cap ends by itself, and the set and the fragments settle where: a budget
with room for every selection of the outline is never used up, and any smaller one always is.
A walk that comes to its end reports the same depth whatever its budget, and passes no more
levels than there are sets written. -/
theorem measure_uncapped (fragments : Option (List Fragment)) (selections : SelectionSet) :
    (WellFounded fun next walk : Walk => walk.Advances fragments next) ∧
    (outlineOf fragments selections).height ≤ setsGiven fragments selections ∧
    ∀ (meter : DepthMeter) (level : Int), meter.cap = none →
      ((outlineOf fragments selections).size ≤ meter.budget →
        meter.measure fragments selections level =
            ⟨.int (level + (outlineOf fragments selections).height), false⟩ ∧
          Gate.depthLog meter (meter.measure fragments selections level) = .ok []) ∧
      (meter.budget < (outlineOf fragments selections).size →
        ∃ depth : Int, meter.measure fragments selections level = ⟨.int depth, true⟩ ∧
          Gate.depthLog meter (meter.measure fragments selections level) =
            .ok [⟨.warning, Gate.depthLogger, "Depth traversal stopped after " ++
              toString meter.budget ++ " selections; reporting depth " ++ toString depth⟩]) := by
  refine ⟨wellFounded_advances fragments, height_outlineOf_le fragments selections, ?_⟩
  intro meter level hcap
  have hcap : meter.cap = (none : Option Int).map .int := hcap
  constructor
  · intro hwithin
    rw [measure_within hcap hwithin]
    exact ⟨rfl, Gate.depthLog_int meter _ false⟩
  · intro hbeyond
    obtain ⟨depth, hdepth, _⟩ := measure_beyond hcap hbeyond
    rw [hdepth]
    exact ⟨depth, rfl, Gate.depthLog_int meter depth true⟩

/-- Two fragments that spread each other, the first of them twice. -/
def mutualFragments : List Fragment :=
  [⟨"a", "User", [], some [.spread "b" [] none, .spread "b" [] none]⟩,
    ⟨"b", "User", [], some [.field none "friend" [] [] (some [.spread "a" [] none])]⟩]

def spreadOfBoth : List Selection := [.spread "a" [] none, .spread "b" [] none]

/-- Meters without a cap that visit twelve selections, and one less. -/
def twelveVisits : DepthMeter := ⟨none, 12, by decide⟩

def elevenVisits : DepthMeter := ⟨none, 11, by decide⟩

/-- Fragments that spread each other are put in on both ways down: twelve visits, on three
levels below the first, and as many sets are written. -/
theorem measure_uncapped_mutual :
    twelveVisits.cap = none ∧
      (outlineOf (some mutualFragments) (some spreadOfBoth)).size = 12 ∧
      setsGiven (some mutualFragments) (some spreadOfBoth) = 3 ∧
      twelveVisits.measure (some mutualFragments) (some spreadOfBoth) 5 = ⟨.int 8, false⟩ ∧
      (elevenVisits.measure (some mutualFragments) (some spreadOfBoth) 5).exhausted = true := by
  have hsize : (outlineOf (some mutualFragments) (some spreadOfBoth)).size = 12 := by cbv
  have hheight : (outlineOf (some mutualFragments) (some spreadOfBoth)).height = 3 := by cbv
  obtain ⟨_, _, hmeasure⟩ := measure_uncapped (some mutualFragments) (some spreadOfBoth)
  obtain ⟨hwithin, _⟩ := (hmeasure twelveVisits 5 rfl).1 (by rw [hsize]; decide)
  obtain ⟨depth, hbeyond, _⟩ := (hmeasure elevenVisits 5 rfl).2 (by rw [hsize]; decide)
  rw [hheight] at hwithin
  exact ⟨rfl, hsize, by cbv, hwithin, by rw [hbeyond]⟩

end DepthMeter

end QueryAdmission
