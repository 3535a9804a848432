import Mathlib.Data.List.Forall2
import QueryAdmission.Proofs.NumberOrder
import QueryAdmission.Proofs.Outline

/-! # What the walk reports

The walk takes sets from a stack, in an order that depends on what it meets. Its report
does not: selections visited and selections pending add up to the same number at every
step, and so does the deepest level seen joined with the levels still to be seen. A walk
is therefore exhausted exactly when the outline has more selections above the cap than
the budget allows, and otherwise reports the deepest level of the outline. -/

namespace QueryAdmission

namespace Outline

variable (closes : Int → Bool)

/-- How many selections a walk visits in a set at `level` and below it. -/
def visits : Outline → Int → Nat
  | .done, _ => 0
  | .leaf rest, level => rest.visits level + 1
  | .branch inner rest, level =>
    (if closes (level + 1) then 0 else inner.visits (level + 1)) + rest.visits level + 1

/-- The deepest level that a walk sees from a set at `level`. -/
def reach : Outline → Int → Int
  | .done, level => level
  | .leaf rest, level => rest.reach level
  | .branch inner rest, level =>
    max (if closes (level + 1) then level + 1 else inner.reach (level + 1)) (rest.reach level)

theorem le_reach (o : Outline) (level : Int) : level ≤ o.reach closes level := by
  induction o generalizing level with
  | done => exact Int.le_refl level
  | leaf rest ih => exact ih level
  | branch inner rest _ ih =>
    have := ih level
    simp only [reach]
    omega

variable {closes}

/-- A cap at a whole level leaves the sets above it to be visited. -/
theorem visits_of_cap {cap : Int} (hclose : ∀ level, closes level = decide (cap ≤ level))
    (o : Outline) (level : Int) :
    o.visits closes level = o.sizeTo (cap - 1 - level).toNat := by
  induction o generalizing level with
  | done => rfl
  | leaf rest ih => rw [visits, sizeTo, ih]
  | branch inner rest ihi ih =>
    rw [visits, hclose, ih]
    by_cases h : cap ≤ level + 1
    · have hzero : (cap - 1 - level).toNat = 0 := by omega
      simp only [h, decide_true, if_true, hzero, sizeTo, Nat.zero_add]
    · have hsucc : (cap - 1 - level).toNat = (cap - 1 - (level + 1)).toNat + 1 := by omega
      simp only [h, decide_false, Bool.false_eq_true, if_false, hsucc, sizeTo, ihi]

/-- A cap at a whole level cuts the depth off there, but never before the first level below
the set. -/
theorem reach_of_cap {cap : Int} (hclose : ∀ level, closes level = decide (cap ≤ level))
    (o : Outline) (level : Int) :
    o.reach closes level = min (level + o.height) (max cap (level + 1)) := by
  induction o generalizing level with
  | done =>
    simp only [reach, height]
    omega
  | leaf rest ih => rw [reach, height, ih]
  | branch inner rest ihi ih =>
    rw [reach, hclose, ih, height]
    by_cases h : cap ≤ level + 1
    · have hcap : max cap (level + 1) = level + 1 := Int.max_eq_right h
      simp only [h, decide_true, if_true, hcap]
      omega
    · have hcap : max cap (level + 1) = cap := Int.max_eq_left (by omega)
      have hcap' : max cap (level + 1 + 1) = cap := Int.max_eq_left (by omega)
      simp only [h, decide_false, Bool.false_eq_true, if_false, ihi, hcap, hcap']
      omega

end Outline

namespace DepthMeter

variable {meter : DepthMeter} {fragments : Option (List Fragment)}

/-! ## What is still to be walked -/

/-- The outline of what is left of a stacked set. -/
def Frame.outline (fragments : Option (List Fragment)) (frame : Frame) : Outline :=
  DepthMeter.outline fragments frame.path frame.selections

/-- How many selections of the stacked sets are still to be visited. -/
def pending (meter : DepthMeter) (fragments : Option (List Fragment)) : List Frame → Nat
  | [] => 0
  | frame :: stack =>
    (frame.outline fragments).visits meter.closes frame.level + meter.pending fragments stack

/-- The deepest level that is seen once the stacked sets are walked, `seen` being the deepest
so far. -/
def reaches (meter : DepthMeter) (fragments : Option (List Fragment)) (seen : Int) :
    List Frame → Int
  | [] => seen
  | frame :: stack =>
    max ((frame.outline fragments).reach meter.closes frame.level)
      (meter.reaches fragments seen stack)

theorem le_reaches (meter : DepthMeter) (fragments : Option (List Fragment)) (seen : Int)
    (stack : List Frame) :
    seen ≤ meter.reaches fragments seen stack := by
  induction stack with
  | nil => exact Int.le_refl seen
  | cons frame stack ih =>
    simp only [reaches]
    omega

theorem reaches_max (seen level : Int) (stack : List Frame) :
    meter.reaches fragments (max seen level) stack =
      max (meter.reaches fragments seen stack) level := by
  induction stack with
  | nil => rfl
  | cons frame stack ih =>
    simp only [reaches, ih]
    omega

/-- The sets of a walk, the current one first. -/
def Walk.frames (walk : Walk) : List Frame := walk.current :: walk.stack

/-- What every walk keeps to: the budget, and no set deeper than the deepest level seen. -/
structure Walk.Fits (meter : DepthMeter) (walk : Walk) : Prop where
  visited_le : walk.visited ≤ meter.budget
  level_le : ∀ frame ∈ walk.frames, frame.level ≤ walk.deepest

/-! ## One step -/

/-- A step that visits a selection, or one that takes a set from the stack. -/
theorem step_eq_next {walk next : Walk} (h : meter.step fragments walk = .next next) :
    (∃ selection rest, walk.current.selections = selection :: rest ∧
      walk.visited < meter.budget ∧ next = meter.visit fragments walk selection rest) ∨
    (walk.current.selections = [] ∧ ∃ frame stack, walk.stack = frame :: stack ∧
      next = { walk with current := frame, stack := stack }) := by
  unfold step at h
  split at h
  · rename_i selection rest hcurrent
    split at h
    · contradiction
    · cases h
      exact .inl ⟨selection, rest, hcurrent, by omega, rfl⟩
  · rename_i hcurrent
    split at h
    · contradiction
    · rename_i frame stack hstack
      cases h
      exact .inr ⟨hcurrent, frame, stack, hstack, rfl⟩

theorem step_eq_finished {walk : Walk} (h : meter.step fragments walk = .finished) :
    walk.current.selections = [] ∧ walk.stack = [] := by
  unfold step at h
  split at h
  · split at h <;> contradiction
  · rename_i hcurrent
    split at h
    · exact ⟨hcurrent, ‹_›⟩
    · contradiction

theorem step_eq_exhausted {walk : Walk} (h : meter.step fragments walk = .exhausted) :
    (∃ selection rest, walk.current.selections = selection :: rest) ∧
      meter.budget ≤ walk.visited := by
  unfold step at h
  split at h
  · rename_i selection rest hcurrent
    split at h
    · exact ⟨⟨selection, rest, hcurrent⟩, ‹_›⟩
    · contradiction
  · split at h <;> contradiction

/-- What a visited selection does to the walk: it opens nothing, or a set that the cap closes,
or one that is stacked. -/
theorem visit_cases (meter : DepthMeter) (fragments : Option (List Fragment)) (walk : Walk)
    (selection : Selection) (rest : List Selection) :
    (opened fragments walk.current.path selection = none ∧
      meter.visit fragments walk selection rest =
        ⟨{ walk.current with selections := rest }, walk.stack, walk.visited + 1,
          walk.deepest⟩) ∨
    ∃ selections path, opened fragments walk.current.path selection = some (selections, path) ∧
      meter.visit fragments walk selection rest =
        ⟨{ walk.current with selections := rest },
          (if meter.closes (walk.current.level + 1) then []
            else [⟨selections, walk.current.level + 1, path⟩]) ++ walk.stack,
          walk.visited + 1, max walk.deepest (walk.current.level + 1)⟩ := by
  cases h : opened fragments walk.current.path selection with
  | none => exact .inl ⟨rfl, by simp only [visit, entered, h, Option.isSome]; rfl⟩
  | some pair => exact .inr ⟨pair.1, pair.2, rfl, by simp only [visit, entered, h]; rfl⟩

theorem Walk.Fits.step {walk next : Walk} (hfits : walk.Fits meter)
    (h : meter.step fragments walk = .next next) : next.Fits meter := by
  obtain ⟨hvisited, hlevel⟩ := hfits
  rcases step_eq_next h with ⟨selection, rest, _, hlt, rfl⟩ | ⟨_, frame, stack, hstack, rfl⟩
  · have hcurrent := hlevel walk.current (by simp [frames])
    have hold : ∀ frame ∈ walk.stack, frame.level ≤ walk.deepest :=
      fun frame hf => hlevel frame (by simp [frames, hf])
    rcases visit_cases meter fragments walk selection rest with
      ⟨_, hvisit⟩ | ⟨selections, path, _, hvisit⟩
    · rw [hvisit]
      refine ⟨hlt, ?_⟩
      intro frame hframe
      rcases List.mem_cons.mp hframe with rfl | hframe
      · exact hcurrent
      · exact hold frame hframe
    · rw [hvisit]
      refine ⟨hlt, ?_⟩
      intro frame hframe
      rcases List.mem_cons.mp hframe with rfl | hframe
      · simp only
        omega
      · rcases List.mem_append.mp hframe with hnew | hframe
        · split at hnew
          · cases hnew
          · rw [List.mem_singleton.mp hnew]
            simp only
            omega
        · have := hold frame hframe
          simp only
          omega
  · refine ⟨hvisited, ?_⟩
    intro frame' hframe
    exact hlevel frame' (by simp only [frames, hstack]; exact List.mem_cons_of_mem _ hframe)

/-- A step turns one pending selection into a visited one, or none. -/
theorem step_pending {walk next : Walk} (h : meter.step fragments walk = .next next) :
    next.visited + meter.pending fragments next.frames =
      walk.visited + meter.pending fragments walk.frames := by
  rcases step_eq_next h with
    ⟨selection, rest, hcurrent, _, rfl⟩ | ⟨hcurrent, frame, stack, hstack, rfl⟩
  · rcases visit_cases meter fragments walk selection rest with
      ⟨hopened, hvisit⟩ | ⟨selections, path, hopened, hvisit⟩
    · simp only [hvisit, Walk.frames, pending, Frame.outline, hcurrent, outline_cons, hopened,
        Outline.visits]
      omega
    · simp only [hvisit, Walk.frames, pending, Frame.outline, hcurrent, outline_cons, hopened,
        Outline.visits]
      split
      · simp only [List.nil_append]
        omega
      · simp only [List.cons_append, List.nil_append, pending, Frame.outline]
        omega
  · simp only [Walk.frames, hstack, pending, Frame.outline, hcurrent, outline_nil,
      Outline.visits, Nat.zero_add]

/-- A step does not change how deep the walk will have seen. -/
theorem step_reaches {walk next : Walk} (hfits : walk.Fits meter)
    (h : meter.step fragments walk = .next next) :
    meter.reaches fragments next.deepest next.frames =
      meter.reaches fragments walk.deepest walk.frames := by
  rcases step_eq_next h with
    ⟨selection, rest, hcurrent, _, rfl⟩ | ⟨hcurrent, frame, stack, hstack, rfl⟩
  · rcases visit_cases meter fragments walk selection rest with
      ⟨hopened, hvisit⟩ | ⟨selections, path, hopened, hvisit⟩
    · simp only [hvisit, Walk.frames, reaches, Frame.outline, hcurrent, outline_cons, hopened,
        Outline.reach]
    · simp only [hvisit, Walk.frames, reaches, Frame.outline, hcurrent, outline_cons, hopened,
        Outline.reach]
      split
      · simp only [List.nil_append, reaches_max]
        omega
      · have := (outline fragments path selections).le_reach meter.closes
          (walk.current.level + 1)
        simp only [List.cons_append, List.nil_append, reaches, Frame.outline, reaches_max]
        omega
  · have hlevel := hfits.level_le walk.current (by simp [Walk.frames])
    have := meter.le_reaches fragments walk.deepest (frame :: stack)
    simp only [Walk.frames, hstack, reaches, Frame.outline, hcurrent, outline_nil,
      Outline.reach] at this ⊢
    omega

/-! ## The whole walk -/

theorem run_of_finished {walk : Walk} (h : meter.step fragments walk = .finished) :
    meter.run fragments walk = ⟨.int walk.deepest, false⟩ := by
  rw [run]
  split <;> simp_all

theorem run_of_exhausted {walk : Walk} (h : meter.step fragments walk = .exhausted) :
    meter.run fragments walk = ⟨meter.abandoned walk, true⟩ := by
  rw [run]
  split <;> simp_all

theorem run_of_next {walk next : Walk} (h : meter.step fragments walk = .next next) :
    meter.run fragments walk = meter.run fragments next := by
  rw [run]
  split <;> simp_all

/-- A walk that the budget allows reports the deepest level there is to see. One that it does
not allow reports the cap, or the budget where there is no cap, unless it has seen deeper. -/
theorem run_spec (fragments : Option (List Fragment)) {walk : Walk}
    (hfits : walk.Fits meter) :
    (walk.visited + meter.pending fragments walk.frames ≤ meter.budget →
      meter.run fragments walk =
        ⟨.int (meter.reaches fragments walk.deepest walk.frames), false⟩) ∧
    (meter.budget < walk.visited + meter.pending fragments walk.frames →
      ∃ seen, walk.deepest ≤ seen ∧ seen ≤ meter.reaches fragments walk.deepest walk.frames ∧
        meter.run fragments walk =
          ⟨(Quantity.int seen).max (meter.cap.getD (.int meter.budget)), true⟩) := by
  -- along the run: both sums that the cases compare are kept by every step
  induction walk using DepthMeter.run.induct meter fragments with
  | case1 walk hstep =>
    obtain ⟨hcurrent, hstack⟩ := step_eq_finished hstep
    have hlevel := hfits.level_le walk.current (by simp [Walk.frames])
    have hvisited := hfits.visited_le
    have hpending : meter.pending fragments walk.frames = 0 := by
      simp [Walk.frames, pending, Frame.outline, hcurrent, hstack, Outline.visits]
    have hreaches : meter.reaches fragments walk.deepest walk.frames = walk.deepest := by
      simp only [Walk.frames, reaches, Frame.outline, hcurrent, hstack, outline_nil, Outline.reach]
      omega
    refine ⟨fun _ => ?_, fun hlt => by omega⟩
    rw [run_of_finished hstep, hreaches]
  | case2 walk hstep =>
    obtain ⟨⟨selection, rest, hcurrent⟩, hbudget⟩ := step_eq_exhausted hstep
    have hpending : 0 < meter.pending fragments walk.frames := by
      simp only [Walk.frames, pending, Frame.outline, hcurrent, outline_cons]
      split <;> simp only [Outline.visits] <;> omega
    exact ⟨fun hle => by omega, fun _ =>
      ⟨walk.deepest, Int.le_refl _, le_reaches _ _ _ _, run_of_exhausted hstep⟩⟩
  | case3 walk next hstep ih =>
    obtain ⟨hwithin, hbeyond⟩ := ih (hfits.step hstep)
    rw [step_pending hstep, step_reaches hfits hstep] at hwithin hbeyond
    have hdeepest : walk.deepest ≤ next.deepest := by
      rcases step_eq_next hstep with ⟨selection, rest, _, _, rfl⟩ | ⟨_, _, _, _, rfl⟩
      · simp only [visit]
        split <;> omega
      · exact Int.le_refl _
    refine ⟨fun hle => by rw [run_of_next hstep, hwithin hle], fun hlt => ?_⟩
    obtain ⟨seen, hseen, hle, heq⟩ := hbeyond hlt
    exact ⟨seen, by omega, hle, by rw [run_of_next hstep, heq]⟩

/-- The report on a set at `level`, read off its outline. -/
theorem measure_spec (meter : DepthMeter) (fragments : Option (List Fragment))
    (selections : SelectionSet) (level : Int) :
    ((outlineOf fragments selections).visits meter.closes level ≤ meter.budget →
      meter.measure fragments selections level =
        ⟨.int ((outlineOf fragments selections).reach meter.closes level), false⟩) ∧
    (meter.budget < (outlineOf fragments selections).visits meter.closes level →
      ∃ seen, level ≤ seen ∧ seen ≤ (outlineOf fragments selections).reach meter.closes level ∧
        meter.measure fragments selections level =
          ⟨(Quantity.int seen).max (meter.cap.getD (.int meter.budget)), true⟩) := by
  cases selections with
  | none => simp [outlineOf, measure, Outline.visits, Outline.reach]
  | some selections =>
    have hfits : (Walk.mk ⟨selections, level, []⟩ [] 0 level).Fits meter :=
      ⟨Nat.zero_le _, by simp [Walk.frames]⟩
    have hspec := run_spec fragments hfits
    have hreach := (outline fragments [] selections).le_reach meter.closes level
    simp only [Walk.frames, pending, reaches, Frame.outline, Nat.zero_add, Nat.add_zero,
      Int.max_eq_left hreach] at hspec
    exact hspec

/-! ## Walks that report alike -/

/-- Stacked sets at the same level with the same outline, each under its own fragments. -/
def Frame.Alike (fragments fragments' : Option (List Fragment)) (a b : Frame) : Prop :=
  a.level = b.level ∧ a.outline fragments = b.outline fragments'

/-- Walks that have seen the same, over sets that are alike. -/
structure Walk.Alike (fragments fragments' : Option (List Fragment)) (a b : Walk) : Prop where
  current : a.current.Alike fragments fragments' b.current
  stack : List.Forall₂ (Frame.Alike fragments fragments') a.stack b.stack
  visited : a.visited = b.visited
  deepest : a.deepest = b.deepest

/-- Steps with the same outcome. -/
inductive Step.Alike (fragments fragments' : Option (List Fragment)) : Step → Step → Prop
  | finished : Alike fragments fragments' .finished .finished
  | exhausted : Alike fragments fragments' .exhausted .exhausted
  | next {a b : Walk} (h : a.Alike fragments fragments' b) :
      Alike fragments fragments' (.next a) (.next b)

theorem step_alike (meter : DepthMeter) {fragments fragments' : Option (List Fragment)}
    {a b : Walk} (h : a.Alike fragments fragments' b) :
    Step.Alike fragments fragments' (meter.step fragments a) (meter.step fragments' b) := by
  obtain ⟨⟨selections, level, path⟩, stack, visited, deepest⟩ := a
  obtain ⟨⟨selections', level', path'⟩, stack', visited', deepest'⟩ := b
  obtain ⟨⟨hlevel, houtline⟩, hstack, hvisited, hdeepest⟩ := h
  simp only [Frame.outline] at hlevel houtline hstack hvisited hdeepest
  subst hlevel hvisited hdeepest
  cases selections with
  | nil =>
    rw [outline_nil] at houtline
    obtain rfl := outline_eq_done houtline.symm
    cases hstack with
    | nil => exact .finished
    | cons hframe hrest => exact .next ⟨hframe, hrest, rfl, rfl⟩
  | cons selection rest =>
    rw [outline_cons] at houtline
    cases hopened : opened fragments path selection with
    | none =>
      rw [hopened] at houtline
      obtain ⟨selection', rest', rfl, hopened', hrest⟩ := outline_eq_leaf houtline.symm
      simp only [step]
      split
      · exact .exhausted
      · exact .next
          { current := ⟨rfl, hrest.symm⟩
            stack := by
              simpa only [visit, entered, hopened, hopened', List.nil_append] using hstack
            visited := rfl
            deepest := by simp only [visit, hopened, hopened', Option.isSome] }
    | some opening =>
      obtain ⟨inner, inside⟩ := opening
      rw [hopened] at houtline
      obtain ⟨selection', rest', inner', inside', rfl, hopened', hinner, hrest⟩ :=
        outline_eq_branch houtline.symm
      simp only [step]
      split
      · exact .exhausted
      · refine .next
          { current := ⟨rfl, hrest.symm⟩
            stack := ?_
            visited := rfl
            deepest := by simp only [visit, hopened, hopened', Option.isSome] }
        simp only [visit, entered, hopened, hopened']
        split
        · exact hstack
        · exact .cons ⟨rfl, hinner.symm⟩ hstack

theorem run_alike {fragments fragments' : Option (List Fragment)} {a b : Walk}
    (h : a.Alike fragments fragments' b) :
    meter.run fragments a = meter.run fragments' b := by
  induction a using DepthMeter.run.induct meter fragments generalizing b with
  | case1 a hstep =>
    have hb := step_alike meter h
    rw [hstep] at hb
    generalize hstep' : meter.step fragments' b = found at hb
    cases hb
    rw [run_of_finished hstep, run_of_finished hstep', h.deepest]
  | case2 a hstep =>
    have hb := step_alike meter h
    rw [hstep] at hb
    generalize hstep' : meter.step fragments' b = found at hb
    cases hb
    rw [run_of_exhausted hstep, run_of_exhausted hstep', abandoned, abandoned, h.deepest]
  | case3 a next hstep ih =>
    have hb := step_alike meter h
    rw [hstep] at hb
    generalize hstep' : meter.step fragments' b = found at hb
    cases hb with
    | next hnext => rw [run_of_next hstep, run_of_next hstep', ih hnext]

/-- The report on a set depends on its outline alone. -/
theorem measure_congr (meter : DepthMeter) {fragments fragments' : Option (List Fragment)}
    {selections selections' : SelectionSet}
    (h : outlineOf fragments selections = outlineOf fragments' selections') (level : Int) :
    meter.measure fragments selections level = meter.measure fragments' selections' level := by
  have hrun : ∀ fragments selections, meter.measure fragments selections level =
      meter.run fragments ⟨⟨selections.getD [], level, []⟩, [], 0, level⟩ := by
    intro fragments selections
    cases selections with
    | none =>
      have hstep : meter.step fragments ⟨⟨[], level, []⟩, [], 0, level⟩ = .finished := rfl
      exact (run_of_finished hstep).symm
    | some selections => rfl
  rw [hrun, hrun]
  exact run_alike ⟨⟨rfl, h⟩, .nil, rfl, rfl⟩

theorem closes_of_cap {cap : Int} (h : meter.cap = some (.int cap)) (level : Int) :
    meter.closes level = decide (cap ≤ level) := by
  simp only [closes, h, Option.any_some, Quantity.int_le_int]

/-- A meter with a cap one level past `limit` reports how deep a set nests, but one past the
limit at most, and this whenever the sets within the limit hold more than the budget. -/
theorem measure_of_cap {limit : Nat} (h : meter.cap = some (.int (limit + 1)))
    (fragments : Option (List Fragment)) (selections : SelectionSet) :
    meter.measure fragments selections 0 =
      if meter.budget < (outlineOf fragments selections).sizeTo limit then
        ⟨.int (limit + 1), true⟩
      else ⟨.int (min (outlineOf fragments selections).height (limit + 1)), false⟩ := by
  obtain ⟨hwithin, hbeyond⟩ := meter.measure_spec fragments selections 0
  have hlevels : ((limit : Int) + 1 - 1 - 0).toNat = limit := by omega
  rw [Outline.visits_of_cap (closes_of_cap h), Outline.reach_of_cap (closes_of_cap h), hlevels]
    at hwithin hbeyond
  split
  · rename_i hlt
    obtain ⟨seen, _, hseen, heq⟩ := hbeyond hlt
    rw [heq, h, Option.getD_some, Quantity.max_int]
    congr 2
    omega
  · rw [hwithin (by omega)]
    congr 2
    omega

end DepthMeter

end QueryAdmission
