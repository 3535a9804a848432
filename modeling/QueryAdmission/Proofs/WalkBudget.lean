import QueryAdmission.Proofs.DepthWalk

/-! # How far a walk gets

The budget counts selections only, yet it bounds everything about a walk. A set is stacked
only by a selection that is counted, so sets taken and sets waiting are at most one more
than the selections, the one being the root; and a level is reached only by a selection of
the level above, so the levels are no more than the selections either. Empty sets take from
the stack and put nothing there, and cycles are cut before their fragments are stacked. -/

namespace QueryAdmission

namespace DepthMeter

variable {meter : DepthMeter} {fragments : Option (List Fragment)} {root : Frame}
  {walk next : Walk} {taken : Nat}

/-! ## The points of a walk -/

/-- The walk with nothing but its root on the stack. -/
def Walk.beginning (root : Frame) : Walk := ⟨{ root with selections := [] }, [root], 0, root.level⟩

/-- How many sets the next step takes from the stack: one if the current set is used up. -/
def Walk.takes (walk : Walk) : Nat := if walk.current.selections.isEmpty then 1 else 0

/-- What a walk comes to, step by step, and how many sets it has taken from the stack by
then. -/
inductive Reached (meter : DepthMeter) (fragments : Option (List Fragment)) (root : Frame) :
    Nat → Walk → Prop
  | start : Reached meter fragments root 0 (.beginning root)
  | step {taken : Nat} {walk next : Walk} (h : Reached meter fragments root taken walk)
      (hstep : meter.step fragments walk = .next next) :
      Reached meter fragments root (taken + walk.takes) next

/-- All points of a walk, those within a step included: a selection is counted, even one that
is beyond the budget, before it is looked at, and its level is noted before its set is
stacked. -/
inductive Passes (meter : DepthMeter) (fragments : Option (List Fragment)) (root : Frame) :
    Nat → Walk → Prop
  | between {taken : Nat} {walk : Walk} (h : Reached meter fragments root taken walk) :
      Passes meter fragments root taken walk
  | counted {taken : Nat} {walk : Walk} (h : Reached meter fragments root taken walk)
      (hcurrent : walk.current.selections ≠ []) :
      Passes meter fragments root taken { walk with visited := walk.visited + 1 }
  | noted {taken : Nat} {walk next : Walk} (h : Reached meter fragments root taken walk)
      (hcurrent : walk.current.selections ≠ []) (hstep : meter.step fragments walk = .next next) :
      Passes meter fragments root taken { next with stack := walk.stack }

/-- Whether a level is below a cap; without a cap all are. NaN is no cap. -/
def BelowCap (meter : DepthMeter) (level : Int) : Prop :=
  ∀ cap, meter.cap = some cap → cap ≠ .float .nan → (Quantity.int level).lt cap = true

/-- How far a walk has got, by the selections it has visited. -/
structure Walk.Bounded (meter : DepthMeter) (root : Frame) (taken : Nat) (walk : Walk) :
    Prop where
  root_le : ∀ frame ∈ walk.frames, root.level ≤ frame.level
  le_deepest : ∀ frame ∈ walk.frames, frame.level ≤ walk.deepest
  below_cap : ∀ frame ∈ walk.stack, frame = root ∨ meter.BelowCap frame.level
  taken_le : taken + walk.stack.length ≤ walk.visited + 1
  deepest_le : walk.deepest ≤ root.level + walk.visited

theorem belowCap_of_not_closes {level : Int} (h : meter.closes level = false) :
    meter.BelowCap level := by
  intro cap hcap hnan
  obtain ⟨p, hp⟩ := Option.ne_none_iff_exists'.mp (mt Quantity.point?_eq_none.mp hnan)
  have hlevel : (Quantity.int level).point? = some (.mid (level * Binary64.one)) := rfl
  simpa [closes, hcap, Quantity.le, Quantity.lt, hp, hlevel] using h

/-! ## One step -/

namespace Walk.Bounded

theorem beginning (meter : DepthMeter) (root : Frame) :
    (Walk.beginning root).Bounded meter root 0 where
  root_le := by simp [Walk.beginning, Walk.frames]
  le_deepest := by simp [Walk.beginning, Walk.frames]
  below_cap frame hframe := .inl (List.mem_singleton.mp hframe)
  taken_le := by simp [Walk.beginning]
  deepest_le := by simp [Walk.beginning]

/-- A set that is taken from the stack is the current one. -/
theorem take (h : walk.Bounded meter root taken) {frame : Frame} {stack : List Frame}
    (hstack : walk.stack = frame :: stack) :
    Walk.Bounded meter root (taken + 1) { walk with current := frame, stack := stack } where
  root_le frame' hframe := h.root_le frame'
    (List.mem_cons_of_mem _ (by rw [hstack]; exact hframe))
  le_deepest frame' hframe := h.le_deepest frame'
    (List.mem_cons_of_mem _ (by rw [hstack]; exact hframe))
  below_cap frame' hframe := h.below_cap frame'
    (by rw [hstack]; exact List.mem_cons_of_mem _ hframe)
  taken_le := by
    have := h.taken_le
    rw [hstack, List.length_cons] at this
    simp only
    omega
  deepest_le := h.deepest_le

/-- One more selection is counted, and it may reach a level deeper than the current set. -/
theorem count (h : walk.Bounded meter root taken) {rest : List Selection} {deepest : Int}
    (hle : walk.deepest ≤ deepest)
    (hdeepest : deepest ≤ max walk.deepest (walk.current.level + 1)) :
    Walk.Bounded meter root taken
      ⟨{ walk.current with selections := rest }, walk.stack, walk.visited + 1, deepest⟩ where
  root_le := List.forall_mem_cons.mpr (List.forall_mem_cons.mp h.root_le)
  le_deepest := by
    obtain ⟨hcurrent, hstack⟩ := List.forall_mem_cons.mp h.le_deepest
    exact List.forall_mem_cons.mpr
      ⟨Int.le_trans hcurrent hle, fun frame hframe => Int.le_trans (hstack frame hframe) hle⟩
  below_cap := h.below_cap
  taken_le := Nat.le_succ_of_le h.taken_le
  deepest_le := by
    have hcurrent := h.le_deepest walk.current List.mem_cons_self
    have := h.deepest_le
    simp only
    omega

/-- A set is stacked for a selection that has been counted. -/
theorem push (h : walk.Bounded meter root taken) (hroom : taken + walk.stack.length ≤ walk.visited)
    {frame : Frame} (hroot : root.level ≤ frame.level) (hdeepest : frame.level ≤ walk.deepest)
    (hopen : meter.closes frame.level = false) :
    Walk.Bounded meter root taken { walk with stack := frame :: walk.stack } where
  root_le := by
    obtain ⟨hcurrent, hstack⟩ := List.forall_mem_cons.mp h.root_le
    exact List.forall_mem_cons.mpr ⟨hcurrent, List.forall_mem_cons.mpr ⟨hroot, hstack⟩⟩
  le_deepest := by
    obtain ⟨hcurrent, hstack⟩ := List.forall_mem_cons.mp h.le_deepest
    exact List.forall_mem_cons.mpr ⟨hcurrent, List.forall_mem_cons.mpr ⟨hdeepest, hstack⟩⟩
  below_cap := List.forall_mem_cons.mpr ⟨.inr (belowCap_of_not_closes hopen), h.below_cap⟩
  taken_le := by
    simp only [List.length_cons]
    omega
  deepest_le := h.deepest_le

/-- What a visit has noted before it stacks anything. -/
theorem note (h : walk.Bounded meter root taken) (selection : Selection) (rest : List Selection) :
    Walk.Bounded meter root taken
      { meter.visit fragments walk selection rest with stack := walk.stack } := by
  refine h.count ?_ ?_ <;> simp only [DepthMeter.visit] <;> split <;> omega

theorem visit (h : walk.Bounded meter root taken) (selection : Selection)
    (rest : List Selection) :
    (meter.visit fragments walk selection rest).Bounded meter root taken := by
  have hnoted : Walk.Bounded meter root taken
      { meter.visit fragments walk selection rest with stack := walk.stack } :=
    h.note selection rest
  rcases visit_cases meter fragments walk selection rest with
    ⟨_, hvisit⟩ | ⟨selections, path, _, hvisit⟩
  · rw [hvisit] at hnoted ⊢
    exact hnoted
  · rw [hvisit] at hnoted ⊢
    cases hcloses : meter.closes (walk.current.level + 1) with
    | true => exact hnoted
    | false =>
      have hcurrent := h.root_le walk.current List.mem_cons_self
      have htaken := h.taken_le
      exact hnoted.push (by simp only; omega) (by simp only; omega) (by simp only; omega) hcloses

theorem step (h : walk.Bounded meter root taken) (hstep : meter.step fragments walk = .next next) :
    next.Bounded meter root (taken + walk.takes) := by
  rcases step_eq_next hstep with
    ⟨selection, rest, hcurrent, _, rfl⟩ | ⟨hcurrent, frame, stack, hstack, rfl⟩
  · have htakes : walk.takes = 0 := by rw [Walk.takes, hcurrent]; rfl
    rw [htakes]
    exact h.visit selection rest
  · have htakes : walk.takes = 1 := by rw [Walk.takes, hcurrent]; rfl
    rw [htakes]
    exact h.take hstack

end Walk.Bounded

/-! ## The whole walk -/

theorem Reached.bounded (h : Reached meter fragments root taken walk) :
    walk.Bounded meter root taken := by
  induction h with
  | start => exact .beginning meter root
  | step _ hstep ih => exact ih.step hstep

theorem Reached.fits (h : Reached meter fragments root taken walk) : walk.Fits meter := by
  induction h with
  | start => exact ⟨Nat.zero_le _, by simp [Walk.beginning, Walk.frames]⟩
  | step _ hstep ih => exact ih.step hstep

theorem Passes.bounded (h : Passes meter fragments root taken walk) :
    walk.Bounded meter root taken := by
  cases h with
  | between h => exact h.bounded
  | counted h _ => exact h.bounded.count (Int.le_refl _) (Int.le_max_left _ _)
  | noted h hcurrent hstep =>
    rcases step_eq_next hstep with ⟨selection, rest, _, _, rfl⟩ | ⟨hnone, _⟩
    · exact h.bounded.note selection rest
    · exact absurd hnone hcurrent

/-- Every walk comes to its end, and what it reports there is what is measured. -/
theorem exists_reached_end (h : Reached meter fragments root taken walk) :
    ∃ taken' last, Reached meter fragments root taken' last ∧
      (meter.step fragments last = .finished ∧
          meter.run fragments walk = ⟨.int last.deepest, false⟩ ∨
        meter.step fragments last = .exhausted ∧
          meter.run fragments walk = ⟨meter.abandoned last, true⟩) := by
  induction walk using DepthMeter.run.induct meter fragments generalizing taken with
  | case1 walk hstep => exact ⟨taken, walk, h, .inl ⟨hstep, run_of_finished hstep⟩⟩
  | case2 walk hstep => exact ⟨taken, walk, h, .inr ⟨hstep, run_of_exhausted hstep⟩⟩
  | case3 walk next hstep ih =>
    rw [run_of_next hstep]
    exact ih (h.step hstep)

theorem run_beginning (meter : DepthMeter) (fragments : Option (List Fragment))
    (selections : List Selection) (level : Int) :
    meter.run fragments (.beginning ⟨selections, level, []⟩) =
      meter.measure fragments (some selections) level :=
  run_of_next rfl

/-- The budget bounds the walk of a set, whatever the set and the fragments are: at every point
the stacked sets lie between the root and the deepest level, and below the cap but for the
root; sets taken and stacked are at most one more than the selections counted; and so are
the levels. The walk comes to an end, and up to there visits no more selections than the
budget and takes at most one set more. -/
theorem walk_within_budget (meter : DepthMeter) (fragments : Option (List Fragment))
    (selections : List Selection) (level : Int) :
    (∀ taken walk, Passes meter fragments ⟨selections, level, []⟩ taken walk →
      walk.Bounded meter ⟨selections, level, []⟩ taken) ∧
    (∀ taken walk, Reached meter fragments ⟨selections, level, []⟩ taken walk →
      walk.visited ≤ meter.budget ∧ taken ≤ meter.budget + 1) ∧
    ∃ taken last, Reached meter fragments ⟨selections, level, []⟩ taken last ∧
      (meter.step fragments last = .finished ∧
          meter.measure fragments (some selections) level = ⟨.int last.deepest, false⟩ ∨
        meter.step fragments last = .exhausted ∧
          meter.measure fragments (some selections) level = ⟨meter.abandoned last, true⟩) := by
  refine ⟨fun _ _ => Passes.bounded, ?_, ?_⟩
  · intro taken walk h
    have hvisited := h.fits.visited_le
    have htaken := h.bounded.taken_le
    exact ⟨hvisited, by omega⟩
  · rw [← run_beginning]
    exact exists_reached_end .start

end DepthMeter

end QueryAdmission
