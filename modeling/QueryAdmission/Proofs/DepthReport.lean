import QueryAdmission.Proofs.DepthWalk
import QueryAdmission.Proofs.SiblingOrder
import QueryAdmission.Proofs.Verdict

/-! # The depth that is reported

With a whole cap or none, the report on a set is settled by the height of its outline and by
the number of selections that lie below the cap. An exhausted walk reports the cap where
the walk starts below it. Without a cap it reports no more levels than selections were
visited, which is the budget at the most: a set that nests deeper than that is understated. -/

namespace QueryAdmission

namespace Outline

/-- How many selections there are in this set and in all sets below it. -/
def size : Outline → Nat
  | .done => 0
  | .leaf rest => rest.size + 1
  | .branch inner rest => inner.size + rest.size + 1

/-- How many selections lie in this set, at `level`, and in the sets below it whose level is
below the cap. -/
def sizeBelow (o : Outline) (cap : Option Int) (level : Int) : Nat :=
  match cap with
  | none => o.size
  | some cap => o.sizeTo (cap - 1 - level).toNat

/-- The deepest level there is from this set at `level` on. A cap cuts off what is deeper,
but never the first level below the set. -/
def depthBelow (o : Outline) (cap : Option Int) (level : Int) : Int :=
  match cap with
  | none => level + o.height
  | some cap => min (level + o.height) (max cap (level + 1))

theorem height_le_size (o : Outline) : o.height ≤ o.size := by
  induction o with
  | done => exact Nat.le_refl 0
  | leaf rest ih =>
    simp only [height, size]
    omega
  | branch inner rest ihi ih =>
    simp only [height, size]
    omega

theorem Shuffled.size_eq {a b : Outline} (h : a.Shuffled b) : a.size = b.size := by
  induction h with
  | refl a => rfl
  | leaf _ ih => rw [size, size, ih]
  | branch _ _ ihi ih => rw [size, size, ihi, ih]
  | swap x y a =>
    cases x <;> cases y <;> simp only [Outline.cons, size] <;> omega
  | trans _ _ ih ih' => exact ih.trans ih'

theorem Shuffled.sizeBelow_eq {a b : Outline} (h : a.Shuffled b) (cap : Option Int)
    (level : Int) : a.sizeBelow cap level = b.sizeBelow cap level := by
  cases cap with
  | none => exact h.size_eq
  | some cap => exact h.sizeTo_eq _

theorem Shuffled.depthBelow_eq {a b : Outline} (h : a.Shuffled b) (cap : Option Int)
    (level : Int) : a.depthBelow cap level = b.depthBelow cap level := by
  cases cap <;> simp only [depthBelow, h.height_eq]

variable {closes : Int → Bool}

/-- Where no set is closed, all selections are visited. -/
theorem visits_of_open (hopen : ∀ level, closes level = false) (o : Outline) (level : Int) :
    o.visits closes level = o.size := by
  induction o generalizing level with
  | done => rfl
  | leaf rest ih => rw [visits, size, ih]
  | branch inner rest ihi ih =>
    rw [visits, size, hopen, ih, ihi]
    rfl

/-- Where no set is closed, the deepest level is seen. -/
theorem reach_of_open (hopen : ∀ level, closes level = false) (o : Outline) (level : Int) :
    o.reach closes level = level + o.height := by
  induction o generalizing level with
  | done =>
    simp only [reach, height]
    omega
  | leaf rest ih => rw [reach, height, ih]
  | branch inner rest ihi ih =>
    rw [reach, hopen, ih, ihi, height]
    simp only [Bool.false_eq_true, if_false]
    omega

end Outline

namespace DepthMeter

variable {meter : DepthMeter} {cap : Option Int} {fragments : Option (List Fragment)}

theorem closes_of_none (h : meter.cap = none) (level : Int) : meter.closes level = false := by
  rw [closes, h]
  rfl

theorem visits_eq_sizeBelow (hcap : meter.cap = cap.map .int) (o : Outline) (level : Int) :
    o.visits meter.closes level = o.sizeBelow cap level := by
  cases cap with
  | none => exact o.visits_of_open (closes_of_none hcap) level
  | some cap => exact o.visits_of_cap (closes_of_cap hcap) level

theorem reach_eq_depthBelow (hcap : meter.cap = cap.map .int) (o : Outline) (level : Int) :
    o.reach meter.closes level = o.depthBelow cap level := by
  cases cap with
  | none => exact o.reach_of_open (closes_of_none hcap) level
  | some cap => exact o.reach_of_cap (closes_of_cap hcap) level

/-! ## Levels and visits -/

/-- A step gets no more levels deeper than it visits selections. -/
theorem step_deepest_le {walk next : Walk} (hfits : walk.Fits meter)
    (h : meter.step fragments walk = .next next) :
    next.deepest + walk.visited ≤ walk.deepest + next.visited := by
  rcases step_eq_next h with ⟨selection, rest, _, _, rfl⟩ | ⟨_, _, _, _, rfl⟩
  · have hlevel := hfits.level_le walk.current (by simp [Walk.frames])
    rcases visit_cases meter fragments walk selection rest with ⟨_, hvisit⟩ | ⟨_, _, _, hvisit⟩ <;>
      rw [hvisit] <;> simp only <;> omega
  · exact Int.le_refl _

/-- An exhausted walk has seen no more levels than it visited selections. -/
theorem run_exhausted {walk : Walk} (hfits : walk.Fits meter)
    (h : (meter.run fragments walk).exhausted = true) :
    ∃ seen : Int, seen + walk.visited ≤ walk.deepest + meter.budget ∧
      (meter.run fragments walk).depth =
        (Quantity.int seen).max (meter.cap.getD (.int meter.budget)) := by
  induction walk using DepthMeter.run.induct meter fragments with
  | case1 walk hstep =>
    rw [run_of_finished hstep] at h
    cases h
  | case2 walk hstep =>
    have hvisited := hfits.visited_le
    exact ⟨walk.deepest, by omega, by rw [run_of_exhausted hstep, abandoned]⟩
  | case3 walk next hstep ih =>
    rw [run_of_next hstep] at h ⊢
    obtain ⟨seen, hseen, hdepth⟩ := ih (hfits.step hstep) h
    have hdeepest := step_deepest_le hfits hstep
    exact ⟨seen, by omega, hdepth⟩

/-- What is abandoned is a walk that has seen levels up to the budget. -/
theorem measure_exhausted {selections : SelectionSet} {level : Int}
    (h : (meter.measure fragments selections level).exhausted = true) :
    ∃ seen : Int, seen ≤ level + meter.budget ∧
      (meter.measure fragments selections level).depth =
        (Quantity.int seen).max (meter.cap.getD (.int meter.budget)) := by
  cases selections with
  | none => cases h
  | some selections =>
    have hfits : (Walk.mk ⟨selections, level, []⟩ [] 0 level).Fits meter :=
      ⟨Nat.zero_le _, by simp [Walk.frames]⟩
    obtain ⟨seen, hseen, hdepth⟩ := run_exhausted hfits h
    exact ⟨seen, by simpa using hseen, hdepth⟩

/-! ## The report -/

/-- Within the budget, the walk reports the deepest level there is below the cap. -/
theorem measure_within (hcap : meter.cap = cap.map .int) {selections : SelectionSet}
    {level : Int} (h : (outlineOf fragments selections).sizeBelow cap level ≤ meter.budget) :
    meter.measure fragments selections level =
      ⟨.int ((outlineOf fragments selections).depthBelow cap level), false⟩ := by
  rw [← visits_eq_sizeBelow hcap] at h
  rw [← reach_eq_depthBelow hcap]
  exact (meter.measure_spec fragments selections level).1 h

/-- Beyond the budget, the walk reports the cap if it starts below it. Without a cap it reports
the budget, or a deeper level that it has seen. -/
theorem measure_beyond (hcap : meter.cap = cap.map .int) {selections : SelectionSet}
    {level : Int} (h : meter.budget < (outlineOf fragments selections).sizeBelow cap level) :
    ∃ depth : Int, meter.measure fragments selections level = ⟨.int depth, true⟩ ∧
      (∀ c, cap = some c → c ≤ depth ∧ (level < c → depth = c)) ∧
      (cap = none → meter.budget ≤ depth ∧ (level = 0 → depth = meter.budget)) := by
  rw [← visits_eq_sizeBelow hcap] at h
  obtain ⟨seen, _, hseen, heq⟩ := (meter.measure_spec fragments selections level).2 h
  rw [reach_eq_depthBelow hcap] at hseen
  cases cap with
  | none =>
    obtain ⟨seen', hseen', hdepth⟩ := measure_exhausted (by rw [heq])
    have hnone : meter.cap = none := hcap
    rw [heq, hnone, Option.getD_none, Quantity.max_int, Quantity.max_int] at hdepth
    rw [heq, hnone, Option.getD_none, Quantity.max_int]
    have hmax := Quantity.int.inj hdepth
    refine ⟨_, rfl, ?_, ?_⟩
    · rintro c ⟨⟩
    · rintro -
      refine ⟨Int.le_max_right _ _, ?_⟩
      rintro rfl
      omega
  | some c =>
    have hsome : meter.cap = some (.int c) := hcap
    rw [heq, hsome, Option.getD_some, Quantity.max_int]
    simp only [Outline.depthBelow] at hseen
    refine ⟨_, rfl, ?_, ?_⟩
    · rintro _ ⟨⟩
      exact ⟨Int.le_max_right _ _, fun hlt => by omega⟩
    · rintro ⟨⟩

/-- What a depth meter with a whole cap, or without one, reports on a selection set. If the
selections below the cap fit the budget, it reports the true depth as far as the cap allows
and logs nothing. If they do not, it logs so once and reports the cap where the walk starts
below it, and the budget where there is no cap and the walk starts at the top. From the top,
the order of siblings makes no difference. -/
theorem measure_exact (hcap : meter.cap = cap.map .int) (fragments : Option (List Fragment))
    (selections : SelectionSet) (level : Int) :
    ((outlineOf fragments selections).sizeBelow cap level ≤ meter.budget →
      meter.measure fragments selections level =
          ⟨.int ((outlineOf fragments selections).depthBelow cap level), false⟩ ∧
        Gate.depthLog meter (meter.measure fragments selections level) = .ok []) ∧
    (meter.budget < (outlineOf fragments selections).sizeBelow cap level →
      ∃ depth : Int, meter.measure fragments selections level = ⟨.int depth, true⟩ ∧
        Gate.depthLog meter (meter.measure fragments selections level) =
          .ok [⟨.warning, Gate.depthLogger, "Depth traversal stopped after " ++
            toString meter.budget ++ " selections; reporting depth " ++ toString depth⟩] ∧
        (∀ c, cap = some c → level < c → depth = c) ∧
        (cap = none → level = 0 → depth = meter.budget)) ∧
    (level = 0 → (∀ c, cap = some c → 1 ≤ c) → ∀ fragments' selections',
      FragmentsMatch SetReordered fragments fragments' →
      SetReordered selections selections' →
      meter.measure fragments' selections' level = meter.measure fragments selections level) := by
  refine ⟨?_, ?_, ?_⟩
  · intro hwithin
    rw [measure_within hcap hwithin]
    exact ⟨rfl, Gate.depthLog_int meter _ false⟩
  · intro hbeyond
    obtain ⟨depth, hdepth, hcapped, huncapped⟩ := measure_beyond hcap hbeyond
    rw [hdepth]
    exact ⟨depth, rfl, Gate.depthLog_int meter depth true, fun c hc => (hcapped c hc).2,
      fun hnone => (huncapped hnone).2⟩
  · rintro rfl hpositive fragments' selections' hfragments hselections
    have hshuffled := outlineOf_reordered hfragments hselections
    by_cases h : (outlineOf fragments selections).sizeBelow cap 0 ≤ meter.budget
    · rw [measure_within hcap h, measure_within hcap (by rwa [← hshuffled.sizeBelow_eq]),
        hshuffled.depthBelow_eq]
    · have h : meter.budget < (outlineOf fragments selections).sizeBelow cap 0 := by omega
      obtain ⟨depth, hdepth, hcapped, huncapped⟩ := measure_beyond hcap h
      rw [hshuffled.sizeBelow_eq] at h
      obtain ⟨depth', hdepth', hcapped', huncapped'⟩ := measure_beyond hcap h
      rw [hdepth, hdepth']
      cases cap with
      | none => rw [(huncapped rfl).2 rfl, (huncapped' rfl).2 rfl]
      | some c =>
        have hc := hpositive c rfl
        rw [(hcapped c rfl).2 (by omega), (hcapped' c rfl).2 (by omega)]

/-- A meter without a cap that visits three selections. -/
def threeVisits : DepthMeter := ⟨none, 3, by decide⟩

/-- A fragment of the given selections, by the name that `spreadOfPerson` spreads. -/
def personOf (selections : List Selection) : List Fragment :=
  [⟨"person", "User", [], some selections⟩]

def spreadOfPerson : List Selection := [.spread "person" [] none]

def friendAndId : List Selection :=
  [.field none "friend" [] [] (some spreadOfPerson), .field none "id" [] [] none]

/-- A cycle with four selections is too much for three visits, in whatever order they stand. -/
theorem measure_exact_cyclic :
    threeVisits.cap = (none : Option Int).map .int ∧
      (outlineOf (some (personOf friendAndId)) (some spreadOfPerson)).sizeBelow none 0 = 4 ∧
      threeVisits.measure (some (personOf friendAndId)) (some spreadOfPerson) 0 =
        ⟨.int 3, true⟩ ∧
      threeVisits.measure (some (personOf friendAndId.reverse)) (some spreadOfPerson) 0 =
        ⟨.int 3, true⟩ := by
  have hcap : threeVisits.cap = (none : Option Int).map .int := rfl
  have hsize : (outlineOf (some (personOf friendAndId)) (some spreadOfPerson)).sizeBelow
      none 0 = 4 := by cbv
  have hspread : SelectionsReordered spreadOfPerson spreadOfPerson :=
    .intro (.cons (.spread .none) .nil) (.refl _)
  have hset : SetReordered (some friendAndId) (some friendAndId.reverse) :=
    .some (.intro (.cons (.field (.some hspread)) (.cons (.field .none) .nil))
      (List.reverse_perm _).symm)
  have hfragments : FragmentsMatch SetReordered (some (personOf friendAndId))
      (some (personOf friendAndId.reverse)) := by
    intro name
    simp only [Option.bind_some, personOf, Fragment.find?, List.find?_cons, List.find?_nil]
    split
    · exact .some hset
    · exact .none
  obtain ⟨_, hbeyond, horder⟩ :=
    measure_exact hcap (some (personOf friendAndId)) (some spreadOfPerson) 0
  obtain ⟨depth, hdepth, _, _, huncapped⟩ := hbeyond (by rw [hsize]; decide)
  obtain rfl := huncapped rfl rfl
  have hreversed := horder rfl (fun c hc => by cases hc) _ _ hfragments (.some hspread)
  exact ⟨hcap, hsize, hdepth, hreversed.trans hdepth⟩

/-! ## How far the report can be trusted -/

/-- No report is less than the cap and the true depth both are. Without a cap, no report is
less than the true depth, as long as the budget has room for as many levels or for all
selections; from the top, a greater depth is always understated. -/
theorem depth_le_measure (hcap : meter.cap = cap.map .int) (fragments : Option (List Fragment))
    (selections : SelectionSet) (level : Int) :
    ∃ depth : Int, (meter.measure fragments selections level).depth = .int depth ∧
      (∀ c, cap = some c → min (level + (outlineOf fragments selections).height) c ≤ depth) ∧
      (cap = none →
        level + (outlineOf fragments selections).height ≤ meter.budget ∨
          (outlineOf fragments selections).size ≤ meter.budget →
        level + (outlineOf fragments selections).height ≤ depth) ∧
      (cap = none → level = 0 →
        ((outlineOf fragments selections).height ≤ depth ↔
          (outlineOf fragments selections).height ≤ meter.budget)) := by
  by_cases h : (outlineOf fragments selections).sizeBelow cap level ≤ meter.budget
  · refine ⟨_, by rw [measure_within hcap h], ?_, ?_, ?_⟩
    · rintro c rfl
      simp only [Outline.depthBelow]
      omega
    · rintro rfl -
      exact Int.le_refl _
    · rintro rfl rfl
      have hsize : (outlineOf fragments selections).size ≤ meter.budget := h
      have hheight := (outlineOf fragments selections).height_le_size
      simp only [Outline.depthBelow]
      omega
  · have hbeyond : meter.budget < (outlineOf fragments selections).sizeBelow cap level := by omega
    obtain ⟨depth, hdepth, hcapped, huncapped⟩ := measure_beyond hcap hbeyond
    refine ⟨depth, by rw [hdepth], ?_, ?_, ?_⟩
    · intro c hc
      have := (hcapped c hc).1
      omega
    · rintro rfl htrusted
      have hsize : ¬ (outlineOf fragments selections).size ≤ meter.budget := h
      have := (huncapped rfl).1
      omega
    · rintro rfl rfl
      rw [(huncapped rfl).2 rfl]
      exact Int.ofNat_le

/-- A meter without a cap that visits one selection. -/
def oneVisit : DepthMeter := ⟨none, 1, by decide⟩

/-- Three fields, each in the set of the one before. -/
def threeLevels : List Selection :=
  [.field none "a" [] [] (some [.field none "b" [] [] (some [.field none "c" [] [] none])])]

theorem height_threeLevels : (outlineOf none (some threeLevels)).height = 2 := by
  cbv

/-- One visit cannot tell how deep three fields nest: the report understates it. -/
theorem measure_understates_threeLevels :
    oneVisit.measure none (some threeLevels) 0 = ⟨.int 1, true⟩ ∧
      (1 : Int) < 0 + (outlineOf none (some threeLevels)).height := by
  refine ⟨by decide +kernel, ?_⟩
  rw [height_threeLevels]
  decide

/-- The same meter with a cap of two. -/
def oneVisitToTwo : DepthMeter := ⟨some (.int 2), 1, by decide⟩

/-- A cap is reported where the budget is used up above it. -/
theorem depth_le_measure_threeLevels :
    oneVisitToTwo.cap = (some 2 : Option Int).map .int ∧
      ∃ depth : Int, (oneVisitToTwo.measure none (some threeLevels) 0).depth = .int depth ∧
        2 ≤ depth := by
  have hcap : oneVisitToTwo.cap = (some 2 : Option Int).map .int := rfl
  obtain ⟨depth, hdepth, hcapped, _⟩ := depth_le_measure hcap none (some threeLevels) 0
  have hle := hcapped 2 rfl
  rw [height_threeLevels] at hle
  exact ⟨hcap, depth, hdepth, hle⟩

end DepthMeter

end QueryAdmission
