import QueryAdmission.Document
import QueryAdmission.SetupError

/-! How deep a selection set nests, by a walk with an explicit stack. Every set opens one
level; a spread opens the level of its fragment, unless that fragment is already open on
the way down. A cap stops the descent, and a budget of selections stops the walk: an
exhausted walk reports the cap, or the budget where there is no cap. -/

namespace QueryAdmission

/-- The limits of a walk. -/
structure DepthMeter where
  /-- Sets at this level or deeper are not entered. -/
  cap : Option Quantity
  /-- The most selections that are visited. -/
  budget : Nat
  budget_pos : 0 < budget
  deriving DecidableEq

namespace DepthMeter

def standardBudget : Nat := 10000

theorem toNat_pos {budget : Int} (h : 0 < budget) : 0 < budget.toNat := by omega

/-- A depth meter, unless its budget is not positive. -/
def make (cap : Option Quantity) (budget : Int) : Except SetupError DepthMeter :=
  if h : 0 < budget then .ok ⟨cap, budget.toNat, toNat_pos h⟩ else .error (.emptyBudget budget)

/-- The meter with a cap and the standard budget. -/
def capped (cap : Quantity) : DepthMeter := ⟨some cap, standardBudget, by decide⟩

/-- A selection set that waits to be walked: what is left of it, its level, and the
fragments that are open on the way down to it. -/
structure Frame where
  selections : List Selection
  level : Int
  path : List String

/-- Where a walk stands. -/
structure Walk where
  current : Frame
  stack : List Frame
  visited : Nat
  deepest : Int

/-- What a walk does next. -/
inductive Step where
  | finished
  | exhausted
  | next (walk : Walk)

/-- The set that a selection opens, with the path down to it. -/
def opened (fragments : Option (List Fragment)) (path : List String) :
    Selection → Option (List Selection × List String)
  | .spread name _ none =>
    if name ∈ path then none
    else do
      let fragment ← Fragment.find? (← fragments) name
      return (← fragment.selections, name :: path)
  | selection => selection.body.map (·, path)

/-- Whether a set at `level` is too deep to be entered. -/
def closes (meter : DepthMeter) (level : Int) : Bool :=
  meter.cap.any (·.le (.int level))

/-- What the next selection of the current set adds to the stack: the set it opens, if
that may be entered. -/
def entered (meter : DepthMeter) (fragments : Option (List Fragment)) (current : Frame)
    (selection : Selection) : List Frame :=
  match opened fragments current.path selection with
  | none => []
  | some (selections, path) =>
    if meter.closes (current.level + 1) then [] else [⟨selections, current.level + 1, path⟩]

/-- The walk after the next selection of the current set has been visited. -/
def visit (meter : DepthMeter) (fragments : Option (List Fragment)) (walk : Walk)
    (selection : Selection) (rest : List Selection) : Walk where
  current := { walk.current with selections := rest }
  stack := meter.entered fragments walk.current selection ++ walk.stack
  visited := walk.visited + 1
  deepest :=
    if (opened fragments walk.current.path selection).isSome then
      max walk.deepest (walk.current.level + 1)
    else walk.deepest

/-- One step: visit a selection, or take the next set from the stack. -/
def step (meter : DepthMeter) (fragments : Option (List Fragment)) (walk : Walk) : Step :=
  match walk.current.selections with
  | selection :: rest =>
    if meter.budget ≤ walk.visited then .exhausted
    else .next (meter.visit fragments walk selection rest)
  | [] =>
    match walk.stack with
    | [] => .finished
    | frame :: stack => .next { walk with current := frame, stack := stack }

/-- A bound on the steps to come: a visit uses up one of the budget and stacks at most one
set, and taking a set shortens the stack. -/
def left (meter : DepthMeter) (walk : Walk) : Nat :=
  2 * (meter.budget - walk.visited) + walk.stack.length

theorem length_entered_le (meter : DepthMeter) (fragments : Option (List Fragment))
    (current : Frame) (selection : Selection) :
    (meter.entered fragments current selection).length ≤ 1 := by
  unfold entered
  split
  · simp
  · split <;> simp

theorem left_step_lt {meter : DepthMeter} {fragments : Option (List Fragment)}
    {walk next : Walk} (h : meter.step fragments walk = .next next) :
    meter.left next < meter.left walk := by
  unfold step at h
  split at h
  · rename_i selection rest _
    split at h
    · contradiction
    · cases h
      have := length_entered_le meter fragments walk.current selection
      simp only [left, visit, List.length_append]
      omega
  · split at h
    · contradiction
    · rename_i hstack
      cases h
      simp [left, hstack]

/-- What a walk reports. -/
structure Reading where
  depth : Quantity
  exhausted : Bool
  deriving DecidableEq

/-- The depth of an abandoned walk: the cap or the budget stands for what was not seen. -/
def abandoned (meter : DepthMeter) (walk : Walk) : Quantity :=
  (Quantity.int walk.deepest).max (meter.cap.getD (.int meter.budget))

/-- Walks on to the end. -/
def run (meter : DepthMeter) (fragments : Option (List Fragment)) (walk : Walk) : Reading :=
  match _h : meter.step fragments walk with
  | .finished => ⟨.int walk.deepest, false⟩
  | .exhausted => ⟨meter.abandoned walk, true⟩
  | .next next => meter.run fragments next
termination_by meter.left walk
decreasing_by exact left_step_lt _h

/-- The depth of a selection set that lies at `level`. -/
def measure (meter : DepthMeter) (fragments : Option (List Fragment))
    (selections : SelectionSet) (level : Int) : Reading :=
  match selections with
  | none => ⟨.int level, false⟩
  | some selections => meter.run fragments ⟨⟨selections, level, []⟩, [], 0, level⟩

end DepthMeter

end QueryAdmission
