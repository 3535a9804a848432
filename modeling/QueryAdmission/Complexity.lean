import QueryAdmission.Cost
import QueryAdmission.Document
import QueryAdmission.Failure

/-! The complexity of a selection set: every field adds its cost and a surcharge for the
page size it asks for, and nested sets are added one level deeper, down to the cutoff.
The recursion runs over the levels that are left. What a fragment adds depends on its
name and those levels alone, so it is worked out once for each pair and then looked up. -/

namespace QueryAdmission

/-- How a selection set is priced. -/
structure Scorer where
  table : CostTable
  /-- The last level whose selections count; the root set is at level zero. -/
  cutoff : Nat
  /-- The argument that asks for a page size. -/
  pageArgument : String
  /-- Page sizes above this one cost no more. -/
  pageCap : Quantity
  /-- What one entry of a page costs. -/
  pageWeight : Quantity
  deriving DecidableEq

namespace Scorer

def standardCutoff : Nat := 7

def standardPageArgument : String := "limit"

def standardPageCap : Quantity := .int 50

/-- One half. -/
def standardPageWeight : Quantity := .float (Binary64.nearest false Binary64.one 2)

def standard : Scorer :=
  ⟨.standard, standardCutoff, standardPageArgument, standardPageCap, standardPageWeight⟩

/-- A scorer, unless its cutoff is negative. -/
def make (table : CostTable) (cutoff : Int) (pageArgument : String)
    (pageCap pageWeight : Quantity) : Except SetupError Scorer :=
  if cutoff < 0 then .error (.negativeCutoff cutoff)
  else .ok ⟨table, cutoff.toNat, pageArgument, pageCap, pageWeight⟩

/-- A total plus a quantity, where the quantity is in range. -/
def addTo (total : Binary64) (q : Quantity) : Except Failure Binary64 :=
  match total.plus? q with
  | some sum => .ok sum
  | none => .error .outOfRange

/-- What a page of `limit` entries costs: negative sizes count as none, and sizes beyond
the cap as the cap. -/
def pagePrice (s : Scorer) (limit : Int) : Except Failure Quantity :=
  match ((Quantity.int (max limit 0)).min s.pageCap).mul? s.pageWeight with
  | some price => .ok price
  | none => .error .outOfRange

/-- The surcharge so far plus that of one argument. Only an integer literal under the page
argument's name has one. -/
def addSurcharge (s : Scorer) (total : Binary64) (argument : Argument) :
    Except Failure Binary64 :=
  if argument.name = s.pageArgument then
    match argument.value with
    | .int text =>
      match WholeNumber.read text with
      | .error e => .error (.literal e)
      | .ok limit => do addTo total (← s.pagePrice limit)
    | _ => .ok total
  else .ok total

/-- The surcharge of a field for its arguments, in their order. -/
def surcharge (s : Scorer) (arguments : List Argument) : Except Failure Binary64 :=
  arguments.foldlM s.addSurcharge Binary64.zero

/-- A field's own share: the total so far, its cost and its surcharge, added in this order. -/
def addField (s : Scorer) (total : Binary64) (name : String) (arguments : List Argument) :
    Except Failure Binary64 := do
  let priced ← addTo total (s.table.costOf name)
  return priced + (← s.surcharge arguments)

/-- What is known of fragments: their scores by name and levels left. -/
abbrev Memo := List ((String × Nat) × Binary64)

/-- What a spread without a set of its own stands for: nothing if no fragments are bound or
none has its name, else the set of the fragment. -/
def resolve? (fragments : Option (List Fragment)) (name : String) : Option SelectionSet :=
  (fragments.bind (Fragment.find? · name)).map (·.selections)

section

/-! The steps of a score are the same wherever a failure can be raised. A fragment whose body is
walked is noted in front of the walk. -/

variable {m : Type → Type} [Monad m] [MonadLiftT (Except Failure) m]

/-- The score of a fragment that is spread with `room` levels left below: from the memo, or
worked out by `inner` and put there. -/
def fromMemo (note : String × Nat → m Unit) (room : Nat)
    (inner : SelectionSet → Memo → m (Binary64 × Memo)) (name : String) (body : SelectionSet)
    (memo : Memo) : m (Binary64 × Memo) :=
  match memo.lookup (name, room) with
  | some known => return (known, memo)
  | none => do
    note (name, room)
    let (score, memo) ← inner body memo
    return (score, ((name, room), score) :: memo)

/-- One selection added to the total, given how sets one level deeper are scored. -/
def addSelection (s : Scorer) (note : String × Nat → m Unit) (fragments : Option (List Fragment))
    (room : Nat) (inner : SelectionSet → Memo → m (Binary64 × Memo)) (state : Binary64 × Memo)
    (selection : Selection) : m (Binary64 × Memo) :=
  let (total, memo) := state
  match selection with
  | .field _ name arguments _ body => do
    let total ← s.addField total name arguments
    match body with
    | none => return (total, memo)
    | some selections =>
      let (nested, memo) ← inner (some selections) memo
      return (total + nested, memo)
  | .inline _ _ body => do
    let (nested, memo) ← inner body memo
    return (total + nested, memo)
  | .spread _ _ (some selections) => do
    let (nested, memo) ← inner (some selections) memo
    return (total + nested, memo)
  | .spread name _ none =>
    match resolve? fragments name with
    | none => return (total + Binary64.zero, memo)
    | some body => do
      let (nested, memo) ← fromMemo note room inner name body memo
      return (total + nested, memo)
  | .other => return (total, memo)

/-- The score of a set with `room` levels left, this one included, and what it taught. -/
def visitWithin (s : Scorer) (note : String × Nat → m Unit) (fragments : Option (List Fragment)) :
    Nat → SelectionSet → Memo → m (Binary64 × Memo)
  | 0, _, memo => return (Binary64.zero, memo)
  | _ + 1, none, memo => return (Binary64.zero, memo)
  | room + 1, some selections, memo =>
    selections.foldlM (s.addSelection note fragments room (s.visitWithin note fragments room))
      (Binary64.zero, memo)

end

/-- Takes no notice of a walk. -/
def unnoted (_ : String × Nat) : Except Failure Unit := .ok ()

/-- A score by itself takes no notice of the walks. -/
def scoreWithin (s : Scorer) (fragments : Option (List Fragment)) :
    Nat → SelectionSet → Memo → Except Failure (Binary64 × Memo) :=
  s.visitWithin unnoted fragments

/-- The levels from `level` down to the cutoff. -/
def room (s : Scorer) (level : Int) : Nat := (s.cutoff + 1 - level).toNat

/-- The score of a selection set that lies at `level`. -/
def score (s : Scorer) (fragments : Option (List Fragment)) (selections : SelectionSet)
    (level : Int) : Except Failure Binary64 :=
  (s.scoreWithin fragments (s.room level) selections []).map Prod.fst

end Scorer

end QueryAdmission
