import QueryAdmission.Document
import QueryAdmission.Syntax.Grammar
import Std.Data.HashMap

/-! How deep selection sets lie in each other once fragments are put in for their spreads.
That depth has the limit that texts have, so fragments that lead back to themselves,
which nest without end, are out too. -/

namespace QueryAdmission

/-- How many selection sets lie in each other in a fragment, by its name. -/
abbrev LevelTable := Std.HashMap String Nat

mutual

/-- How many selection sets lie in each other under a selection. -/
def Selection.levels (known : LevelTable) : Selection → Nat
  | .field _ _ _ _ (some body) => Selection.setLevels known body
  | .inline _ _ (some body) => Selection.setLevels known body
  | .spread name _ _ => known.getD name 0
  | _ => 0

/-- The levels of a selection set, itself included. -/
def Selection.setLevels (known : LevelTable) : List Selection → Nat
  | [] => 1
  | selection :: rest => max (1 + selection.levels known) (Selection.setLevels known rest)

end

namespace Document

/-- Levels by the names of the fragments that have them. -/
def levelTable (fragments : List Fragment) (levels : List Nat) : LevelTable :=
  Std.HashMap.ofList ((fragments.map (·.name)).zip levels)

/-- Rounds over all fragments, until one changes nothing. Each round looks through one more
spread of a chain, and a spread adds a level, so that as many rounds as levels are enough. -/
def deepen (fragments : List Fragment) : Nat → List Nat → List Nat
  | 0, levels => levels
  | rounds + 1, levels =>
    let known := levelTable fragments levels
    let next := fragments.map fun f => Selection.setLevels known (f.selections.getD [])
    if next = levels then levels else deepen fragments rounds next

/-- Whether no more selection sets lie in each other than can be open in a text. -/
def nestsWithinLimit (document : Document) : Bool :=
  let fragments := document.fragmentDefinitions
  let levels := deepen fragments (Grammar.nestingLimit + 1) (fragments.map fun _ => 0)
  let known := levelTable fragments levels
  levels.all (· ≤ Grammar.nestingLimit) && document.operations.all fun o =>
    Selection.setLevels known (o.selections.getD []) ≤ Grammar.nestingLimit

end Document

end QueryAdmission
