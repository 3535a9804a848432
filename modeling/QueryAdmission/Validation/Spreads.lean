import QueryAdmission.Document
import QueryAdmission.Validation.Site

/-! Validation of fragments: they exist, are used, and fit where they are spread. -/

namespace QueryAdmission

open StudyRoom

/-- The names of the fragments spread at some places. -/
def spreadNames (sites : List Site) : List String := sites.filterMap (·.spread?)

namespace Document

/-- Which fragments each fragment spreads. -/
def spreadTable (document : Document) : List (String × List String) :=
  document.fragmentDefinitions.map fun f => (f.name, spreadNames f.sites)

/-- All names that some new ones lead to, known ones included. The first argument bounds the
rounds; every round but the last finds a new fragment. -/
def follow (table : List (String × List String)) : Nat → List String → List String →
    List String
  | 0, known, _ => known
  | rounds + 1, known, new =>
    let next := ((new.flatMap fun name => (table.lookup name).getD []).eraseDups).filter
      (!known.contains ·)
    if next.isEmpty then known else follow table rounds (known ++ next) next

/-- All fragments that some names lead to by a table, those names included. -/
def reach (table : List (String × List String)) (names : List String) : List String :=
  let names := names.eraseDups
  follow table (table.length + names.length) names names

/-- The fragments that an operation uses, directly or through others. -/
def usedBy (document : Document) (operation : Operation) : List String :=
  reach document.spreadTable (spreadNames operation.sites)

/-- How many spreads stand in a fragment. -/
def spreadsIn (table : List (String × List String)) (name : String) : Nat :=
  ((table.lookup name).getD []).length

/-- The steps that it takes to follow an operation's spreads: one for each fragment, and one for
each spread in the operation and in its fragments. -/
def stepsFrom (document : Document) (operation : Operation) : Nat :=
  let table := document.spreadTable
  let names := spreadNames operation.sites
  (reach table names).foldl (fun n name => n + 1 + spreadsIn table name) names.length

/-- The most steps that following spreads may take in a document. -/
def stepLimit : Nat := 50000

/-- Whether the spreads of a document can be followed in not too many steps, from every
operation and once from every fragment to those that it spreads. -/
def spreadsCountable (document : Document) : Bool :=
  let within := document.spreadTable.foldl (fun n entry => n + entry.2.length) 0
  document.operations.foldl (fun n o => n + document.stepsFrom o) within ≤ stepLimit

/-- Whether some operation uses every fragment. -/
def fragmentsUsed (document : Document) : Bool :=
  let used := reach document.spreadTable
    (document.operations.flatMap fun o => spreadNames o.sites)
  document.fragmentDefinitions.all fun f => used.contains f.name

/-- Whether a fragment can apply where it is spread: both types are the same, as far as they
are known. -/
def spreadFits (document : Document) : Site → Bool
  | .spread parent name _ =>
    match Fragment.find? document.fragmentDefinitions name with
    | none => false
    | some f => match parent, objectNamed? f.on with
      | some t, some u => t == u
      | _, _ => true
  | .inline (some t) (some name) _ => match objectNamed? name with
    | some u => t == u
    | none => true
  | _ => true

end Document

end QueryAdmission
