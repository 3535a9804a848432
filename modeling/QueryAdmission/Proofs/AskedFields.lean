import Mathlib.Algebra.GroupWithZero.Nat
import QueryAdmission.Execution

/-! # The fields that a selection set asks for

A selection set asks an object for the fields that it selects directly, through inline
fragments or through spreads, where nothing on the way is skipped and every fragment applies.
An execution collects them step by step and enters every fragment once. What it collects are
exactly the fields that are asked for: no steps are lacking, since a way that never enters a
fragment twice passes every selection of a document at most once. -/

namespace QueryAdmission

open StudyRoom

namespace Selection

def directives : Selection → List Directive
  | .field _ _ _ directives _ => directives
  | .inline _ directives _ => directives
  | .spread _ directives _ => directives
  | .other => []

theorem body_inline (on : Option String) (directives : List Directive) (set : SelectionSet) :
    (Selection.inline on directives set).body = set := rfl

theorem body_spread (name : String) (directives : List Directive) (set : SelectionSet) :
    (Selection.spread name directives set).body = set := rfl

theorem one_le_count (selection : Selection) : 1 ≤ selection.count := by
  cases selection with
  | field _ _ _ _ body => cases body <;> simp [count]
  | inline _ _ body => cases body <;> simp [count]
  | spread _ _ body => cases body <;> simp [count]
  | other => simp [count]

/-- A set is smaller than the selection that carries it. -/
theorem countOf_body_lt (selection : Selection) :
    countOf (selection.body.getD []) < selection.count := by
  cases selection with
  | field _ _ _ _ body => cases body <;> simp [count, body, countOf]
  | inline _ _ body => cases body <;> simp [count, body, countOf]
  | spread _ _ body => cases body <;> simp [count, body, countOf]
  | other => simp [count, body, countOf]

theorem countOf_append (xs ys : List Selection) :
    countOf (xs ++ ys) = countOf xs + countOf ys := by
  induction xs with
  | nil => simp [countOf]
  | cons x xs ih => simp only [List.cons_append, countOf, ih, Nat.add_assoc]

end Selection

/-- A selection takes part in a set, directly or within inline fragments that apply to the
object and take part as well. -/
inductive Holds (part : List Directive → Option Bool) (object : ObjectType)
    (selection : Selection) : List Selection → Prop
  | here {selections : List Selection} (h : selection ∈ selections)
      (hpart : part selection.directives = some true) :
      Holds part object selection selections
  | inline {on : Option String} {directives : List Directive} {body : SelectionSet}
      {selections : List Selection} (h : .inline on directives body ∈ selections)
      (hpart : part directives = some true) (happlies : applies object on = true)
      (hbody : Holds part object selection (body.getD [])) :
      Holds part object selection selections

/-- A selection set asks an object for a field, directly or through fragments, and nothing on
the way is skipped. -/
inductive Asks (fragments : List Fragment) (part : List Directive → Option Bool)
    (object : ObjectType) (chosen : Chosen) : List Selection → Prop
  | field {label : Option String} {name : String} {arguments : List Argument}
      {directives : List Directive} {body : SelectionSet} {selections : List Selection}
      (h : Holds part object (.field label name arguments directives body) selections)
      (hchosen : chosen = ⟨label.getD name, name, arguments, body⟩) :
      Asks fragments part object chosen selections
  | spread {name : String} {directives : List Directive} {body : SelectionSet}
      {fragment : Fragment} {selections : List Selection}
      (h : Holds part object (.spread name directives body) selections)
      (hfound : Fragment.find? fragments name = some fragment)
      (happlies : applies object (some fragment.on) = true)
      (hasks : Asks fragments part object chosen (fragment.selections.getD [])) :
      Asks fragments part object chosen selections

section

variable {fragments : List Fragment} {part : List Directive → Option Bool} {object : ObjectType}

theorem Holds.mono {selection : Selection} {xs ys : List Selection}
    (h : Holds part object selection xs) (hsub : xs ⊆ ys) : Holds part object selection ys := by
  cases h with
  | here hmem hpart => exact .here (hsub hmem) hpart
  | inline hmem hpart happlies hbody => exact .inline (hsub hmem) hpart happlies hbody

theorem Asks.mono {chosen : Chosen} {xs ys : List Selection}
    (h : Asks fragments part object chosen xs) (hsub : xs ⊆ ys) :
    Asks fragments part object chosen ys := by
  cases h with
  | field h hchosen => exact .field (h.mono hsub) hchosen
  | spread h hfound happlies hasks => exact .spread (h.mono hsub) hfound happlies hasks

/-- What an inline fragment asks for, the set around it asks for. -/
theorem Asks.of_inline {chosen : Chosen} {on : Option String} {directives : List Directive}
    {body : SelectionSet} {selections : List Selection}
    (h : .inline on directives body ∈ selections)
    (hpart : part directives = some true) (happlies : applies object on = true)
    (hasks : Asks fragments part object chosen (body.getD [])) :
    Asks fragments part object chosen selections := by
  cases hasks with
  | field hholds hchosen => exact .field (.inline h hpart happlies hholds) hchosen
  | spread hholds hfound happlies' hasks =>
    exact .spread (.inline h hpart happlies hholds) hfound happlies' hasks

/-- What a set with one selection in front holds: that selection, what an inline fragment in
front holds, and what the rest holds. -/
theorem holds_cons_cases {selection first : Selection} {rest : List Selection}
    (h : Holds part object selection (first :: rest)) :
    (selection = first ∧ part first.directives = some true) ∨
      (∃ on directives body, first = .inline on directives body ∧
        part directives = some true ∧ applies object on = true ∧
        Holds part object selection (body.getD [])) ∨
      Holds part object selection rest := by
  cases h with
  | here hmem hpart =>
    rcases List.mem_cons.mp hmem with rfl | hmem
    · exact .inl ⟨rfl, hpart⟩
    · exact .inr (.inr (.here hmem hpart))
  | inline hmem hpart happlies hbody =>
    rcases List.mem_cons.mp hmem with rfl | hmem
    · exact .inr (.inl ⟨_, _, _, rfl, hpart, happlies, hbody⟩)
    · exact .inr (.inr (.inline hmem hpart happlies hbody))

end

/-! ## One step of the collection -/

/-- Fields chosen so far, latest first, and the fragments that have taken part. -/
abbrev Found := List Chosen × List String

/-- What one selection makes of the fields chosen so far. -/
def chooseOne? (scope : Scope) (object : ObjectType) (fuel : Nat) (found : Found) :
    Selection → Option Found
  | .field label name arguments directives body => do
    if ← takesPart? scope.values directives then
      return (⟨label.getD name, name, arguments, body⟩ :: found.1, found.2)
    else return found
  | .inline on directives body => do
    if (← takesPart? scope.values directives) && applies object on then
      choose? scope object fuel (body.getD []) found
    else return found
  | .spread name directives _ =>
    if name ∈ found.2 then return found
    else do
      if ← takesPart? scope.values directives then
        match Fragment.find? scope.fragments name with
        | some f =>
          if applies object (some f.on) then
            choose? scope object fuel (f.selections.getD []) (found.1, name :: found.2)
          else return (found.1, name :: found.2)
        | none => return (found.1, name :: found.2)
      else return found
  | .other => some found

section

variable {scope : Scope} {object : ObjectType} {fuel : Nat} {found after : Found}

theorem choose?_nil (scope : Scope) (object : ObjectType) (fuel : Nat) (found : Found) :
    choose? scope object fuel [] found = some found := by cases fuel <;> rfl

theorem choose?_cons (selection : Selection) (rest : List Selection) :
    choose? scope object (fuel + 1) (selection :: rest) found =
      (chooseOne? scope object fuel found selection).bind (choose? scope object fuel rest) := by
  cases selection with
  | field label name arguments directives body =>
    cases hpart : takesPart? scope.values directives with
    | none => simp [choose?, chooseOne?, hpart]
    | some part => cases part <;> simp [choose?, chooseOne?, hpart]
  | inline on directives body =>
    cases hpart : takesPart? scope.values directives with
    | none => simp [choose?, chooseOne?, hpart]
    | some part => cases part <;> cases happlies : applies object on <;>
        simp [choose?, chooseOne?, hpart, happlies]
  | spread name directives body =>
    by_cases hmem : name ∈ found.2
    · simp [choose?, chooseOne?, hmem]
    · cases hpart : takesPart? scope.values directives with
      | none => simp [choose?, chooseOne?, hmem, hpart]
      | some part =>
        cases part with
        | false => simp [choose?, chooseOne?, hmem, hpart]
        | true =>
          cases hfound : Fragment.find? scope.fragments name with
          | none => simp [choose?, chooseOne?, hmem, hpart, hfound]
          | some f => cases happlies : applies object (some f.on) <;>
              simp [choose?, chooseOne?, hmem, hpart, hfound, happlies]
  | other => simp [choose?, chooseOne?]

/-- What became of one selection. -/
inductive Adds (scope : Scope) (object : ObjectType) (fuel : Nat) (found : Found) :
    Selection → Found → Prop
  /-- It is skipped, or it is no field and no fragment. -/
  | skipped {selection : Selection}
      (h : selection = .other ∨ takesPart? scope.values selection.directives = some false) :
      Adds scope object fuel found selection found
  | field {label : Option String} {name : String} {arguments : List Argument}
      {directives : List Directive} {body : SelectionSet}
      (hpart : takesPart? scope.values directives = some true) :
      Adds scope object fuel found (.field label name arguments directives body)
        (⟨label.getD name, name, arguments, body⟩ :: found.1, found.2)
  | inline {on : Option String} {directives : List Directive} {body : SelectionSet}
      {after : Found} (hpart : takesPart? scope.values directives = some true)
      (happlies : applies object on = true)
      (h : choose? scope object fuel (body.getD []) found = some after) :
      Adds scope object fuel found (.inline on directives body) after
  | inlineApart {on : Option String} {directives : List Directive} {body : SelectionSet}
      (happlies : applies object on = false) :
      Adds scope object fuel found (.inline on directives body) found
  /-- The fragment has taken part before. -/
  | repeated {name : String} {directives : List Directive} {body : SelectionSet}
      (hmem : name ∈ found.2) : Adds scope object fuel found (.spread name directives body) found
  | spread {name : String} {directives : List Directive} {body : SelectionSet}
      {fragment : Fragment} {after : Found} (hmem : name ∉ found.2)
      (hpart : takesPart? scope.values directives = some true)
      (hfound : Fragment.find? scope.fragments name = some fragment)
      (happlies : applies object (some fragment.on) = true)
      (h : choose? scope object fuel (fragment.selections.getD []) (found.1, name :: found.2) =
        some after) :
      Adds scope object fuel found (.spread name directives body) after
  | spreadApart {name : String} {directives : List Directive} {body : SelectionSet}
      (hmem : name ∉ found.2)
      (happlies : ∀ fragment, Fragment.find? scope.fragments name = some fragment →
        applies object (some fragment.on) = false) :
      Adds scope object fuel found (.spread name directives body) (found.1, name :: found.2)

theorem adds_of_chooseOne? {selection : Selection}
    (h : chooseOne? scope object fuel found selection = some after) :
    Adds scope object fuel found selection after := by
  cases selection with
  | field label name arguments directives body =>
    obtain ⟨part, hpart, h⟩ := Option.bind_eq_some_iff.mp h
    cases part with
    | true => cases h; exact .field hpart
    | false => cases h; exact .skipped (.inr hpart)
  | inline on directives body =>
    obtain ⟨part, hpart, h⟩ := Option.bind_eq_some_iff.mp h
    cases part with
    | false => cases h; exact .skipped (.inr hpart)
    | true =>
      cases happlies : applies object on with
      | false => rw [happlies] at h; cases h; exact .inlineApart happlies
      | true => rw [happlies] at h; exact .inline hpart happlies h
  | spread name directives body =>
    simp only [chooseOne?] at h
    split at h
    · rename_i hmem
      cases h
      exact .repeated hmem
    · rename_i hmem
      obtain ⟨part, hpart, h⟩ := Option.bind_eq_some_iff.mp h
      cases part with
      | false => cases h; exact .skipped (.inr hpart)
      | true =>
        cases hfound : Fragment.find? scope.fragments name with
        | none =>
          rw [hfound] at h
          cases h
          exact .spreadApart hmem fun _ hsome => by rw [hfound] at hsome; cases hsome
        | some f =>
          rw [hfound] at h
          cases happlies : applies object (some f.on) with
          | true =>
            simp only [if_true, happlies] at h
            exact .spread hmem hpart hfound happlies h
          | false =>
            simp only [if_true, happlies, Bool.false_eq_true, if_false] at h
            cases h
            refine .spreadApart hmem fun g hg => ?_
            obtain rfl := Option.some.inj (hfound.symm.trans hg)
            exact happlies
  | other => cases h; exact .skipped (.inl rfl)

/-- A collection over a set with a selection in front is one over the rest, behind what the
selection adds. -/
theorem choose?_cons_eq_some {selection : Selection} {rest : List Selection}
    (h : choose? scope object (fuel + 1) (selection :: rest) found = some after) :
    ∃ between, Adds scope object fuel found selection between ∧
      choose? scope object fuel rest between = some after := by
  rw [choose?_cons] at h
  obtain ⟨between, hfirst, hrest⟩ := Option.bind_eq_some_iff.mp h
  exact ⟨between, adds_of_chooseOne? hfirst, hrest⟩

/-! ## Nothing is chosen that is not asked for -/

theorem asks_of_choose? {selections : List Selection}
    (h : choose? scope object fuel selections found = some after) {chosen : Chosen}
    (hmem : chosen ∈ after.1) :
    chosen ∈ found.1 ∨ Asks scope.fragments (takesPart? scope.values) object chosen selections := by
  induction fuel generalizing selections found after with
  | zero => cases h; exact .inl hmem
  | succ fuel ih =>
    cases selections with
    | nil => rw [choose?_nil] at h; cases h; exact .inl hmem
    | cons selection rest =>
      obtain ⟨between, hadds, hrest⟩ := choose?_cons_eq_some h
      rcases ih hrest hmem with hbetween | hasks
      · cases hadds with
        | skipped _ => exact .inl hbetween
        | field hpart =>
          rcases List.mem_cons.mp hbetween with rfl | hbefore
          · exact .inr (.field (.here List.mem_cons_self hpart) rfl)
          · exact .inl hbefore
        | inline hpart happlies hbody =>
          exact (ih hbody hbetween).imp_right (.of_inline List.mem_cons_self hpart happlies)
        | inlineApart _ => exact .inl hbetween
        | repeated _ => exact .inl hbetween
        | spread _ hpart hfound happlies hset =>
          exact (ih hset hbetween).imp_right
            (.spread (.here List.mem_cons_self hpart) hfound happlies)
        | spreadApart _ _ => exact .inl hbetween
      · exact .inr (hasks.mono (List.subset_cons_self _ _))

/-! ## Nothing is left out that is asked for -/

theorem not_holds_nil {part : List Directive → Option Bool} {selection : Selection} :
    ¬Holds part object selection [] := by
  intro h
  cases h with
  | here hmem _ => cases hmem
  | inline hmem _ _ _ => cases hmem

/-- The fields that a set holds are chosen, and the fragments that it spreads have taken part. -/
structure Covers (scope : Scope) (object : ObjectType) (found : Found)
    (selections : List Selection) : Prop where
  fields : ∀ {label name arguments directives body},
    Holds (takesPart? scope.values) object (.field label name arguments directives body)
        selections →
      ⟨label.getD name, name, arguments, body⟩ ∈ found.1
  spreads : ∀ {name directives body},
    Holds (takesPart? scope.values) object (.spread name directives body) selections →
      name ∈ found.2

/-- A collection has gone on: nothing is lost, and whatever fragment took part in between, its
set is covered if it applies. -/
structure Extends (scope : Scope) (object : ObjectType) (found after : Found) : Prop where
  fields : found.1 ⊆ after.1
  fragments : found.2 ⊆ after.2
  closed : ∀ name ∈ after.2, name ∉ found.2 → ∀ fragment,
    Fragment.find? scope.fragments name = some fragment →
      applies object (some fragment.on) = true →
        Covers scope object after (fragment.selections.getD [])

theorem Covers.nil : Covers scope object found [] :=
  ⟨fun h => absurd h not_holds_nil, fun h => absurd h not_holds_nil⟩

theorem Covers.mono {selections : List Selection} (h : Covers scope object found selections)
    (hextends : Extends scope object found after) : Covers scope object after selections :=
  ⟨fun hholds => hextends.fields (h.fields hholds),
    fun hholds => hextends.fragments (h.spreads hholds)⟩

theorem Extends.refl : Extends scope object found found :=
  ⟨List.Subset.refl _, List.Subset.refl _, fun _ hmem hnot => absurd hmem hnot⟩

theorem Extends.trans {between : Found} (h : Extends scope object found between)
    (h' : Extends scope object between after) : Extends scope object found after := by
  refine ⟨List.Subset.trans h.fields h'.fields, List.Subset.trans h.fragments h'.fragments, ?_⟩
  intro name hmem hnot fragment hfound happlies
  by_cases hbetween : name ∈ between.2
  · exact (h.closed name hbetween hnot fragment hfound happlies).mono h'
  · exact h'.closed name hmem hbetween fragment hfound happlies

/-- What covers a selection and the rest of a set covers the set. -/
theorem Covers.cons {selection : Selection} {rest : List Selection}
    (h : Covers scope object found [selection]) (hrest : Covers scope object found rest) :
    Covers scope object found (selection :: rest) := by
  have hcases : ∀ {held : Selection},
      Holds (takesPart? scope.values) object held (selection :: rest) →
      Holds (takesPart? scope.values) object held [selection] ∨
        Holds (takesPart? scope.values) object held rest := by
    intro held hheld
    rcases holds_cons_cases hheld with
      ⟨rfl, hpart⟩ | ⟨on, directives, body, rfl, hpart, happlies, hbody⟩ | hheld
    · exact .inl (.here List.mem_cons_self hpart)
    · exact .inl (.inline List.mem_cons_self hpart happlies hbody)
    · exact .inr hheld
  exact ⟨fun hheld => (hcases hheld).elim h.fields hrest.fields,
    fun hheld => (hcases hheld).elim h.spreads hrest.spreads⟩

/-- What a set of one selection covers, by what the selection holds. -/
theorem Covers.single {selection : Selection}
    (hfield : ∀ label name arguments directives body,
      selection = .field label name arguments directives body →
      takesPart? scope.values directives = some true →
        ⟨label.getD name, name, arguments, body⟩ ∈ found.1)
    (hspread : ∀ name directives body, selection = .spread name directives body →
      takesPart? scope.values directives = some true → name ∈ found.2)
    (hinline : ∀ on directives body, selection = .inline on directives body →
      takesPart? scope.values directives = some true → applies object on = true →
        Covers scope object found (body.getD [])) :
    Covers scope object found [selection] := by
  constructor
  · intro label name arguments directives body hheld
    rcases holds_cons_cases hheld with ⟨rfl, hpart⟩ | ⟨_, _, _, heq, hpart, happlies, hbody⟩ | hheld
    · exact hfield _ _ _ _ _ rfl hpart
    · exact (hinline _ _ _ heq hpart happlies).fields hbody
    · exact absurd hheld not_holds_nil
  · intro name directives body hheld
    rcases holds_cons_cases hheld with ⟨rfl, hpart⟩ | ⟨_, _, _, heq, hpart, happlies, hbody⟩ | hheld
    · exact hspread _ _ _ rfl hpart
    · exact (hinline _ _ _ heq hpart happlies).spreads hbody
    · exact absurd hheld not_holds_nil

namespace Fragment

/-- What the fragments weigh whose names are not among the given ones. -/
def unused (weight : Fragment → Nat) (fragments : List Fragment) (names : List String) : Nat :=
  (fragments.map fun f => if f.name ∈ names then 0 else weight f).sum

theorem unused_anti (weight : Fragment → Nat) (fragments : List Fragment)
    {names names' : List String} (h : names ⊆ names') :
    unused weight fragments names' ≤ unused weight fragments names := by
  induction fragments with
  | nil => exact Nat.le_refl _
  | cons f fragments ih =>
    simp only [unused, List.map_cons, List.sum_cons] at ih ⊢
    by_cases hmem : f.name ∈ names
    · rw [if_pos hmem, if_pos (h hmem)]
      omega
    · rw [if_neg hmem]
      split <;> omega

/-- To enter a fragment uses up what it weighs. -/
theorem unused_enter (weight : Fragment → Nat) {fragments : List Fragment} {name : String}
    {names : List String} {fragment : Fragment}
    (hfound : Fragment.find? fragments name = some fragment) (hnot : name ∉ names) :
    weight fragment + unused weight fragments (name :: names) ≤ unused weight fragments names := by
  have hmem : fragment ∈ fragments := List.mem_of_find?_eq_some hfound
  have hname : fragment.name = name := by simpa using List.find?_some hfound
  obtain ⟨before, behind, rfl⟩ := List.append_of_mem hmem
  have hbefore := unused_anti weight before (List.subset_cons_self name names)
  have hbehind := unused_anti weight behind (List.subset_cons_self name names)
  unfold unused at hbefore hbehind ⊢
  simp only [List.map_append, List.map_cons, List.sum_append, List.sum_cons, hname,
    List.mem_cons_self, if_true, if_neg hnot]
  omega

end Fragment

/-- How many selections lie in the fragments that have not taken part. -/
def remaining (fragments : List Fragment) (names : List String) : Nat :=
  (fragments.map fun f =>
    if f.name ∈ names then 0 else Selection.countOf (f.selections.getD [])).sum

theorem remaining_anti (fragments : List Fragment) {names names' : List String}
    (h : names ⊆ names') : remaining fragments names' ≤ remaining fragments names :=
  Fragment.unused_anti _ fragments h

/-- To enter a fragment uses up what lies in it. -/
theorem remaining_enter {fragments : List Fragment} {name : String} {names : List String}
    {fragment : Fragment} (hfound : Fragment.find? fragments name = some fragment)
    (hnot : name ∉ names) :
    Selection.countOf (fragment.selections.getD []) + remaining fragments (name :: names) ≤
      remaining fragments names :=
  Fragment.unused_enter (fun f => Selection.countOf (f.selections.getD [])) hfound hnot

/-- What one selection adds covers it, if all collections that it starts do so. -/
theorem covers_of_adds {selection : Selection} (h : Adds scope object fuel found selection after)
    (hsets : ∀ {selections : List Selection} {before later : Found},
      choose? scope object fuel selections before = some later →
      Selection.countOf selections + remaining scope.fragments before.2 ≤ fuel →
        Extends scope object before later ∧ Covers scope object later selections)
    (hfuel : selection.count + remaining scope.fragments found.2 ≤ fuel + 1) :
    Extends scope object found after ∧ Covers scope object after [selection] := by
  have hbody := selection.countOf_body_lt
  cases h with
  | skipped hskipped =>
    have hnot : ∀ {directives}, selection.directives = directives → selection ≠ .other →
        takesPart? scope.values directives ≠ some true := by
      rintro _ rfl hne hpart
      rcases hskipped with rfl | hfalse
      · exact hne rfl
      · rw [hfalse] at hpart
        cases hpart
    refine ⟨.refl, .single ?_ ?_ ?_⟩
    · rintro _ _ _ _ _ rfl hpart
      exact absurd hpart (hnot rfl nofun)
    · rintro _ _ _ rfl hpart
      exact absurd hpart (hnot rfl nofun)
    · rintro _ _ _ rfl hpart
      exact absurd hpart (hnot rfl nofun)
  | field hpart =>
    refine ⟨⟨List.subset_cons_self _ _, List.Subset.refl _, fun _ hmem hnot => absurd hmem hnot⟩,
      .single ?_ nofun nofun⟩
    rintro _ _ _ _ _ ⟨rfl, rfl, rfl, rfl, rfl⟩ _
    exact List.mem_cons_self
  | inline hpart happlies hset =>
    obtain ⟨hextends, hcovers⟩ := hsets hset (by rw [Selection.body_inline] at hbody; omega)
    refine ⟨hextends, .single nofun nofun ?_⟩
    rintro _ _ _ ⟨rfl, rfl, rfl⟩ _ _
    exact hcovers
  | inlineApart happlies =>
    refine ⟨.refl, .single nofun nofun ?_⟩
    rintro _ _ _ ⟨rfl, rfl, rfl⟩ _ happlies'
    rw [happlies] at happlies'
    cases happlies'
  | repeated hmem =>
    refine ⟨.refl, .single nofun ?_ nofun⟩
    rintro _ _ _ ⟨rfl, rfl, rfl⟩ _
    exact hmem
  | @spread name directives body fragment _ hmem hpart hfound happlies hset =>
    have henter := remaining_enter hfound hmem
    rw [Selection.body_spread] at hbody
    obtain ⟨hextends, hcovers⟩ := hsets hset (by simp only; omega)
    have hname : name ∈ after.2 := hextends.fragments List.mem_cons_self
    refine ⟨⟨hextends.fields, fun _ h => hextends.fragments (List.mem_cons_of_mem _ h), ?_⟩,
      .single nofun ?_ nofun⟩
    · intro other hother hnot g hg hg'
      by_cases hsame : other = name
      · subst hsame
        obtain rfl := Option.some.inj (hfound.symm.trans hg)
        exact hcovers
      · refine hextends.closed other hother ?_ g hg hg'
        simp [hsame, hnot]
    · rintro _ _ _ ⟨rfl, rfl, rfl⟩ _
      exact hname
  | @spreadApart name directives body hmem happlies =>
    refine ⟨⟨List.Subset.refl _, List.subset_cons_self _ _, ?_⟩, .single nofun ?_ nofun⟩
    · intro other hother hnot g hg hg'
      rcases List.mem_cons.mp hother with rfl | hother
      · rw [happlies g hg] at hg'
        cases hg'
      · exact absurd hother hnot
    · rintro _ _ _ ⟨rfl, rfl, rfl⟩ _
      exact List.mem_cons_self

/-- With as many steps as there are selections still to pass, a collection covers the set. -/
theorem covers_of_choose? {selections : List Selection}
    (h : choose? scope object fuel selections found = some after)
    (hfuel : Selection.countOf selections + remaining scope.fragments found.2 ≤ fuel) :
    Extends scope object found after ∧ Covers scope object after selections := by
  induction fuel generalizing selections found after with
  | zero =>
    cases selections with
    | nil => cases h; exact ⟨.refl, .nil⟩
    | cons selection rest =>
      have := selection.one_le_count
      simp only [Selection.countOf] at hfuel
      omega
  | succ fuel ih =>
    cases selections with
    | nil => rw [choose?_nil] at h; cases h; exact ⟨.refl, .nil⟩
    | cons selection rest =>
      obtain ⟨between, hadds, hrest⟩ := choose?_cons_eq_some h
      have hcount := selection.one_le_count
      simp only [Selection.countOf] at hfuel
      obtain ⟨hfirst, hcovers⟩ := covers_of_adds hadds ih (by omega)
      have hanti := remaining_anti scope.fragments hfirst.fragments
      obtain ⟨hextends, hrest⟩ := ih hrest (by omega)
      exact ⟨hfirst.trans hextends, (hcovers.mono hextends).cons hrest⟩

/-- Where every fragment that took part is covered, a set that is covered asks for nothing else
than what was found. -/
theorem Covers.mem_of_asks (hclosed : Extends scope object ([], []) found) {chosen : Chosen}
    {selections : List Selection} (hcovers : Covers scope object found selections)
    (hasks : Asks scope.fragments (takesPart? scope.values) object chosen selections) :
    chosen ∈ found.1 := by
  induction hasks with
  | field hholds hchosen => exact hchosen ▸ hcovers.fields hholds
  | spread hholds hfound happlies _ ih =>
    exact ih (hclosed.closed _ (hcovers.spreads hholds) List.not_mem_nil _ hfound happlies)

/-! ## Whole collections -/

/-- Whatever sets give together, one of them asks for. -/
theorem asks_of_mem_chosen? {sets : List SelectionSet} {fields : List Chosen}
    (h : chosen? scope object sets = some fields) {chosen : Chosen} (hmem : chosen ∈ fields) :
    ∃ set ∈ sets,
      Asks scope.fragments (takesPart? scope.values) object chosen (set.getD []) := by
  have hfold : ∀ {sets : List SelectionSet} {found after : Found},
      sets.foldlM (fun found set => choose? scope object scope.bound (set.getD []) found) found =
        some after → chosen ∈ after.1 → chosen ∈ found.1 ∨
          ∃ set ∈ sets,
            Asks scope.fragments (takesPart? scope.values) object chosen (set.getD []) := by
    intro sets
    induction sets with
    | nil =>
      intro found after h hmem
      cases h
      exact .inl hmem
    | cons set rest ih =>
      intro found after h hmem
      rw [List.foldlM_cons] at h
      obtain ⟨between, hfirst, hrest⟩ := Option.bind_eq_some_iff.mp h
      rcases ih hrest hmem with hbetween | ⟨other, hother, hasks⟩
      · exact (asks_of_choose? hfirst hbetween).imp_right fun hasks =>
          ⟨set, List.mem_cons_self, hasks⟩
      · exact .inr ⟨other, List.mem_cons_of_mem _ hother, hasks⟩
  obtain ⟨after, hafter, hfields⟩ := Option.bind_eq_some_iff.mp h
  cases hfields
  exact (hfold hafter (List.mem_reverse.mp hmem)).resolve_left List.not_mem_nil

/-- What one set gives is what it asks for, if it and all fragments fit into the bound. -/
theorem mem_chosen?_iff {set : SelectionSet} {fields : List Chosen}
    (h : chosen? scope object [set] = some fields)
    (hbound : Selection.countOf (set.getD []) + remaining scope.fragments [] ≤ scope.bound)
    (chosen : Chosen) :
    chosen ∈ fields ↔
      Asks scope.fragments (takesPart? scope.values) object chosen (set.getD []) := by
  constructor
  · intro hmem
    obtain ⟨other, hother, hasks⟩ := asks_of_mem_chosen? h hmem
    obtain rfl := List.mem_singleton.mp hother
    exact hasks
  · intro hasks
    obtain ⟨after, hafter, hfields⟩ := Option.bind_eq_some_iff.mp h
    cases hfields
    rw [List.foldlM_cons] at hafter
    obtain ⟨between, hfirst, hrest⟩ := Option.bind_eq_some_iff.mp hafter
    cases hrest
    obtain ⟨hextends, hcovers⟩ := covers_of_choose? hfirst hbound
    exact List.mem_reverse.mpr (hcovers.mem_of_asks hextends hasks)

end

/-! ## The bound of an operation -/

namespace Selection

theorem countOf_flatMap {α : Type} (l : List α) (f : α → List Selection) :
    countOf (l.flatMap f) = (l.map fun a => countOf (f a)).sum := by
  induction l with
  | nil => simp [countOf]
  | cons a l ih => simp only [List.flatMap_cons, countOf_append, ih, List.map_cons, List.sum_cons]

end Selection

/-- The bound leaves room for an operation and all its fragments. -/
theorem Operation.bound_eq (operation : Operation) (fragments : List Fragment) :
    operation.bound fragments =
      2 * (Selection.countOf (operation.selections.getD []) + remaining fragments []) + 2 := by
  simp only [bound, remaining, Selection.countOf_flatMap, List.map_cons, List.map_map,
    List.sum_cons, List.not_mem_nil, if_false, Function.comp_def]

end QueryAdmission
