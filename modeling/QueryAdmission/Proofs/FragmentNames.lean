import Mathlib.Data.Set.Function
import Mathlib.Logic.Equiv.Basic
import QueryAdmission.Proofs.Inlining

/-! # Names of fragments

What a fragment is called is of no account: names only tell fragments apart. A renaming
that keeps the names of a document apart, in definitions and in spreads alike, leads every
spread to the fragment that it led to before, or to none as before, and finds the same
fragments open on the way down. The first definition of a name stays the first. -/

namespace QueryAdmission

/-! ## Renaming -/

mutual

/-- The selection with all spreads in it renamed. -/
def Selection.renamed (f : String → String) : Selection → Selection
  | .field label name arguments directives body =>
    .field label name arguments directives (renamedSet f body)
  | .inline on directives body => .inline on directives (renamedSet f body)
  | .spread name directives body => .spread (f name) directives (renamedSet f body)
  | .other => .other

def renamedSet (f : String → String) : Option (List Selection) → Option (List Selection)
  | none => none
  | some selections => some (renamedAll f selections)

def renamedAll (f : String → String) : List Selection → List Selection
  | [] => []
  | selection :: rest => selection.renamed f :: renamedAll f rest

end

def Fragment.renamed (f : String → String) (fragment : Fragment) : Fragment :=
  { fragment with name := f fragment.name, selections := renamedSet f fragment.selections }

def Operation.renamed (f : String → String) (operation : Operation) : Operation :=
  { operation with selections := renamedSet f operation.selections }

def Definition.renamed (f : String → String) : Definition → Definition
  | .operation o => .operation (o.renamed f)
  | .fragment g => .fragment (g.renamed f)
  | .typeSystem => .typeSystem

/-- The document with its fragments renamed, where they are defined and where they are spread. -/
def Document.renamed (f : String → String) (d : Document) : Document :=
  ⟨d.definitions.map (·.renamed f)⟩

/-- The names of a document's fragments, and those that are spread somewhere in it. -/
def Document.fragmentNames (d : Document) : Set String :=
  { name | (∃ fragment ∈ d.fragmentDefinitions, fragment.name = name) ∨
    ∃ definition ∈ d.definitions, ∃ selections, definition.set = some selections ∧
      Spreads name selections }

mutual

theorem Selection.renamed_id : ∀ selection : Selection, selection.renamed id = selection
  | .field _ _ _ _ body => by rw [Selection.renamed, renamedSet_id body]
  | .inline _ _ body => by rw [Selection.renamed, renamedSet_id body]
  | .spread _ _ body => by rw [Selection.renamed, renamedSet_id body, id]
  | .other => rfl

theorem renamedSet_id : ∀ set : Option (List Selection), renamedSet id set = set
  | none => rfl
  | some selections => by rw [renamedSet, renamedAll_id selections]

theorem renamedAll_id : ∀ selections : List Selection, renamedAll id selections = selections
  | [] => rfl
  | selection :: rest => by rw [renamedAll, selection.renamed_id, renamedAll_id rest]

end

theorem Fragment.renamed_id (fragment : Fragment) : fragment.renamed id = fragment := by
  rw [renamed, renamedSet_id, id]

variable {f : String → String}

/-! ## Names in a set -/

/-- All bare spreads in the set are of these names. -/
def SpreadsWithin (names : String → Prop) (set : SelectionSet) : Prop :=
  ∀ selections, set = some selections → ∀ name, Spreads name selections → names name

namespace SpreadsWithin

variable {names : String → Prop} {selection : Selection} {selections : List Selection}

theorem getD {set : SelectionSet} (h : SpreadsWithin names set) :
    SpreadsWithin names (some (set.getD [])) := by
  cases set with
  | none =>
    intro _ he name hspreads
    cases he
    exact absurd hspreads spreads_nil
  | some selections => exact h

theorem mono {smaller : List Selection} (h : SpreadsWithin names (some selections))
    (hsub : smaller ⊆ selections) : SpreadsWithin names (some smaller) := by
  intro _ he name hspreads
  cases he
  exact h _ rfl name (hspreads.mono hsub)

theorem body (h : SpreadsWithin names (some selections)) (hmem : selection ∈ selections) :
    SpreadsWithin names selection.body := by
  intro inner hbody name hspreads
  exact h _ rfl name (.inside hmem hbody hspreads)

end SpreadsWithin

/-! ## Sets and their renamed ones -/

/-- A renaming keeps the given names apart and leads from fragments to renamed ones. Their
spreads are of the given names, too. -/
structure RenamedOn (f : String → String) (names : Set String)
    (fragments fragments' : Option (List Fragment)) : Prop where
  apart : names.InjOn f
  found : ∀ name ∈ names, fragments'.bind (Fragment.find? · (f name)) =
    (fragments.bind (Fragment.find? · name)).map (·.renamed f)
  closed : ∀ name fragment, name ∈ names →
    fragments.bind (Fragment.find? · name) = some fragment →
    SpreadsWithin (· ∈ names) fragment.selections

section Sets

variable {names : Set String} {fragments fragments' : Option (List Fragment)}
  {selection : Selection} {selections : List Selection}

/-- Selections are renamed one by one. -/
theorem forall₂_renamedAll {r : Selection → Selection → Prop} :
    ∀ {selections : List Selection},
      (∀ selection ∈ selections, r selection (selection.renamed f)) →
      List.Forall₂ r selections (renamedAll f selections)
  | [], _ => .nil
  | selection :: _, h =>
    .cons (h selection List.mem_cons_self)
      (forall₂_renamedAll fun x hx => h x (List.mem_cons_of_mem _ hx))

theorem Scorer.addsAlike_renamed {s : Scorer} (h : RenamedOn f names fragments fragments')
    (hset : SpreadsWithin (· ∈ names) (some selections)) (hmem : selection ∈ selections) :
    s.AddsAlike fragments fragments' (fun a b => renamedSet f a = b ∧ SpreadsWithin (· ∈ names) a)
      selection (selection.renamed f) := by
  intro inner inner' hinner total
  have hbody : ∀ set, selection.body = set → inner set = inner' (renamedSet f set) := by
    intro set hset'
    exact hinner _ _ ⟨rfl, hset' ▸ hset.body hmem⟩
  cases selection with
  | field label name arguments directives body =>
    cases body with
    | none => rfl
    | some body => simp only [Selection.renamed, renamedSet, addPlain, hbody (some body) rfl]
  | inline on directives body => simp only [Selection.renamed, addPlain, hbody body rfl]
  | other => rfl
  | spread name directives body =>
    cases body with
    | some body => simp only [Selection.renamed, renamedSet, addPlain, hbody (some body) rfl]
    | none =>
      have hname : name ∈ names := hset _ rfl name (.here hmem)
      simp only [Selection.renamed, renamedSet, addPlain, resolve?, h.found name hname]
      cases hfound : fragments.bind (Fragment.find? · name) with
      | none => rfl
      | some fragment =>
        simp only [Option.map_some, Fragment.renamed,
          hinner _ _ ⟨rfl, h.closed name fragment hname hfound⟩]

/-- A renamed set scores the same. -/
theorem Scorer.score_renamed (s : Scorer) (h : RenamedOn f names fragments fragments')
    {set : SelectionSet} (hset : SpreadsWithin (· ∈ names) set) (level : Int) :
    s.score fragments set level = s.score fragments' (renamedSet f set) level := by
  refine score_congr (R := fun a b => renamedSet f a = b ∧ SpreadsWithin (· ∈ names) a) ?_
    ⟨rfl, hset⟩ level
  intro a b hab
  obtain ⟨rfl, ha⟩ := hab
  cases a with
  | none => exact .none
  | some selections =>
    exact .some (forall₂_renamedAll fun selection hmem => addsAlike_renamed h ha hmem)

/-- An open set and its renamed one, each with the fragments that are open on the way down. -/
structure DepthMeter.RenamedTo (f : String → String) (names : Set String)
    (a b : List Selection × List String) : Prop where
  selections : b.1 = renamedAll f a.1
  path : b.2 = a.2.map f
  spreads : SpreadsWithin (· ∈ names) (some a.1)
  opened : ∀ name ∈ a.2, name ∈ names

/-- A renamed selection opens the renamed set, below the renamed path. -/
theorem DepthMeter.opened_renamed (h : RenamedOn f names fragments fragments')
    (hset : SpreadsWithin (· ∈ names) (some selections)) (hmem : selection ∈ selections)
    {path : List String} (hpath : ∀ name ∈ path, name ∈ names) :
    Option.Rel (RenamedTo f names) (opened fragments path selection)
      (opened fragments' (path.map f) (selection.renamed f)) := by
  have hopens : ∀ (set : SelectionSet) (inside : List String), SpreadsWithin (· ∈ names) set →
      (∀ name ∈ inside, name ∈ names) →
      Option.Rel (RenamedTo f names) (set.map (·, inside))
        ((renamedSet f set).map (·, inside.map f)) := by
    intro set inside hset hinside
    cases set with
    | none => exact .none
    | some inner => exact .some ⟨rfl, rfl, hset, hinside⟩
  cases selection with
  | field label name arguments directives body => exact hopens _ path (hset.body hmem) hpath
  | inline on directives body => exact hopens _ path (hset.body hmem) hpath
  | other => exact .none
  | spread name directives body =>
    cases body with
    | some body => exact hopens _ path (hset.body hmem) hpath
    | none =>
      have hname : name ∈ names := hset _ rfl name (.here hmem)
      -- a name on the path is kept apart from this one, or it is this one
      have hopen : f name ∈ path.map f ↔ name ∈ path := by
        rw [List.mem_map]
        constructor
        · intro hmapped
          obtain ⟨other, hother, heq⟩ := hmapped
          rwa [← h.apart (hpath other hother) hname heq]
        · exact fun hmem => ⟨name, hmem, rfl⟩
      rw [Selection.renamed, renamedSet, opened_spread, opened_spread, h.found name hname]
      simp only [hopen]
      split
      · exact .none
      · cases hfound : fragments.bind (Fragment.find? · name) with
        | none => exact .none
        | some fragment =>
          exact hopens fragment.selections (name :: path) (h.closed name fragment hname hfound)
            (List.forall_mem_cons.mpr ⟨hname, hpath⟩)

/-- A renamed set has the same outline. -/
theorem DepthMeter.outlineOf_renamed (h : RenamedOn f names fragments fragments')
    {set : SelectionSet} (hset : SpreadsWithin (· ∈ names) set) :
    outlineOf fragments set = outlineOf fragments' (renamedSet f set) := by
  refine outline_congr (R := RenamedTo f names) ?_ [] _ _ [] ⟨?_, rfl, ?_, ?_⟩
  · intro xs path _ _ hR
    obtain ⟨rfl, rfl, hset, hpath⟩ := hR
    cases xs with
    | nil => exact .inl ⟨rfl, rfl⟩
    | cons x rest =>
      exact .inr ⟨x, rest, _, _, rfl, rfl,
        ⟨rfl, rfl, hset.mono (List.subset_cons_self x rest), hpath⟩,
        opened_renamed h hset List.mem_cons_self hpath⟩
  · cases set <;> rfl
  · exact hset.getD
  · exact fun _ hmem => by cases hmem

end Sets

/-! ## Documents and their renamed ones -/

namespace Document

theorem target?_renamed (d : Document) (name : Option String) :
    (d.renamed f).target? name = (d.target? name).map (·.renamed f) := by
  have hanswers : (fun definition : Definition => (definition.renamed f).answersTo name) =
      (·.answersTo name) := by
    funext definition
    cases definition <;> rfl
  have hoperation : ∀ definition : Definition, (definition.renamed f).operation? =
      definition.operation?.map (·.renamed f) := by
    intro definition
    cases definition <;> rfl
  rw [target?, target?, renamed, List.find?_map, Function.comp_def, hanswers]
  cases d.definitions.find? (·.answersTo name) with
  | none => rfl
  | some definition => exact hoperation definition

theorem fragmentDefinitions_renamed (d : Document) :
    (d.renamed f).fragmentDefinitions = d.fragmentDefinitions.map (·.renamed f) := by
  have hfragment : ∀ definition : Definition, (definition.renamed f).fragment? =
      definition.fragment?.map (·.renamed f) := by
    intro definition
    cases definition <;> rfl
  rw [fragmentDefinitions, fragmentDefinitions, renamed, List.filterMap_map, List.map_filterMap]
  congr 1
  funext definition
  exact hfragment definition

theorem find?_fragments_renamed {d : Document} (hapart : d.fragmentNames.InjOn f) {name : String}
    (hname : name ∈ d.fragmentNames) :
    Fragment.find? (d.renamed f).fragments (f name) =
      (Fragment.find? d.fragments name).map (·.renamed f) := by
  have hsame : ∀ fragment ∈ d.fragmentDefinitions,
      (f fragment.name == f name) = (fragment.name == name) := by
    intro fragment hmem
    have h := hapart.eq_iff (x := fragment.name) (.inl ⟨fragment, hmem, rfl⟩) hname
    exact Bool.eq_iff_iff.mpr (by simpa only [beq_iff_eq] using h)
  rw [find?_fragments, find?_fragments, fragmentDefinitions_renamed]
  generalize d.fragmentDefinitions = fragments at hsame
  induction fragments with
  | nil => rfl
  | cons fragment rest ih =>
    have ih := ih fun other hmem => hsame other (List.mem_cons_of_mem _ hmem)
    simp only [Fragment.find?] at ih ⊢
    rw [List.map_cons, List.find?_cons, List.find?_cons, ← hsame fragment List.mem_cons_self, ih]
    simp only [Fragment.renamed]
    split <;> rfl

theorem spreadsWithin_fragmentNames {d : Document} {definition : Definition}
    (hmem : definition ∈ d.definitions) :
    SpreadsWithin (· ∈ d.fragmentNames) definition.set :=
  fun selections hset _ hspreads => .inr ⟨definition, hmem, selections, hset, hspreads⟩

end Document

namespace Gate

/-- As far as a gate resolves fragments, a renaming leads from those of a document to those of
the renamed one. -/
theorem renamedOn (gate : Gate) {d : Document} (hapart : d.fragmentNames.InjOn f) :
    RenamedOn f d.fragmentNames (gate.bound d) (gate.bound (d.renamed f)) := by
  unfold bound
  split
  · refine ⟨hapart, ?_, ?_⟩
    · intro name hname
      exact Document.find?_fragments_renamed hapart hname
    · intro name fragment _ hfound
      exact Document.spreadsWithin_fragmentNames
        (Document.mem_of_mem_fragments (List.mem_of_find?_eq_some hfound))
  · exact ⟨hapart, fun _ _ => rfl, fun _ _ _ hfound => by cases hfound⟩

/-- Renaming fragments, so that different names stay different, changes nothing in what a gate
finds: neither the complexity nor the failure to compute it, nor the depth, the decision or
the log. -/
theorem findings_renamed (gate : Gate) {d : Document} (hapart : d.fragmentNames.InjOn f)
    (name : Option String) :
    gate.findings (some (d.renamed f)) name = gate.findings (some d) name := by
  refine (findings_congr ?_).symm
  rw [d.target?_renamed]
  cases htarget : d.target? name with
  | none => exact .none
  | some operation =>
    have hrenamed := gate.renamedOn hapart
    have hset : SpreadsWithin (· ∈ d.fragmentNames) operation.selections :=
      Document.spreadsWithin_fragmentNames (Document.mem_of_target? htarget)
    exact .some ⟨rfl, rfl, gate.scorer.score_renamed hrenamed hset 0,
      gate.meter.measure_congr (DepthMeter.outlineOf_renamed hrenamed hset) 0⟩

/-- A query that spreads a fragment, a name that stands for none, and a second fragment. The
first name is defined twice, and the fragments spread each other. -/
def tangledDocument (a b missing : String) : Document :=
  ⟨[.operation ⟨.query, none, [], [],
      some [.spread a [] none, .spread missing [] none, .spread b [] none]⟩,
    .fragment ⟨a, "User", [], some [.field none "friend" [] [] (some [.spread b [] none])]⟩,
    .fragment ⟨b, "User", [], some [.spread a [] none, .spread missing [] none]⟩,
    .fragment ⟨a, "User", [], some [.field none "id" [] [] none]⟩]⟩

/-- A name that stands for no fragment can change places with one that does. -/
theorem findings_renamed_tangled :
    (tangledDocument "a" "b" "c").fragmentNames.InjOn (Equiv.swap "a" "c") ∧
      (tangledDocument "a" "b" "c").renamed (Equiv.swap "a" "c") = tangledDocument "c" "b" "a" ∧
      standard.findings (some (tangledDocument "c" "b" "a")) none =
        standard.findings (some (tangledDocument "a" "b" "c")) none := by
  have hapart : (tangledDocument "a" "b" "c").fragmentNames.InjOn (Equiv.swap "a" "c") :=
    (Equiv.swap "a" "c").injective.injOn
  have hrenamed : (tangledDocument "a" "b" "c").renamed (Equiv.swap "a" "c") =
      tangledDocument "c" "b" "a" := by
    rfl
  have hfindings := findings_renamed standard hapart none
  rw [hrenamed] at hfindings
  exact ⟨hapart, hrenamed, hfindings⟩

end Gate

end QueryAdmission
