import Mathlib.Data.List.Forall2
import QueryAdmission.Gate
import QueryAdmission.Proofs.Outline

/-! # Documents that match definition by definition

Two documents match if their definitions do one by one: of the same kind, with the same
name and type, and with selection sets in a given relation. A request then targets
operations in the same place, and a name stands for fragments in the same place, so the
sets that are evaluated are in that relation too. -/

namespace QueryAdmission

theorem optionRel_imp {α β : Type} {r q : α → β → Prop} (h : ∀ a b, r a b → q a b) {x : Option α}
    {y : Option β} (hxy : Option.Rel r x y) : Option.Rel q x y := by
  cases hxy with
  | none => exact .none
  | some hab => exact .some (h _ _ hab)

/-- Definitions that differ in their selection sets at most, which are related by `R`. -/
inductive Definition.Matches (R : SelectionSet → SelectionSet → Prop) :
    Definition → Definition → Prop
  | operation {o o' : Operation} (type : o.type = o'.type) (name : o.name = o'.name)
      (selections : R o.selections o'.selections) : Matches R (.operation o) (.operation o')
  | fragment {f f' : Fragment} (name : f.name = f'.name)
      (selections : R f.selections f'.selections) : Matches R (.fragment f) (.fragment f')
  | typeSystem : Matches R .typeSystem .typeSystem

/-- Documents whose definitions match one by one. -/
def Document.Matches (R : SelectionSet → SelectionSet → Prop) (d d' : Document) : Prop :=
  List.Forall₂ (Definition.Matches R) d.definitions d'.definitions

theorem Definition.matches_refl {R : SelectionSet → SelectionSet → Prop} (hR : ∀ a, R a a)
    (definition : Definition) : definition.Matches R definition := by
  cases definition with
  | operation o => exact .operation rfl rfl (hR _)
  | fragment f => exact .fragment rfl (hR _)
  | typeSystem => exact .typeSystem

theorem Definition.Matches.trans {R : SelectionSet → SelectionSet → Prop}
    (hR : ∀ a b c, R a b → R b c → R a c) {x y z : Definition} (hxy : x.Matches R y)
    (hyz : y.Matches R z) : x.Matches R z := by
  cases hxy with
  | operation htype hname hset =>
    cases hyz with
    | operation htype' hname' hset' =>
      exact .operation (htype.trans htype') (hname.trans hname') (hR _ _ _ hset hset')
  | fragment hname hset =>
    cases hyz with
    | fragment hname' hset' => exact .fragment (hname.trans hname') (hR _ _ _ hset hset')
  | typeSystem => exact hyz

/-- Fragments under which every name stands for related sets, or for none under both. -/
def FragmentsMatch (R : SelectionSet → SelectionSet → Prop)
    (fragments fragments' : Option (List Fragment)) : Prop :=
  ∀ name, Option.Rel (fun f f' => R f.selections f'.selections)
    (fragments.bind (Fragment.find? · name)) (fragments'.bind (Fragment.find? · name))

/-- The first definition of a name is the one that counts. -/
theorem Fragment.find?_firsts (fragments : List Fragment) (name : String) :
    Fragment.find? (Fragment.firsts fragments) name = Fragment.find? fragments name := by
  induction fragments with
  | nil => rfl
  | cons f rest ih =>
    simp only [Fragment.find?, Fragment.firsts, List.find?_cons] at ih ⊢
    by_cases hname : f.name = name
    · simp only [hname, beq_self_eq_true]
    · simp only [beq_eq_false_iff_ne.mpr hname]
      rw [← ih, List.find?_filter]
      congr 1
      funext g
      by_cases hg : g.name = name
      · simp [hg, Ne.symm hname]
      · simp [hg]

theorem Fragment.mem_of_mem_firsts {f : Fragment} {fragments : List Fragment}
    (h : f ∈ firsts fragments) : f ∈ fragments := by
  induction fragments with
  | nil => exact h
  | cons g rest ih =>
    rcases List.mem_cons.mp h with rfl | h
    · exact List.mem_cons_self
    · exact List.mem_cons_of_mem g (ih (List.mem_filter.mp h).1)

namespace Document

variable {R : SelectionSet → SelectionSet → Prop} {d d' : Document}

theorem find?_fragments (d : Document) (name : String) :
    Fragment.find? d.fragments name = Fragment.find? d.fragmentDefinitions name :=
  Fragment.find?_firsts d.fragmentDefinitions name

theorem mem_of_target? {document : Document} {name : Option String} {operation : Operation}
    (h : document.target? name = some operation) :
    .operation operation ∈ document.definitions := by
  obtain ⟨definition, hfound, hoperation⟩ := Option.bind_eq_some_iff.mp h
  cases definition with
  | operation o =>
    obtain rfl := Option.some.inj hoperation
    exact List.mem_of_find?_eq_some hfound
  | fragment f => cases hoperation
  | typeSystem => cases hoperation

theorem mem_of_mem_fragments {document : Document} {f : Fragment} (h : f ∈ document.fragments) :
    .fragment f ∈ document.definitions := by
  obtain ⟨definition, hmem, hf⟩ := List.mem_filterMap.mp (Fragment.mem_of_mem_firsts h)
  cases definition with
  | operation o => cases hf
  | fragment g =>
    obtain rfl := Option.some.inj hf
    exact hmem
  | typeSystem => cases hf

theorem matches_refl (hR : ∀ a, R a a) (d : Document) : d.Matches R d :=
  List.forall₂_same.mpr fun definition _ => definition.matches_refl hR

theorem Matches.trans (hR : ∀ a b c, R a b → R b c → R a c) {d₁ d₂ d₃ : Document}
    (h : d₁.Matches R d₂) (h' : d₂.Matches R d₃) : d₁.Matches R d₃ := by
  obtain ⟨xs⟩ := d₁
  obtain ⟨ys⟩ := d₂
  obtain ⟨zs⟩ := d₃
  simp only [Matches] at h h' ⊢
  induction h generalizing zs with
  | nil =>
    cases h'
    exact .nil
  | cons hxy _ ih =>
    cases h' with
    | cons hyz h' => exact .cons (hxy.trans hR hyz) (ih _ h')

/-- Matching documents have operations in the same place for a request to target. -/
theorem Matches.target? (h : d.Matches R d') (name : Option String) :
    Option.Rel (fun o o' => o.type = o'.type ∧ o.name = o'.name ∧ R o.selections o'.selections)
      (d.target? name) (d'.target? name) := by
  obtain ⟨definitions⟩ := d
  obtain ⟨definitions'⟩ := d'
  simp only [Matches, Document.target?] at h ⊢
  induction h with
  | nil => exact .none
  | cons hd _ ih =>
    cases hd with
    | @operation o o' htype hname hset =>
      have hanswers : Definition.answersTo name (.operation o) =
          Definition.answersTo name (.operation o') := by
        simp only [Definition.answersTo, Definition.operation?, Option.any_some,
          Operation.answersTo, hname]
      rw [List.find?_cons, List.find?_cons, ← hanswers]
      cases Definition.answersTo name (.operation o) with
      | true => exact .some ⟨htype, hname, hset⟩
      | false => exact ih
    | fragment _ _ => exact ih
    | typeSystem => exact ih

/-- Matching documents have fragments in the same place for a name to stand for. -/
theorem Matches.fragments (h : d.Matches R d') :
    FragmentsMatch R (some d.fragments) (some d'.fragments) := by
  intro name
  simp only [Option.bind_some, find?_fragments]
  obtain ⟨definitions⟩ := d
  obtain ⟨definitions'⟩ := d'
  simp only [Matches, fragmentDefinitions] at h ⊢
  induction h with
  | nil => exact .none
  | cons hd _ ih =>
    cases hd with
    | operation _ _ _ => exact ih
    | @fragment f f' hname hset =>
      simp only [List.filterMap_cons, Definition.fragment?, Fragment.find?,
        List.find?_cons] at ih ⊢
      rw [← hname]
      cases f.name == name with
      | true => exact .some hset
      | false => exact ih
    | typeSystem => exact ih

end Document

/-- Fragments that match in two documents match as far as a gate resolves them. -/
theorem Gate.bound_match (gate : Gate) {R : SelectionSet → SelectionSet → Prop}
    {d d' : Document} (h : d.Matches R d') :
    FragmentsMatch R (gate.bound d) (gate.bound d') := by
  unfold bound
  split
  · exact h.fragments
  · exact fun _ => .none

/-- A bare spread opens sets in relation wherever its name stands for such. -/
theorem DepthMeter.opened_spread_match {R : List Selection → List Selection → Prop}
    {fragments fragments' : Option (List Fragment)}
    (hfragments : FragmentsMatch (Option.Rel R) fragments fragments') (path : List String)
    (name : String) (directives directives' : List Directive) :
    Option.Rel (fun p q => R p.1 q.1 ∧ p.2 = q.2)
      (opened fragments path (.spread name directives none))
      (opened fragments' path (.spread name directives' none)) := by
  have hname := hfragments name
  rw [opened_spread, opened_spread]
  generalize fragments.bind (Fragment.find? · name) = f at hname
  generalize fragments'.bind (Fragment.find? · name) = f' at hname
  split
  · exact .none
  · cases hname with
    | none => exact .none
    | @some f f' hset =>
      simp only [Option.bind_some]
      generalize f.selections = set at hset
      generalize f'.selections = set' at hset
      cases hset with
      | none => exact .none
      | some hxy => exact .some ⟨hxy, rfl⟩

end QueryAdmission
