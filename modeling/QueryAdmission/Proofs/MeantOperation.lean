import Mathlib.Data.List.Pairwise
import QueryAdmission.Proofs.MatchingDocuments
import QueryAdmission.Service

/-! # Which operation is meant

The gate judges the first operation that a name means, where a missing or an empty name
means any, and it resolves a spread by the first fragment of its name. An executor takes
the last operation of a name, or the only one where there is no name, and the last
fragment. Where names come once and none is empty, the two agree. -/

namespace QueryAdmission

/-! ## Names that come once -/

theorem nodup_of_distinct {names : List String} (h : distinct names = true) : names.Nodup := by
  induction names with
  | nil => exact List.nodup_nil
  | cons name rest ih =>
    simp only [distinct, Bool.and_eq_true, Bool.not_eq_true', List.contains_eq_mem,
      decide_eq_false_iff_not] at h
    exact List.nodup_cons.mpr ⟨h.1, ih h.2⟩

section Unique

variable {α : Type} {l : List α}

/-- Where the names in a list are distinct, only one element has a name. -/
theorem eq_of_nodup {f : α → Option String} (h : (l.filterMap f).Nodup) {a b : α}
    (ha : a ∈ l) (hb : b ∈ l) {name : String} (hfa : f a = some name) (hfb : f b = some name) :
    a = b := by
  by_contra hne
  have hpairs := List.pairwise_filterMap.mp h
  have hsymm : Std.Symm fun a b => ∀ x, f a = some x → ∀ y, f b = some y → x ≠ y :=
    ⟨fun a b hab x hx y hy => (hab y hy x hx).symm⟩
  exact hpairs.forall ha hb hne name hfa name hfb rfl

/-- What only one element satisfies is found from either end. -/
theorem find?_reverse {p : α → Bool}
    (h : ∀ a ∈ l, ∀ b ∈ l, p a = true → p b = true → a = b) :
    l.reverse.find? p = l.find? p := by
  cases hfound : l.find? p with
  | none =>
    rw [List.find?_eq_none] at hfound ⊢
    exact fun a ha => hfound a (List.mem_reverse.mp ha)
  | some a =>
    have ha := List.mem_of_find?_eq_some hfound
    have hpa := List.find?_some hfound
    cases hlast : l.reverse.find? p with
    | none =>
      rw [List.find?_eq_none] at hlast
      exact absurd hpa (hlast a (List.mem_reverse.mpr ha))
    | some b =>
      have hb := List.mem_reverse.mp (List.mem_of_find?_eq_some hlast)
      rw [h b hb a ha (List.find?_some hlast) hpa]

end Unique

namespace Document

variable {document : Document}

theorem target?_eq (document : Document) (name : Option String) :
    document.target? name = document.operations.find? (·.answersTo name) := by
  rw [operations, List.find?_filterMap]
  rfl

theorem mem_operations {operation : Operation} (h : operation ∈ document.operations) :
    .operation operation ∈ document.definitions := by
  obtain ⟨definition, hmem, hoperation⟩ := List.mem_filterMap.mp h
  cases definition with
  | operation o =>
    obtain rfl := Option.some.inj hoperation
    exact hmem
  | fragment f => cases hoperation
  | typeSystem => cases hoperation

/-! ## What an executor takes -/

theorem mem_of_taken? {name : Option String} {operation : Operation}
    (h : document.taken? name = some operation) : operation ∈ document.operations := by
  cases name with
  | some name => exact List.mem_reverse.mp (List.mem_of_find?_eq_some h)
  | none =>
    simp only [taken?] at h
    split at h
    · rename_i o hone
      obtain rfl := Option.some.inj h
      rw [hone]
      exact List.mem_cons_self
    · cases h

/-- What an executor takes is what the gate targets, if no two operations have one name and none
has an empty one. -/
theorem target?_of_taken? (hnodup : (document.operations.filterMap (·.name)).Nodup)
    (hnames : ∀ operation ∈ document.operations, operation.name ≠ some "")
    {name : Option String} {operation : Operation}
    (h : document.taken? name = some operation) : document.target? name = some operation := by
  have hmem := mem_of_taken? h
  rw [target?_eq]
  cases name with
  | none =>
    simp only [taken?] at h
    split at h
    · rename_i o hone
      obtain rfl := Option.some.inj h
      rw [hone]
      rfl
    · cases h
  | some name =>
    have hname : operation.name = some name := by simpa using List.find?_some h
    -- an executor finds no operation by an empty name, where the gate takes the first
    have hempty : name.isEmpty = false := by
      have hne := hnames operation hmem
      rw [hname] at hne
      simpa using hne
    have hanswers : (fun o : Operation => o.answersTo (some name)) = (·.name == some name) := by
      funext o
      simp only [Operation.answersTo, hempty, Bool.false_or]
    rw [hanswers, ← find?_reverse]
    · exact h
    · intro a ha b hb hpa hpb
      exact eq_of_nodup hnodup ha hb (beq_iff_eq.mp hpa) (beq_iff_eq.mp hpb)

/-- The fragments that an executor takes are those of the gate, if no two have one name. -/
theorem takenFragments_eq (hnodup : (document.fragmentDefinitions.map (·.name)).Nodup) :
    document.takenFragments = document.fragments := by
  rw [← List.filterMap_eq_map] at hnodup
  have hlast : ∀ first ∈ document.fragments,
      document.fragmentDefinitions.reverse.find? (·.name == first.name) = some first := by
    intro first hfirst
    have hmem := Fragment.mem_of_mem_firsts hfirst
    have hone : ∀ f ∈ document.fragmentDefinitions, f.name = first.name → f = first :=
      fun f hf hname => eq_of_nodup hnodup hf hmem (congrArg some hname) rfl
    cases hfound : document.fragmentDefinitions.reverse.find? (·.name == first.name) with
    | none =>
      simpa using List.find?_eq_none.mp hfound first (List.mem_reverse.mpr hmem)
    | some f =>
      rw [hone f (List.mem_reverse.mp (List.mem_of_find?_eq_some hfound))
        (by simpa using List.find?_some hfound)]
  rw [takenFragments, List.filterMap_congr hlast, List.filterMap_some]

/-! ## What valid documents have -/

theorem nodup_operations (h : document.isValid = true) :
    (document.operations.filterMap (·.name)).Nodup := by
  simp only [isValid, namesFit, operationsDistinct, Bool.and_eq_true] at h
  exact nodup_of_distinct (by tauto)

theorem nodup_fragments (h : document.isValid = true) :
    (document.fragmentDefinitions.map (·.name)).Nodup := by
  simp only [isValid, namesFit, Bool.and_eq_true] at h
  exact nodup_of_distinct (by tauto)

end Document

end QueryAdmission
