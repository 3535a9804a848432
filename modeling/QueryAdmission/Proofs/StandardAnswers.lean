import QueryAdmission.Proofs.StandardEngine

/-! # Queries of the standard engine

An execution of the standard engine finds a valid query whose values are there in order: every
field that it comes to exists and has its arguments, fields under one key are one field, and the
levels of the answer stay within the bound. So what becomes of the query is up to the resolvers. -/

namespace QueryAdmission

open StudyRoom

/-! ## Places that an execution comes to -/

theorem ComesUp.mono {fragments : List Fragment} {part : List Directive → Option Bool}
    {object : ObjectType} {selection : Selection} {xs ys : List Selection}
    (h : ComesUp fragments part object selection xs) (hsub : xs ⊆ ys) :
    ComesUp fragments part object selection ys := by
  cases h with
  | here hmem => exact .here (hsub hmem)
  | inline hmem hpart happlies hbody => exact .inline (hsub hmem) hpart happlies hbody
  | spread hmem hpart hfound happlies hset => exact .spread (hsub hmem) hpart hfound happlies hset

namespace Document

section

variable {document : Document} {operation : Operation} {part : List Directive → Option Bool}
  {object : ObjectType}

end

end Document

/-! ## Collections without a missing value -/

section

variable {scope : Scope} {object : ObjectType} {fuel : Nat}

end

/-! ## Answers without errors -/

section

variable {α β : Type} {Known : Record → Prop}

/-- Known records are asked for fields that they have, and as long as the answers fit, there is no
error and a value of a kind. -/
abbrev Answering.Clean (Known : Record → Prop) (P : α → Prop) (x : Answering α) : Prop :=
  x.Keeps (·.Proper Known) (·.Fits Known)
    fun answered => answered.errors = [] ∧ ∃ a, answered.value = some a ∧ P a

namespace Answering

theorem Clean.bind {P : α → Prop} {Q : β → Prop} {x : Answering α} {f : α → Answering β}
    (h : x.Clean Known P) (hf : ∀ a, P a → (f a).Clean Known Q) : (x >>= f).Clean Known Q := by
  refine Keeps.bind h (fun _ hnone => ?_) fun errors a ha => ?_
  · obtain ⟨_, a, hvalue, _⟩ := hnone
    cases hvalue
  · obtain ⟨rfl, _, hvalue, hp⟩ := ha
    obtain rfl := Option.some.inj hvalue
    exact hf a hp

theorem Clean.mono {P Q : α → Prop} {x : Answering α} (h : x.Clean Known P)
    (hpq : ∀ a, P a → Q a) : x.Clean Known Q :=
  Execution.Keeps.mono h fun _ ⟨herrors, a, hvalue, ha⟩ => ⟨herrors, a, hvalue, hpq a ha⟩

theorem Clean.absorb {P : α → Prop} {x : Answering α} (h : x.Clean Known P) (nullable : Bool)
    (null : α) : (x.absorb nullable null).Clean Known P := by
  refine Execution.Keeps.map (Execution.Keeps.mono h ?_)
  rintro ⟨errors, value⟩ ⟨herrors, a, rfl, ha⟩
  exact ⟨herrors, a, rfl, ha⟩

end Answering

open Answering

end

/-! ## Records at the levels of an answer -/

/-- What is still to be answered of a query at a record: sets that the execution can come to and
that go together, with fewer levels in them than are left. -/
structure Document.Pending (document : Document) (operation : Operation) (values : Variables)
    (known : LevelTable) (levels : Nat) (object : ObjectType) (sets : List SelectionSet) :
    Prop where
  visits : ∀ set ∈ sets, document.Visits operation (takesPart? values) object (set.getD [])
  together : ∀ {xs ys}, some xs ∈ sets → some ys ∈ sets → document.Together object xs ys
  positive : 0 < levels
  within : ∀ {xs}, some xs ∈ sets → Selection.setLevels known xs < levels

section

variable {document : Document} {operation : Operation} {values : Variables} {known : LevelTable}
  {levels : Nat} {object : ObjectType} {sets : List SelectionSet}

/-- A set that asks for a field is there. -/
theorem exists_set_of_asks {fragments : List Fragment} {part : List Directive → Option Bool}
    {chosen : Chosen} {set : SelectionSet} (h : Asks fragments part object chosen (set.getD [])) :
    ∃ xs, set = some xs := by
  cases set with
  | some xs => exact ⟨xs, rfl⟩
  | none =>
    cases h with
    | field hholds _ => exact absurd hholds not_holds_nil
    | spread hholds _ _ _ => exact absurd hholds not_holds_nil

/-- What the sets under fields of one key ask of an object in their answer is pending, with one
level less. -/
theorem Document.Pending.under (hvalid : document.isValid = true)
    (hsettled : document.Settled known)
    (h : document.Pending operation values known (levels + 1) object sets)
    {fields : List Chosen} {field : Chosen} (hfield : field ∈ fields)
    (hasks : ∀ f ∈ fields, ∃ set ∈ sets,
      Asks document.fragments (takesPart? values) object f (set.getD []))
    (hkey : ∀ f ∈ fields, f.key = field.key) {spec : FieldSpec}
    (hspec : object.field? field.name = some spec) {type : ObjectType}
    (hnext : spec.type.object? = some type) :
    document.Pending operation values known levels type (fields.map (·.body)) := by
  -- each field is asked for by a set, under the name of the first
  have hfrom : ∀ f ∈ fields, ∃ xs, some xs ∈ sets ∧
      Asks document.fragments (takesPart? values) object f xs := by
    intro f hf
    obtain ⟨set, hset, hasked⟩ := hasks f hf
    obtain ⟨xs, rfl⟩ := exists_set_of_asks hasked
    exact ⟨xs, hset, hasked⟩
  obtain ⟨zs, hzs, hfirst⟩ := hfrom field hfield
  have htype : ∀ f ∈ fields, bodyType (some object) f.name = some type := by
    intro f hf
    obtain ⟨xs, hxs, hasked⟩ := hfrom f hf
    obtain ⟨hname, _, _⟩ := (h.together hxs hzs).merge hvalid hasked hfirst (hkey f hf)
    rw [hname, bodyType, fieldSpec?, Option.bind_some, hspec, Option.bind_some, hnext]
  refine ⟨?_, ?_, ?_, ?_⟩
  · intro set hset
    obtain ⟨f, hf, rfl⟩ := List.mem_map.mp hset
    obtain ⟨xs, hxs, hasked⟩ := hfrom f hf
    exact (h.visits _ hxs).under hasked (htype f hf)
  · intro ys ys' hys hys'
    obtain ⟨f, hf, hbody⟩ := List.mem_map.mp hys
    obtain ⟨g, hg, hbody'⟩ := List.mem_map.mp hys'
    obtain ⟨xs, hxs, hasked⟩ := hfrom f hf
    obtain ⟨xs', hxs', hasked'⟩ := hfrom g hg
    exact ((h.together hxs hxs').merge hvalid hasked hasked'
      ((hkey f hf).trans (hkey g hg).symm)).2.2 _ _ _ (htype f hf) hbody hbody'
  · have := h.within hzs
    have := Selection.one_le_setLevels known zs
    omega
  · intro ys hys
    obtain ⟨f, hf, hbody⟩ := List.mem_map.mp hys
    obtain ⟨xs, hxs, hasked⟩ := hfrom f hf
    have := h.within hxs
    have := hsettled.setLevels_lt_of_asks hasked hbody
    omega

end

end QueryAdmission
