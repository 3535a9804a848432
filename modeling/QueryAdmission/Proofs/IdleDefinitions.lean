import QueryAdmission.Proofs.FragmentNames

/-! # Definitions that do not matter

An evaluation looks at the operation that is meant and at the fragments that it reaches,
and at nothing else in the document. Type-system definitions, other operations, later
definitions of a fragment's name and fragments that are not reached can be inserted
anywhere, and the evaluation stays the same. -/

namespace QueryAdmission

/-! ## Fragments that agree on some names -/

/-- The names stand for the same fragments under both, and these spread no other names. -/
structure AgreeOn (names : String → Prop) (fragments fragments' : Option (List Fragment)) :
    Prop where
  same : ∀ name, names name →
    fragments.bind (Fragment.find? · name) = fragments'.bind (Fragment.find? · name)
  closed : ∀ name fragment, names name →
    fragments.bind (Fragment.find? · name) = some fragment →
    SpreadsWithin names fragment.selections

/-- To agree is to differ by a renaming that renames nothing. -/
theorem AgreeOn.renamedOn {names : String → Prop} {fragments fragments' : Option (List Fragment)}
    (h : AgreeOn names fragments fragments') :
    RenamedOn id { name | names name } fragments fragments' where
  apart := Function.injective_id.injOn
  found name hname := by
    rw [id, ← h.same name hname]
    cases fragments.bind (Fragment.find? · name) with
    | none => rfl
    | some fragment => rw [Option.map_some, fragment.renamed_id]
  closed := h.closed

/-- A set scores the same under fragments that agree on the names in it. -/
theorem Scorer.score_of_agreeOn (s : Scorer) {names : String → Prop}
    {fragments fragments' : Option (List Fragment)} (hagree : AgreeOn names fragments fragments')
    {set : SelectionSet} (hset : SpreadsWithin names set) (level : Int) :
    s.score fragments set level = s.score fragments' set level := by
  rw [s.score_renamed hagree.renamedOn hset, renamedSet_id]

/-- A set has the same outline under fragments that agree on the names in it. -/
theorem DepthMeter.outlineOf_of_agreeOn {names : String → Prop}
    {fragments fragments' : Option (List Fragment)} (hagree : AgreeOn names fragments fragments')
    {set : SelectionSet} (hset : SpreadsWithin names set) :
    outlineOf fragments set = outlineOf fragments' set := by
  rw [outlineOf_renamed hagree.renamedOn hset, renamedSet_id]

/-! ## Insertions -/

/-- A name is reached from an operation: it is spread in the set of the operation, or in that
of a fragment whose name is reached. -/
def Document.Reaches (document : Document) (operation : Operation) (name : String) : Prop :=
  ∃ selections first, operation.selections = some selections ∧ Spreads first selections ∧
    Relation.ReflTransGen (Fragment.Uses document.fragments) first name

/-- A definition that a gate does not look at, between those before and those after it, for a
request with the given operation name. -/
inductive Gate.Ignores (gate : Gate) (name : Option String) (before after : List Definition) :
    Definition → Prop
  | typeSystem : Ignores gate name before after .typeSystem
  /-- The operation that is meant stands before. -/
  | laterOperation (operation : Operation) (h : ∃ d ∈ before, d.answersTo name = true) :
      Ignores gate name before after (.operation operation)
  | otherOperation (operation : Operation) {text : String} (hname : name = some text)
      (htext : text ≠ "") (h : operation.name ≠ some text) :
      Ignores gate name before after (.operation operation)
  | repeatedFragment (fragment : Fragment)
      (h : ∃ earlier, .fragment earlier ∈ before ∧ earlier.name = fragment.name) :
      Ignores gate name before after (.fragment fragment)
  | unreachedFragment (fragment : Fragment)
      (h : ∀ operation, Document.target? ⟨before ++ after⟩ name = some operation →
        ¬Document.Reaches ⟨before ++ after⟩ operation fragment.name) :
      Ignores gate name before after (.fragment fragment)
  | unresolvedFragment (fragment : Fragment) (h : gate.resolveFragments = false) :
      Ignores gate name before after (.fragment fragment)

/-- The second document has one definition more, which the gate ignores. -/
def Gate.Inserts (gate : Gate) (name : Option String) (d d' : Document) : Prop :=
  ∃ before definition after, d = ⟨before ++ after⟩ ∧ d' = ⟨before ++ definition :: after⟩ ∧
    gate.Ignores name before after definition

namespace Document

variable {before after : List Definition} {definition : Definition}

/-- An insertion changes the first definition of a kind only if it is of that kind, and first. -/
theorem find?_insert {p : Definition → Bool} (h : p definition = false ∨ ∃ d ∈ before, p d = true) :
    (before ++ definition :: after).find? p = (before ++ after).find? p := by
  rw [List.find?_append, List.find?_append]
  rcases h with h | ⟨d, hmem, h⟩
  · rw [List.find?_cons_of_neg (by simp [h])]
  · obtain ⟨first, hfirst⟩ := Option.isSome_iff_exists.mp (List.find?_isSome.mpr ⟨d, hmem, h⟩)
    rw [hfirst, Option.some_or, Option.some_or]

theorem target?_insert {name : Option String}
    (h : definition.answersTo name = false ∨ ∃ d ∈ before, d.answersTo name = true) :
    target? ⟨before ++ definition :: after⟩ name = target? ⟨before ++ after⟩ name := by
  rw [target?, target?, find?_insert h]

/-- The fragment of a name is the first definition of it. -/
theorem find?_fragments_eq (d : Document) (name : String) :
    Fragment.find? d.fragments name =
      (d.definitions.find? (·.definesFragment name)).bind Definition.fragment? := by
  rw [find?_fragments, fragmentDefinitions, Fragment.find?]
  induction d.definitions with
  | nil => rfl
  | cons definition rest ih =>
    cases definition with
    | operation o => exact ih
    | typeSystem => exact ih
    | fragment f =>
      by_cases hname : f.name = name
      · simp [Definition.definesFragment, Definition.fragment?, hname]
      · simp [Definition.definesFragment, Definition.fragment?, hname, ih]

theorem find?_fragments_insert {name : String}
    (h : definition.definesFragment name = false ∨
      ∃ d ∈ before, d.definesFragment name = true) :
    Fragment.find? (fragments ⟨before ++ definition :: after⟩) name =
      Fragment.find? (fragments ⟨before ++ after⟩) name := by
  rw [find?_fragments_eq, find?_fragments_eq, find?_insert h]

/-- What an operation spreads itself is reached from it. -/
theorem spreadsWithin_reaches (d : Document) (operation : Operation) :
    SpreadsWithin (d.Reaches operation) operation.selections := by
  intro selections hset name hspreads
  exact ⟨selections, name, hset, hspreads, .refl⟩

end Document

namespace Gate

variable {gate : Gate} {name : Option String} {before after : List Definition}
  {definition : Definition} {d d' : Document}

/-- An ignored definition does not take the place of the operation that is meant. -/
theorem Ignores.target? (h : gate.Ignores name before after definition) :
    Document.target? ⟨before ++ definition :: after⟩ name =
      Document.target? ⟨before ++ after⟩ name := by
  apply Document.target?_insert
  cases h with
  | laterOperation operation h => exact .inr h
  | otherOperation operation hname htext h =>
    subst hname
    left
    simp [Definition.answersTo, Definition.operation?, Operation.answersTo, htext, h]
  | typeSystem => exact .inl rfl
  | repeatedFragment fragment h => exact .inl rfl
  | unreachedFragment fragment h => exact .inl rfl
  | unresolvedFragment fragment h => exact .inl rfl

/-- Where fragments are resolved, an ignored definition does not define what is reached. -/
theorem Ignores.find?_fragments (h : gate.Ignores name before after definition)
    (hresolve : gate.resolveFragments = true) {operation : Operation}
    (htarget : Document.target? ⟨before ++ after⟩ name = some operation) {reached : String}
    (hreached : Document.Reaches ⟨before ++ after⟩ operation reached) :
    Fragment.find? (Document.fragments ⟨before ++ definition :: after⟩) reached =
      Fragment.find? (Document.fragments ⟨before ++ after⟩) reached := by
  apply Document.find?_fragments_insert
  cases h with
  | typeSystem => exact .inl rfl
  | laterOperation operation h => exact .inl rfl
  | otherOperation operation hname htext h => exact .inl rfl
  | repeatedFragment fragment h =>
    obtain ⟨earlier, hmem, hname⟩ := h
    by_cases hsame : fragment.name = reached
    · refine .inr ⟨_, hmem, ?_⟩
      simp [Definition.definesFragment, Definition.fragment?, hname, hsame]
    · left
      simp [Definition.definesFragment, Definition.fragment?, hsame]
  | unreachedFragment fragment h =>
    have hother : fragment.name ≠ reached := by
      intro hsame
      exact h operation htarget (hsame ▸ hreached)
    left
    simp [Definition.definesFragment, Definition.fragment?, hother]
  | unresolvedFragment fragment h =>
    rw [hresolve] at h
    cases h

/-- With an ignored definition inserted, the fragments are the same as far as they are reached. -/
theorem Ignores.agreeOn (h : gate.Ignores name before after definition) {operation : Operation}
    (htarget : Document.target? ⟨before ++ after⟩ name = some operation) :
    AgreeOn (Document.Reaches ⟨before ++ after⟩ operation) (gate.bound ⟨before ++ after⟩)
      (gate.bound ⟨before ++ definition :: after⟩) := by
  unfold bound
  cases hresolve : gate.resolveFragments with
  | false => exact ⟨fun _ _ => rfl, fun _ _ _ hfound => by cases hfound⟩
  | true =>
    constructor
    · intro reached hreached
      exact (h.find?_fragments hresolve htarget hreached).symm
    · intro reached fragment hreached hfound selections hset inner hspreads
      obtain ⟨root, first, hroot, hfirst, hpath⟩ := hreached
      exact ⟨root, first, hroot, hfirst, hpath.tail ⟨fragment, selections, hfound, hset, hspreads⟩⟩

/-- One ignored definition more or less: the evaluation is the same. -/
theorem Ignores.evaluate_eq (h : gate.Ignores name before after definition) :
    gate.evaluate (some ⟨before ++ definition :: after⟩) name =
      gate.evaluate (some ⟨before ++ after⟩) name := by
  simp only [evaluate, h.target?]
  cases htarget : Document.target? ⟨before ++ after⟩ name with
  | none => rfl
  | some operation =>
    have hset := Document.spreadsWithin_reaches ⟨before ++ after⟩ operation
    have hagree := h.agreeOn htarget
    simp only [gate.scorer.score_of_agreeOn hagree hset 0,
      gate.meter.measure_congr (DepthMeter.outlineOf_of_agreeOn hagree hset) 0]

/-- Only the operation that is meant matters, and what it reaches. Any number of definitions
that the gate ignores can be inserted, and the evaluation is the same: complexity or
failure, depth, decision and log. -/
theorem evaluate_of_inserts (h : Relation.ReflTransGen (gate.Inserts name) d d') :
    gate.evaluate (some d') name = gate.evaluate (some d) name := by
  induction h with
  | refl => rfl
  | tail _ hstep ih =>
    obtain ⟨before, definition, after, rfl, rfl, hignores⟩ := hstep
    rw [hignores.evaluate_eq, ih]

/-- The query of the shared document reaches its two fragments and no other. -/
theorem reaches_sharedDocument {operation : Operation} {reached : String}
    (htarget : sharedDocument.target? none = some operation)
    (h : sharedDocument.Reaches operation reached) : reached = "a" ∨ reached = "b" := by
  obtain ⟨selections, first, hset, hspreads, hpath⟩ := h
  induction hpath with
  | refl =>
    cases htarget
    cases hset
    rcases spreads_cons hspreads with ⟨_, hfirst⟩ | ⟨inner, hbody, _⟩ | hrest
    · cases hfirst
      exact .inl rfl
    · cases hbody
    rcases spreads_cons hrest with ⟨_, hfirst⟩ | ⟨inner, hbody, _⟩ | hrest
    · cases hfirst
      exact .inr rfl
    · cases hbody
    · exact absurd hrest spreads_nil
  | tail _ huses _ => exact .inr (uses_sharedDocument huses).2

/-- A fragment that spreads itself. -/
def idleFragment : Fragment := ⟨"c", "Query", [], some [.spread "c" [] none]⟩

/-- A fragment of a name that the shared document defines. -/
def secondFragment : Fragment := ⟨"b", "Query", [], some [.field none "members" [] [] none]⟩

def secondOperation : Operation := ⟨.mutation, some "rest", [], [], some [.spread "c" [] none]⟩

/-- The shared document with other definitions in front of it and behind it. -/
def surroundedDocument : Document :=
  ⟨.typeSystem :: .fragment idleFragment :: sharedDocument.definitions ++
    [.fragment secondFragment] ++ [.operation secondOperation]⟩

/-- What stands around the shared document makes no difference. -/
theorem evaluate_of_inserts_surrounded :
    Relation.ReflTransGen (standard.Inserts none) sharedDocument surroundedDocument ∧
      standard.evaluate (some surroundedDocument) none =
        standard.evaluate (some sharedDocument) none := by
  have hidle : standard.Inserts none sharedDocument
      ⟨.fragment idleFragment :: sharedDocument.definitions⟩ := by
    refine ⟨[], _, sharedDocument.definitions, rfl, rfl, .unreachedFragment _ ?_⟩
    intro operation htarget hreached
    have hname := reaches_sharedDocument htarget hreached
    simp [idleFragment] at hname
  have htype : standard.Inserts none ⟨.fragment idleFragment :: sharedDocument.definitions⟩
      ⟨.typeSystem :: .fragment idleFragment :: sharedDocument.definitions⟩ :=
    ⟨[], _, _, rfl, rfl, .typeSystem⟩
  have hsecond : standard.Inserts none
      ⟨.typeSystem :: .fragment idleFragment :: sharedDocument.definitions⟩
      ⟨.typeSystem :: .fragment idleFragment :: sharedDocument.definitions ++
        [.fragment secondFragment]⟩ := by
    refine ⟨_, _, [], (by rw [List.append_nil]), rfl, .repeatedFragment _ ?_⟩
    exact ⟨⟨"b", "Query", [], some [.field none "me" [] [] none]⟩, by simp [sharedDocument], rfl⟩
  have hlater : standard.Inserts none
      ⟨.typeSystem :: .fragment idleFragment :: sharedDocument.definitions ++
        [.fragment secondFragment]⟩ surroundedDocument := by
    refine ⟨_, _, [], (by rw [List.append_nil]), rfl, .laterOperation _ ?_⟩
    exact ⟨.operation ⟨.query, none, [], [], some [.spread "a" [] none, .spread "b" [] none]⟩,
      by simp [sharedDocument], rfl⟩
  have hinserts := (((Relation.ReflTransGen.single hidle).tail htype).tail hsecond).tail hlater
  exact ⟨hinserts, evaluate_of_inserts hinserts⟩

end Gate

end QueryAdmission
