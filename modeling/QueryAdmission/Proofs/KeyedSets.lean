import Mathlib.Data.List.Nodup
import QueryAdmission.Proofs.ComparedKeys
import QueryAdmission.Proofs.NestingLevels

/-! # The keyed sets of a document

Every selection set of a document stands at a position of its own, and is found there with
what it holds: its answers under their keys, and its spreads. Below it stand the sets of the
fields in it. -/

namespace QueryAdmission

open StudyRoom

/-! ## What a keyed set holds -/

namespace KeyedSet

variable {entries : List Entry} {position : Position}

/-- The set with some entries. -/
def ofEntries (position : Position) (entries : List Entry) : KeyedSet :=
  entries.foldr (fun e set => set.add e) (empty position)

@[simp] theorem under_empty (key : String) : (empty position).under key = [] := by
  simp [empty, under]

theorem under_add_answer (set : KeyedSet) (key key' : String) (answer : Answer) :
    (set.add (.answer key answer)).under key' =
      if key = key' then answer :: set.under key' else set.under key' := by
  simp only [add, under, Std.HashMap.getD_insert, beq_iff_eq]
  split
  · rename_i heq
    rw [heq]
  · rfl

@[simp] theorem under_add_spread (set : KeyedSet) (name key : String) :
    (set.add (.spread name)).under key = set.under key := by
  simp only [add]
  split <;> rfl

theorem position_ofEntries (position : Position) (entries : List Entry) :
    (ofEntries position entries).position = position := by
  induction entries with
  | nil => rfl
  | cons entry entries ih =>
    cases entry with
    | answer key answer => exact ih
    | spread name =>
      simp only [ofEntries, List.foldr_cons, add] at ih ⊢
      split <;> exact ih

theorem mem_under_ofEntries {key : String} {answer : Answer} :
    answer ∈ (ofEntries position entries).under key ↔ .answer key answer ∈ entries := by
  induction entries with
  | nil => simp [ofEntries]
  | cons entry entries ih =>
    rw [ofEntries, List.foldr_cons, ← ofEntries]
    cases entry with
    | answer key' answer' =>
      rw [under_add_answer]
      split
      · rename_i heq
        simp [ih, heq]
      · rename_i hne
        simp [ih, Ne.symm hne]
    | spread name => simp [ih]

theorem mem_spreads_ofEntries {name : String} :
    name ∈ (ofEntries position entries).spreads ↔ .spread name ∈ entries := by
  induction entries with
  | nil => simp [ofEntries, empty]
  | cons entry entries ih =>
    rw [ofEntries, List.foldr_cons, ← ofEntries]
    cases entry with
    | answer key answer => simpa [add] using ih
    | spread other =>
      simp only [add]
      split
      · rename_i hthere
        simp only [List.contains_eq_mem, decide_eq_true_eq] at hthere
        by_cases hsame : name = other
        · subst hsame
          simp [hthere]
        · simp [ih, hsame]
      · simp [ih]

/-- All answers stand under keys of the set. -/
theorem mem_keys_ofEntries {key : String} {answer : Answer}
    (h : answer ∈ (ofEntries position entries).under key) :
    key ∈ (ofEntries position entries).keys := by
  have hkeys : ∀ key, (ofEntries position entries).answers.contains key = true →
      key ∈ (ofEntries position entries).keys := by
    clear h
    induction entries with
    | nil => simp [ofEntries, empty]
    | cons entry entries ih =>
      rw [ofEntries, List.foldr_cons, ← ofEntries]
      intro key hkey
      cases entry with
      | answer key' answer' =>
        simp only [add, Std.HashMap.contains_insert, Bool.or_eq_true, beq_iff_eq] at hkey ⊢
        split
        · rename_i hthere
          rcases hkey with rfl | hkey
          · exact ih _ hthere
          · exact ih _ hkey
        · rcases hkey with rfl | hkey
          · exact List.mem_cons_self
          · exact List.mem_cons_of_mem _ (ih _ hkey)
      | spread name =>
        simp only [add] at hkey ⊢
        split at hkey <;> rename_i hthere <;> simp only [hthere] <;> exact ih _ hkey
  refine hkeys key ?_
  by_contra hnone
  rw [under, Std.HashMap.getD_eq_fallback_of_contains_eq_false (by simpa using hnone)] at h
  cases h

end KeyedSet

/-! ## Positions -/

/-- A position leads through another one, to a place there with at least some number. -/
def LeadsThrough (position : Position) (n : Nat) (below : Position) : Prop :=
  ∃ above m, n ≤ m ∧ below = above ++ m :: position

theorem LeadsThrough.mono {position below : Position} {m n : Nat}
    (h : LeadsThrough position n below) (hle : m ≤ n) : LeadsThrough position m below := by
  obtain ⟨above, k, hk, rfl⟩ := h
  exact ⟨above, k, by omega, rfl⟩

/-- Through different places of one position lead different positions. -/
theorem ne_of_leadsThrough {position above below : Position} {n : Nat}
    (h : LeadsThrough position (n + 1) below) : below ≠ above ++ n :: position := by
  obtain ⟨above', m, hm, rfl⟩ := h
  intro heq
  have := (List.cons.inj (List.append_inj' heq rfl).2).1
  omega

/-- Positions through one place and positions through later places are different. -/
theorem positions_append {position : Position} {n : Nat} {first rest : List KeyedSet}
    (hfirst : (∀ c ∈ first, ∃ above, c.position = above ++ n :: position) ∧
      (first.map (·.position)).Nodup)
    (hrest : ∀ c ∈ rest, LeadsThrough position (n + 1) c.position)
    (hnodup : (rest.map (·.position)).Nodup) :
    (∀ c ∈ first ++ rest, LeadsThrough position n c.position) ∧
      ((first ++ rest).map (·.position)).Nodup := by
  constructor
  · intro c hc
    rcases List.mem_append.mp hc with hc | hc
    · obtain ⟨above, habove⟩ := hfirst.1 c hc
      exact ⟨above, n, Nat.le_refl n, habove⟩
    · exact (hrest c hc).mono (Nat.le_succ n)
  · rw [List.map_append, List.nodup_append]
    refine ⟨hfirst.2, hnodup, ?_⟩
    rintro p hp q hq rfl
    obtain ⟨c, hc, rfl⟩ := List.mem_map.mp hp
    obtain ⟨d, hd, hsame⟩ := List.mem_map.mp hq
    obtain ⟨above, habove⟩ := hfirst.1 c hc
    exact ne_of_leadsThrough (hrest d hd) (hsame.trans habove)

namespace Selection

/-- A set and all below it lie at different positions, all of them on the way through its own. -/
theorem positions_of_below {type : Option ObjectType} {position : Position}
    {body : List Selection}
    (hthrough : ∀ c ∈ keyedSetsOf type position 0 body, LeadsThrough position 0 c.position)
    (hnodup : ((keyedSetsOf type position 0 body).map (·.position)).Nodup) :
    (∀ c ∈ KeyedSet.ofSelections type position body :: keyedSetsOf type position 0 body,
        ∃ above, c.position = above ++ position) ∧
      ((KeyedSet.ofSelections type position body :: keyedSetsOf type position 0 body).map
        (·.position)).Nodup := by
  have hplace : (KeyedSet.ofSelections type position body).position = position :=
    KeyedSet.position_ofEntries _ _
  constructor
  · refine List.forall_mem_cons.mpr ⟨⟨[], hplace⟩, fun c hc => ?_⟩
    obtain ⟨above, m, _, hc⟩ := hthrough c hc
    exact ⟨above ++ [m], by simp [hc]⟩
  · rw [List.map_cons, List.nodup_cons, hplace]
    refine ⟨fun hmem => ?_, hnodup⟩
    obtain ⟨c, hc, hsame⟩ := List.mem_map.mp hmem
    obtain ⟨above, m, _, hposition⟩ := hthrough c hc
    have hlength := congrArg List.length (hsame.symm.trans hposition)
    simp only [List.length_cons, List.length_append] at hlength
    omega

/-- The sets under a selection are that of a field with all below it, or those in the set of an
inline fragment, or none. -/
theorem keyedSets_cases (parent : Option ObjectType) (position : Position)
    (selection : Selection) :
    (∃ type body, selection.keyedSets parent position =
        .ofSelections type position body :: keyedSetsOf type position 0 body ∧
        selection.body = some body ∧ ∀ known, selection.levels known = setLevels known body) ∨
      (∃ type body, selection.keyedSets parent position = keyedSetsOf type position 0 body ∧
        selection.body = some body ∧ ∀ known, selection.levels known = setLevels known body) ∨
      selection.keyedSets parent position = [] := by
  cases selection with
  | field label name arguments directives body =>
    cases body with
    | none => exact .inr (.inr rfl)
    | some body => exact .inl ⟨_, body, rfl, rfl, fun _ => rfl⟩
  | inline on directives body =>
    cases body with
    | none => exact .inr (.inr rfl)
    | some body => exact .inr (.inl ⟨_, body, rfl, rfl, fun _ => rfl⟩)
  | spread name directives body => exact .inr (.inr rfl)
  | other => exact .inr (.inr rfl)

/-- The sets below a position lie at different positions that lead through it. -/
theorem keyedSetsOf_positions (selections : List Selection) :
    ∀ parent position n,
      (∀ c ∈ keyedSetsOf parent position n selections, LeadsThrough position n c.position) ∧
        ((keyedSetsOf parent position n selections).map (·.position)).Nodup := by
  induction selections using set_induction with
  | nil => exact fun _ _ _ => ⟨nofun, List.nodup_nil⟩
  | cons selection rest ihbody ihrest =>
    intro parent position n
    obtain ⟨hrest, hrestNodup⟩ := ihrest parent position (n + 1)
    have hfirst : (∀ c ∈ selection.keyedSets parent (n :: position),
        ∃ above, c.position = above ++ n :: position) ∧
        ((selection.keyedSets parent (n :: position)).map (·.position)).Nodup := by
      rcases selection.keyedSets_cases parent (n :: position) with
        ⟨type, body, heq, hbody, _⟩ | ⟨type, body, heq, hbody, _⟩ | heq
      · rw [hbody] at ihbody
        obtain ⟨hthrough, hnodup⟩ := ihbody type (n :: position) 0
        rw [heq]
        exact positions_of_below hthrough hnodup
      · rw [hbody] at ihbody
        obtain ⟨hthrough, hnodup⟩ := ihbody type (n :: position) 0
        rw [heq]
        refine ⟨fun c hc => ?_, hnodup⟩
        obtain ⟨above, m, _, hc⟩ := hthrough c hc
        exact ⟨above ++ [m], by simp [hc]⟩
      · rw [heq]
        exact ⟨nofun, List.nodup_nil⟩
    exact positions_append hfirst hrest hrestNodup

end Selection

namespace Document

variable {document : Document}

/-- The definitions of a document, each with its selection sets. -/
def numbered (document : Document) : List (Definition × List KeyedSet) :=
  document.definitions.zipIdx.map fun (d, n) => (d, keyedSetsAt n d)

/-- All selection sets of a document. -/
def keyedSets (document : Document) : List KeyedSet := document.numbered.flatMap Prod.snd

/-- The selection set of a fragment by its name. -/
def keyedFragment? : Definition × List KeyedSet → Option (String × KeyedSet)
  | (.fragment f, set :: _) => some (f.name, set)
  | _ => none

/-- The selection sets of fragments by the names of these. -/
def keyedFragments (document : Document) : List (String × KeyedSet) :=
  document.numbered.filterMap keyedFragment?

/-- What comparisons in a document look sets up in. -/
def overlapSets (document : Document) : Overlap.Sets :=
  ⟨.ofList (document.keyedSets.map fun s => (s.position, s)), .ofList document.keyedFragments⟩

theorem keysFit_eq (document : Document) :
    document.keysFit = ((document.keyedSets.forM (Overlap.compareWithin document.overlapSets
      (6 * (Grammar.nestingLimit + 1)))).run .fresh).isSome := rfl

theorem keyedSetsAt_positions (n : Nat) (definition : Definition) :
    (∀ c ∈ keyedSetsAt n definition, ∃ above, c.position = above ++ [n]) ∧
      ((keyedSetsAt n definition).map (·.position)).Nodup := by
  cases definition with
  | operation o =>
    obtain ⟨hthrough, hnodup⟩ := Selection.keyedSetsOf_positions (o.selections.getD [])
      o.type.root? [n] 0
    exact Selection.positions_of_below hthrough hnodup
  | fragment f =>
    obtain ⟨hthrough, hnodup⟩ := Selection.keyedSetsOf_positions (f.selections.getD [])
      (objectNamed? f.on) [n] 0
    exact Selection.positions_of_below hthrough hnodup
  | typeSystem => exact ⟨nofun, List.nodup_nil⟩

theorem positions_zipIdx (definitions : List Definition) (n : Nat) :
    (∀ c ∈ (definitions.zipIdx n).flatMap fun (d, m) => keyedSetsAt m d,
        LeadsThrough [] n c.position) ∧
      (((definitions.zipIdx n).flatMap fun (d, m) => keyedSetsAt m d).map (·.position)).Nodup := by
  induction definitions generalizing n with
  | nil => exact ⟨nofun, List.nodup_nil⟩
  | cons definition rest ih =>
    obtain ⟨hrest, hrestNodup⟩ := ih (n + 1)
    simp only [List.zipIdx_cons, List.flatMap_cons]
    exact positions_append (keyedSetsAt_positions n definition) hrest hrestNodup

theorem nodup_positions (document : Document) :
    (document.keyedSets.map (·.position)).Nodup := by
  have heq : document.keyedSets =
      (document.definitions.zipIdx 0).flatMap fun (d, m) => keyedSetsAt m d := by
    simp only [keyedSets, numbered, List.flatMap_map]
  rw [heq]
  exact (positions_zipIdx document.definitions 0).2

/-- Every set of a document is found at its position. -/
theorem byPosition_eq_some_iff {position : Position} {c : KeyedSet} :
    document.overlapSets.byPosition[position]? = some c ↔
      c ∈ document.keyedSets ∧ c.position = position := by
  have hpairs : (document.keyedSets.map fun s => (s.position, s)).Pairwise
      fun a b => (a.1 == b.1) = false := by
    rw [List.pairwise_map]
    exact (List.pairwise_map.mp document.nodup_positions).imp fun hne => by simpa using hne
  have hfound : ∀ c ∈ document.keyedSets,
      document.overlapSets.byPosition[c.position]? = some c := fun c hc =>
    Std.HashMap.getElem?_ofList_of_mem (k := c.position) (by simp) hpairs
      (List.mem_map.mpr ⟨c, hc, rfl⟩)
  constructor
  · intro h
    by_cases hthere : ∃ d ∈ document.keyedSets, d.position = position
    · obtain ⟨d, hd, rfl⟩ := hthere
      obtain rfl := Option.some.inj ((hfound d hd).symm.trans h)
      exact ⟨hd, rfl⟩
    · simp only [overlapSets] at h
      rw [Std.HashMap.getElem?_ofList_of_contains_eq_false] at h
      · cases h
      · simpa using hthere
  · rintro ⟨hc, rfl⟩
    exact hfound c hc

end Document

/-! ## Entries and the sets below them -/

namespace Selection

variable {parent : Option ObjectType} {position : Position} {known : LevelTable}

/-- Every selection adds its entries and its sets to those of the set that it stands in. -/
theorem exists_place {selection : Selection} {selections : List Selection}
    (h : selection ∈ selections) (parent : Option ObjectType) (position : Position) (n : Nat) :
    ∃ m, selection.entries parent (m :: position) ⊆ entriesOf parent position n selections ∧
      selection.keyedSets parent (m :: position) ⊆ keyedSetsOf parent position n selections := by
  induction selections generalizing n with
  | nil => cases h
  | cons first rest ih =>
    rw [entriesOf, keyedSetsOf]
    rcases List.mem_cons.mp h with rfl | h
    · exact ⟨n, List.subset_append_left _ _, List.subset_append_left _ _⟩
    · obtain ⟨m, hentries, hsets⟩ := ih h (n + 1)
      exact ⟨m, List.Subset.trans hentries (List.subset_append_right _ _),
        List.Subset.trans hsets (List.subset_append_right _ _)⟩

/-- An entry is a spread of a fragment that lies below the set, or the answer of a field, whose
set stands below the set. -/
theorem entriesOf_cases (known : LevelTable) {entry : Entry} (selections : List Selection) :
    ∀ parent position n, entry ∈ entriesOf parent position n selections →
      (∃ name, entry = .spread name ∧ known.getD name 0 < setLevels known selections) ∨
      ∃ key type name arguments body place,
        entry = .answer key
          ⟨type, name, arguments, answerType? type name, body.map fun _ => place⟩ ∧
        ∀ inner, body = some inner →
          .ofSelections (bodyType type name) place inner ::
              keyedSetsOf (bodyType type name) place 0 inner ⊆
            keyedSetsOf parent position n selections ∧
          setLevels known inner < setLevels known selections := by
  induction selections using set_induction with
  | nil => exact fun _ _ _ => nofun
  | cons selection rest ihbody ihrest =>
    intro parent position n hmem
    rw [entriesOf] at hmem
    rw [keyedSetsOf, setLevels]
    rcases List.mem_append.mp hmem with hmem | hmem
    · cases selection with
      | field label name arguments directives body =>
        obtain rfl := List.mem_singleton.mp hmem
        refine .inr ⟨_, parent, name, arguments, body, n :: position, rfl, ?_⟩
        rintro inner rfl
        exact ⟨List.subset_append_left _ _, by simp only [levels]; omega⟩
      | inline on directives body =>
        cases body with
        | none => cases hmem
        | some body =>
          rcases ihbody _ _ 0 hmem with
            ⟨name, rfl, hlt⟩ | ⟨key, type, name, arguments, inner, place, rfl, hbelow⟩
          · refine .inl ⟨name, rfl, ?_⟩
            simp only [levels, Selection.body, Option.getD_some] at hlt ⊢
            omega
          · refine .inr ⟨key, type, name, arguments, inner, place, rfl, fun set hset => ?_⟩
            obtain ⟨hsets, hlt⟩ := hbelow set hset
            refine ⟨List.Subset.trans hsets (List.subset_append_left _ _), ?_⟩
            simp only [levels, Selection.body, Option.getD_some] at hlt ⊢
            omega
      | spread name directives body =>
        obtain rfl := List.mem_singleton.mp hmem
        exact .inl ⟨name, rfl, by simp only [levels]; omega⟩
      | other => cases hmem
    · rcases ihrest _ _ _ hmem with
        ⟨name, rfl, hlt⟩ | ⟨key, type, name, arguments, inner, place, rfl, hbelow⟩
      · exact .inl ⟨name, rfl, by omega⟩
      · refine .inr ⟨key, type, name, arguments, inner, place, rfl, fun set hset => ?_⟩
        obtain ⟨hsets, hlt⟩ := hbelow set hset
        exact ⟨List.Subset.trans hsets (List.subset_append_right _ _), by omega⟩

/-- A set below a set is one of selections with fewer levels, and all below it is below both. -/
theorem keyedSetsOf_below (known : LevelTable) {c : KeyedSet} (selections : List Selection) :
    ∀ parent position n, c ∈ keyedSetsOf parent position n selections →
      ∃ type place inner, c = .ofSelections type place inner ∧
        .ofSelections type place inner :: keyedSetsOf type place 0 inner ⊆
          keyedSetsOf parent position n selections ∧
        setLevels known inner < setLevels known selections := by
  induction selections using set_induction with
  | nil => exact fun _ _ _ => nofun
  | cons selection rest ihbody ihrest =>
    intro parent position n hmem
    rw [keyedSetsOf] at hmem ⊢
    rw [setLevels]
    rcases List.mem_append.mp hmem with hmem | hmem
    · rcases selection.keyedSets_cases parent (n :: position) with
        ⟨type, body, heq, hbody, hlevels⟩ | ⟨type, body, heq, hbody, hlevels⟩ | heq
      · rw [hbody] at ihbody
        rw [heq] at hmem ⊢
        rw [hlevels]
        rcases List.mem_cons.mp hmem with rfl | hmem
        · exact ⟨type, _, body, rfl, List.subset_append_left _ _, by omega⟩
        · obtain ⟨type', place, inner, rfl, hsets, hlt⟩ := ihbody _ _ _ hmem
          refine ⟨type', place, inner, rfl, ?_, by simp only [Option.getD_some] at hlt; omega⟩
          exact List.Subset.trans hsets
            (List.Subset.trans (List.subset_cons_self _ _) (List.subset_append_left _ _))
      · rw [hbody] at ihbody
        rw [heq] at hmem ⊢
        rw [hlevels]
        obtain ⟨type', place, inner, rfl, hsets, hlt⟩ := ihbody _ _ _ hmem
        exact ⟨type', place, inner, rfl, List.Subset.trans hsets (List.subset_append_left _ _),
          by simp only [Option.getD_some] at hlt; omega⟩
      · rw [heq] at hmem
        cases hmem
    · obtain ⟨type, place, inner, rfl, hsets, hlt⟩ := ihrest _ _ _ hmem
      exact ⟨type, place, inner, rfl,
        List.Subset.trans hsets (List.subset_append_right _ _), by omega⟩

end Selection

namespace Document

variable {document : Document} {known : LevelTable}

/-- Selections stand at a position of the document: their set is one of its sets, and so are
the sets below them. -/
def Stands (document : Document) (parent : Option ObjectType) (position : Position)
    (selections : List Selection) : Prop :=
  .ofSelections parent position selections :: Selection.keyedSetsOf parent position 0 selections ⊆
    document.keyedSets

theorem keyedSetsAt_subset {definition : Definition} {n : Nat}
    (h : (definition, n) ∈ document.definitions.zipIdx) :
    keyedSetsAt n definition ⊆ document.keyedSets := fun _ hc =>
  List.mem_flatMap.mpr ⟨_, List.mem_map.mpr ⟨_, h, rfl⟩, hc⟩

theorem exists_stands {operation : Operation} (h : operation ∈ document.operations) :
    ∃ n, document.Stands operation.type.root? [n] (operation.selections.getD []) := by
  obtain ⟨n, hn, hget⟩ := List.mem_iff_getElem.mp (mem_operations h)
  have hplace : (.operation operation, n) ∈ document.definitions.zipIdx :=
    List.mk_mem_zipIdx_iff_getElem?.mpr (hget ▸ List.getElem?_eq_getElem hn)
  exact ⟨n, keyedSetsAt_subset hplace⟩

/-! ### The sets of fragments -/

theorem mem_keyedFragments {name : String} {c : KeyedSet}
    (h : (name, c) ∈ document.keyedFragments) :
    ∃ f n, f ∈ document.fragmentDefinitions ∧ f.name = name ∧
      c = .ofSelections (objectNamed? f.on) [n] (f.selections.getD []) ∧
      document.Stands (objectNamed? f.on) [n] (f.selections.getD []) := by
  obtain ⟨⟨definition, sets⟩, hmem, hsome⟩ := List.mem_filterMap.mp h
  obtain ⟨⟨d, n⟩, hplace, heq⟩ := List.mem_map.mp hmem
  obtain ⟨rfl, rfl⟩ := Prod.mk.inj heq
  cases d with
  | fragment f =>
    obtain ⟨rfl, rfl⟩ := Prod.mk.inj (Option.some.inj hsome)
    have hdefinition : Definition.fragment f ∈ document.definitions :=
      List.mem_of_getElem? (List.mk_mem_zipIdx_iff_getElem?.mp hplace)
    exact ⟨f, n, List.mem_filterMap.mpr ⟨_, hdefinition, rfl⟩, rfl, rfl, keyedSetsAt_subset hplace⟩
  | operation o => cases hsome
  | typeSystem => cases hsome

theorem map_fst_keyedFragments (document : Document) :
    document.keyedFragments.map Prod.fst = document.fragmentDefinitions.map (·.name) := by
  have hfrom : ∀ (definitions : List Definition) (n : Nat),
      (((definitions.zipIdx n).map fun (d, m) => (d, keyedSetsAt m d)).filterMap
        keyedFragment?).map Prod.fst =
      (definitions.filterMap Definition.fragment?).map (·.name) := by
    intro definitions
    induction definitions with
    | nil => exact fun _ => rfl
    | cons definition rest ih =>
      intro n
      rw [List.zipIdx_cons, List.map_cons]
      cases definition with
      | operation o => exact ih (n + 1)
      | fragment f => exact congrArg (f.name :: ·) (ih (n + 1))
      | typeSystem => exact ih (n + 1)
  exact hfrom document.definitions 0

/-- Under its name a fragment is found by a spread, and its set by comparisons. -/
theorem byFragment_eq_some_iff (hvalid : document.isValid = true) {name : String} {c : KeyedSet} :
    document.overlapSets.byFragment[name]? = some c ↔ (name, c) ∈ document.keyedFragments := by
  have hnodup := nodup_fragments hvalid
  rw [← map_fst_keyedFragments] at hnodup
  have hpairs : document.keyedFragments.Pairwise fun a b => (a.1 == b.1) = false :=
    (List.pairwise_map.mp hnodup).imp fun hne => by simpa using hne
  have hfound : ∀ {name : String} {c : KeyedSet}, (name, c) ∈ document.keyedFragments →
      document.overlapSets.byFragment[name]? = some c := fun {name _} hmem =>
    Std.HashMap.getElem?_ofList_of_mem (k := name) (by simp) hpairs hmem
  refine ⟨fun h => ?_, hfound⟩
  by_cases hthere : ∃ d, (name, d) ∈ document.keyedFragments
  · obtain ⟨d, hd⟩ := hthere
    obtain rfl := Option.some.inj ((hfound hd).symm.trans h)
    exact hd
  · simp only [overlapSets] at h
    rw [Std.HashMap.getElem?_ofList_of_contains_eq_false] at h
    · cases h
    · simpa using hthere

/-- A fragment is found by its name. -/
theorem find?_of_mem (hvalid : document.isValid = true) {f : Fragment}
    (h : f ∈ document.fragmentDefinitions) :
    Fragment.find? document.fragments f.name = some f := by
  have hnodup := nodup_fragments hvalid
  rw [← List.filterMap_eq_map] at hnodup
  rw [find?_fragments, Fragment.find?]
  cases hfound : document.fragmentDefinitions.find? (·.name == f.name) with
  | none => simpa using List.find?_eq_none.mp hfound f h
  | some g =>
    have hname : g.name = f.name := by simpa using List.find?_some hfound
    rw [eq_of_nodup hnodup (List.mem_of_find?_eq_some hfound) h (congrArg some hname) rfl]

/-- The set of a fragment stands in the document. -/
theorem exists_stands_fragment (hvalid : document.isValid = true) {name : String} {f : Fragment}
    (hfound : Fragment.find? document.fragments name = some f) :
    ∃ n, document.overlapSets.byFragment[name]? =
        some (.ofSelections (objectNamed? f.on) [n] (f.selections.getD [])) ∧
      document.Stands (objectNamed? f.on) [n] (f.selections.getD []) := by
  rw [find?_fragments] at hfound
  have hname : f.name = name := by simpa using List.find?_some hfound
  have hmem : name ∈ document.keyedFragments.map Prod.fst := by
    rw [map_fst_keyedFragments, ← hname]
    exact List.mem_map_of_mem (List.mem_of_find?_eq_some hfound)
  obtain ⟨⟨_, c⟩, hc, rfl⟩ := List.mem_map.mp hmem
  obtain ⟨g, n, hg, hgname, rfl, hstands⟩ := mem_keyedFragments hc
  have hsame := find?_of_mem hvalid hg
  rw [find?_fragments, hgname, hfound] at hsame
  obtain rfl := Option.some.inj hsame
  exact ⟨n, (byFragment_eq_some_iff hvalid).mpr hc, hstands⟩

/-! ### All sets are compared -/

theorem Stands.byPosition {parent : Option ObjectType} {position : Position}
    {selections : List Selection} (h : document.Stands parent position selections) :
    document.overlapSets.byPosition[position]? = some (.ofSelections parent position selections) :=
  byPosition_eq_some_iff.mpr ⟨h List.mem_cons_self, KeyedSet.position_ofEntries _ _⟩

/-- A set has no more levels below it than its selections have. -/
theorem Stands.nests (hvalid : document.isValid = true) (hsettled : document.Settled known)
    {n : Nat} {parent : Option ObjectType} {position : Position} {selections : List Selection}
    (h : document.Stands parent position selections)
    (hlevels : Selection.setLevels known selections ≤ n) :
    Overlap.Nests document.overlapSets n (.ofSelections parent position selections) := by
  induction n generalizing parent position selections with
  | zero =>
    have := Selection.one_le_setLevels known selections
    omega
  | succ n ih =>
    constructor
    · intro key a ha c hc
      have hentry := KeyedSet.mem_under_ofEntries.mp ha
      rcases Selection.entriesOf_cases known _ _ _ _ hentry with
        ⟨_, hspread, _⟩ | ⟨key', type, name, arguments, body, place, heq, hbelow⟩
      · cases hspread
      · obtain ⟨rfl, rfl⟩ := Entry.answer.inj heq
        cases body with
        | none => cases hc
        | some inner =>
          obtain ⟨hsets, hlt⟩ := hbelow inner rfl
          have hstands : document.Stands (bodyType type name) place inner :=
            List.Subset.trans hsets (List.Subset.trans (List.subset_cons_self _ _) h)
          obtain rfl := Option.some.inj (hstands.byPosition.symm.trans hc)
          exact ih hstands (by omega)
    · intro name hname c hc
      have hentry := KeyedSet.mem_spreads_ofEntries.mp hname
      rcases Selection.entriesOf_cases known _ _ _ _ hentry with
        ⟨_, hspread, hlt⟩ | ⟨_, _, _, _, _, _, heq, _⟩
      · obtain rfl := Entry.spread.inj hspread
        obtain ⟨f, m, hf, rfl, rfl, hstands⟩ :=
          mem_keyedFragments ((byFragment_eq_some_iff hvalid).mp hc)
        rw [hsettled.fragments f hf] at hlt
        exact ih hstands (by omega)
      · cases heq

/-- Every set of a document is one of selections that stand in it, within the limit. -/
theorem exists_of_mem_keyedSets (hsettled : document.Settled known) {c : KeyedSet}
    (h : c ∈ document.keyedSets) :
    ∃ parent position selections, c = .ofSelections parent position selections ∧
      document.Stands parent position selections ∧
      Selection.setLevels known selections ≤ Grammar.nestingLimit := by
  have hroot : ∀ {parent position selections},
      document.Stands parent position selections →
      Selection.setLevels known selections ≤ Grammar.nestingLimit →
      c ∈ KeyedSet.ofSelections parent position selections ::
        Selection.keyedSetsOf parent position 0 selections →
      ∃ parent position selections, c = .ofSelections parent position selections ∧
        document.Stands parent position selections ∧
        Selection.setLevels known selections ≤ Grammar.nestingLimit := by
    intro parent position selections hstands hlimit hc
    rcases List.mem_cons.mp hc with rfl | hc
    · exact ⟨parent, position, selections, rfl, hstands, hlimit⟩
    · obtain ⟨type, place, inner, rfl, hsets, hlt⟩ :=
        Selection.keyedSetsOf_below known _ _ _ _ hc
      exact ⟨type, place, inner, rfl,
        List.Subset.trans hsets (List.Subset.trans (List.subset_cons_self _ _) hstands), by omega⟩
  obtain ⟨⟨definition, sets⟩, hmem, hc⟩ := List.mem_flatMap.mp h
  obtain ⟨⟨d, n⟩, hplace, heq⟩ := List.mem_map.mp hmem
  obtain ⟨rfl, rfl⟩ := Prod.mk.inj heq
  have hdefinition := List.mem_of_getElem? (List.mk_mem_zipIdx_iff_getElem?.mp hplace)
  cases d with
  | operation o =>
    exact hroot (keyedSetsAt_subset hplace)
      (hsettled.withinOperation o (List.mem_filterMap.mpr ⟨_, hdefinition, rfl⟩)) hc
  | fragment f =>
    exact hroot (keyedSetsAt_subset hplace)
      (hsettled.withinFragment f (List.mem_filterMap.mpr ⟨_, hdefinition, rfl⟩)) hc
  | typeSystem => cases hc

/-- In a valid document all that meets was compared. -/
theorem exists_consistent (hvalid : document.isValid = true) :
    ∃ final, Overlap.Consistent document.overlapSets final Grammar.nestingLimit := by
  obtain ⟨known, hsettled⟩ := exists_settled hvalid
  have hkeys : document.keysFit = true := by
    simp only [isValid, Bool.and_eq_true] at hvalid
    tauto
  have hplace : ∀ c ∈ document.keyedSets, document.overlapSets.byPosition[c.position]? = some c :=
    fun c hc => byPosition_eq_some_iff.mpr ⟨hc, rfl⟩
  have hplaced : document.overlapSets.Placed := by
    refine ⟨fun hc => (byPosition_eq_some_iff.mp hc).2, fun {name c} hc => ?_, ?_⟩
    · obtain ⟨f, n, _, _, rfl, hstands⟩ :=
        mem_keyedFragments ((byFragment_eq_some_iff hvalid).mp hc)
      exact hplace _ (hstands List.mem_cons_self)
    · intro position c key a hc ha
      obtain ⟨parent, place, selections, rfl, _⟩ :=
        exists_of_mem_keyedSets hsettled (byPosition_eq_some_iff.mp hc).1
      exact KeyedSet.mem_keys_ofEntries ha
  refine Overlap.exists_consistent hplaced (fun hc => (byPosition_eq_some_iff.mp hc).1) hplace
    (fun c hc => ?_) (by decide) (document.keysFit_eq ▸ hkeys)
  obtain ⟨parent, position, selections, rfl, hstands, hlevels⟩ :=
    exists_of_mem_keyedSets hsettled hc
  exact hstands.nests hvalid hsettled hlevels

end Document

end QueryAdmission
