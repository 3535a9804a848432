import Mathlib.Data.List.Perm.Subperm
import QueryAdmission.Execution.Input
import QueryAdmission.Proofs.KeyedSets

/-! # Fields under one key

Fields that a valid document asks for under one key of one object are one field with the same
arguments, wherever they come from. So it does not matter which of them is answered, and their
selections can be put together. -/

namespace QueryAdmission

open StudyRoom

/-! ## What is asked for is compared -/

theorem objectNamed?_name (object : ObjectType) : objectNamed? object.name = some object := by
  cases object <;> rfl

/-- A fragment that applies to an object selects from its type. -/
theorem inlineType_of_applies {object : ObjectType} {on : Option String}
    (h : applies object on = true) : inlineType (some object) on = some object := by
  cases on with
  | none => rfl
  | some name =>
    obtain rfl : name = object.name := by simpa [applies] using h
    exact objectNamed?_name object

/-- What takes part in a set is among its entries, and its sets are below it. -/
theorem exists_place_of_holds {part : List Directive → Option Bool} {object : ObjectType}
    {selection : Selection} {selections : List Selection}
    (h : Holds part object selection selections) (position : Position) :
    ∃ place, selection.entries (some object) place ⊆
        Selection.entriesOf (some object) position 0 selections ∧
      selection.keyedSets (some object) place ⊆
        Selection.keyedSetsOf (some object) position 0 selections := by
  induction h generalizing position with
  | here hmem _ =>
    obtain ⟨m, hentries, hsets⟩ := Selection.exists_place hmem (some object) position 0
    exact ⟨m :: position, hentries, hsets⟩
  | @inline on directives body selections hmem _ happlies hbody ih =>
    obtain ⟨m, hentries, hsets⟩ := Selection.exists_place hmem (some object) position 0
    cases body with
    | none => exact absurd hbody not_holds_nil
    | some body =>
      obtain ⟨place, hentries', hsets'⟩ := ih (m :: position)
      rw [Selection.entries, inlineType_of_applies happlies] at hentries
      rw [Selection.keyedSets, inlineType_of_applies happlies] at hsets
      exact ⟨place, List.Subset.trans hentries' hentries, List.Subset.trans hsets' hsets⟩

/-- The arguments are the same ones, or they are alike. -/
def ArgumentsMatch (as bs : List Argument) : Prop :=
  as = bs ∨ sameArguments as bs = true ∨ sameArguments bs as = true

namespace Document

variable {document : Document} {part : List Directive → Option Bool} {object : ObjectType}

/-- A field that a set asks for is an answer in a set that it opens. -/
theorem exists_answer_of_asks (hvalid : document.isValid = true) {chosen : Chosen}
    {selections : List Selection}
    (hasks : Asks document.fragments part object chosen selections) {position : Position}
    (hstands : document.Stands (some object) position selections) :
    ∃ c place, Overlap.Opens document.overlapSets
        (.ofSelections (some object) position selections) c ∧
      ⟨some object, chosen.name, chosen.arguments, answerType? (some object) chosen.name,
        chosen.body.map fun _ => place⟩ ∈ c.under chosen.key ∧
      ∀ inner, chosen.body = some inner →
        document.Stands (bodyType (some object) chosen.name) place inner := by
  induction hasks generalizing position with
  | @field label name arguments directives body selections hholds hchosen =>
    subst hchosen
    obtain ⟨place, hentries, hsets⟩ := exists_place_of_holds hholds position
    refine ⟨_, place, .refl _, KeyedSet.mem_under_ofEntries.mpr (hentries List.mem_cons_self), ?_⟩
    rintro inner rfl
    exact List.Subset.trans hsets (List.Subset.trans (List.subset_cons_self _ _) hstands)
  | @spread name directives body fragment selections hholds hfound happlies _ ih =>
    obtain ⟨place, hentries, _⟩ := exists_place_of_holds hholds position
    obtain ⟨n, hby, hfragment⟩ := exists_stands_fragment hvalid hfound
    obtain hon : fragment.on = object.name := by simpa [applies] using happlies
    rw [hon, objectNamed?_name] at hby hfragment
    obtain ⟨c, place', hopens, hanswer, hbelow⟩ := ih hfragment
    exact ⟨c, place', .spread (KeyedSet.mem_spreads_ofEntries.mpr (hentries List.mem_cons_self))
      hby hopens, hanswer, hbelow⟩

/-- Two sets of one object are put together only if everything in them that can have one key
was compared. -/
def Together (document : Document) (object : ObjectType) (xs ys : List Selection) : Prop :=
  ∃ final position position',
    Overlap.Consistent document.overlapSets final Grammar.nestingLimit ∧
    document.Stands (some object) position xs ∧ document.Stands (some object) position' ys ∧
    Overlap.Meet document.overlapSets final (.ofSelections (some object) position xs)
      (.ofSelections (some object) position' ys)

/-- The set of an operation goes together with itself. -/
theorem together_root (hvalid : document.isValid = true) {operation : Operation}
    (h : operation ∈ document.operations) (hroot : operation.type.root? = some object) :
    document.Together object (operation.selections.getD []) (operation.selections.getD []) := by
  obtain ⟨final, hfinal⟩ := exists_consistent hvalid
  obtain ⟨n, hstands⟩ := exists_stands h
  rw [hroot] at hstands
  exact ⟨final, [n], [n], hfinal, hstands, hstands,
    hfinal.meet_self (byPosition_eq_some_iff.mpr ⟨hstands List.mem_cons_self, rfl⟩)⟩

/-- Fields that are asked for under one key are one field with matching arguments, and the sets
under them go together. -/
theorem Together.merge (hvalid : document.isValid = true) {xs ys : List Selection}
    (h : document.Together object xs ys) {f g : Chosen}
    (hf : Asks document.fragments part object f xs)
    (hg : Asks document.fragments part object g ys) (hkey : f.key = g.key) :
    f.name = g.name ∧ ArgumentsMatch f.arguments g.arguments ∧
      ∀ type inner inner', bodyType (some object) f.name = some type → f.body = some inner →
        g.body = some inner' → document.Together type inner inner' := by
  obtain ⟨final, position, position', hfinal, hxs, hys, hmeet⟩ := h
  obtain ⟨c, place, hopens, ha, hbelow⟩ := exists_answer_of_asks hvalid hf hxs
  obtain ⟨d, place', hopens', hb, hbelow'⟩ := exists_answer_of_asks hvalid hg hys
  rw [← hkey] at hb
  have hjoined := hmeet c d hopens hopens' f.key _ ha _ hb (by simp [Answer.isApart])
  have hagree : f.name = g.name ∧ ArgumentsMatch f.arguments g.arguments := by
    rcases hjoined with heq | hdone | hdone
    · obtain ⟨_, hname, harguments, _, _⟩ := Answer.mk.inj heq
      exact ⟨hname, .inl harguments⟩
    · obtain ⟨hagrees, _, _⟩ := hdone
      simp only [Answer.agrees, Bool.false_or, Bool.and_eq_true, beq_iff_eq] at hagrees
      exact ⟨hagrees.1.1, .inr (.inl hagrees.1.2)⟩
    · obtain ⟨hagrees, _, _⟩ := hdone
      simp only [Answer.agrees, Bool.false_or, Bool.and_eq_true, beq_iff_eq] at hagrees
      exact ⟨hagrees.1.1.symm, .inr (.inr hagrees.1.2)⟩
  refine ⟨hagree.1, hagree.2, fun type inner inner' htype hinner hinner' => ?_⟩
  have hstands := hbelow inner hinner
  have hstands' := hbelow' inner' hinner'
  rw [htype] at hstands
  rw [← hagree.1, htype] at hstands'
  refine ⟨final, place, place', hfinal, hstands, hstands', hfinal.meet_below hjoined ?_ ?_⟩
  · simp only [Overlap.Sets.under?, hinner, Option.map_some, Option.bind_some]
    exact hstands.byPosition
  · simp only [Overlap.Sets.under?, hinner', Option.map_some, Option.bind_some]
    exact hstands'.byPosition

end Document

/-! ## Matching arguments have one value -/

/-- Values that are written alike are equal, or both are lists, or both are objects. -/
theorem Value.same_cases {v w : Value} (h : v.same w = true) :
    v = w ∨ (∃ xs ys, v = .list xs ∧ w = .list ys) ∨ ∃ fs gs, v = .object fs ∧ w = .object gs := by
  cases v <;> cases w <;> simp_all [Value.same]

/-- No scalar reads a list or an object. -/
theorem StudyRoom.Scalar.ofLiteral?_compound (scalar : Scalar) :
    (∀ xs, scalar.ofLiteral? (.list xs) = none) ∧ ∀ fs, scalar.ofLiteral? (.object fs) = none := by
  cases scalar <;> exact ⟨fun _ => rfl, fun _ => rfl⟩

/-- Two arguments of one name are both missing, or they are written alike. -/
theorem written?_of_same {as bs : List Argument} (has : (as.map (·.name)).Nodup)
    (hbs : (bs.map (·.name)).Nodup) (h : sameArguments as bs = true) (name : String) :
    written? as name = none ∧ written? bs name = none ∨
      ∃ v w, written? as name = some v ∧ written? bs name = some w ∧ v.same w = true := by
  simp only [sameArguments, Bool.and_eq_true, beq_iff_eq, List.all_eq_true, List.any_eq_true] at h
  obtain ⟨hlength, hall⟩ := h
  have hfind : ∀ b ∈ bs, b.name = name → bs.find? (·.name == name) = some b := by
    intro b hb hname
    cases hfound : bs.find? (·.name == name) with
    | none => simpa [hname] using List.find?_eq_none.mp hfound b hb
    | some c =>
      have hc : c.name = name := by simpa using List.find?_some hfound
      rw [List.inj_on_of_nodup_map hbs (List.mem_of_find?_eq_some hfound) hb (hc.trans hname.symm)]
  unfold written?
  cases hfound : as.find? (·.name == name) with
  | some a =>
    have ha : a.name = name := by simpa using List.find?_some hfound
    obtain ⟨b, hb, hsame, hvalue⟩ := hall a (List.mem_of_find?_eq_some hfound)
    exact .inr ⟨a.value, b.value, rfl, by rw [hfind b hb (hsame.symm.trans ha)]; rfl, hvalue⟩
  | none =>
    refine .inl ⟨rfl, ?_⟩
    cases hother : bs.find? (·.name == name) with
    | none => rfl
    | some b =>
      -- both lists have as many names, and the names of the one are those of the other
      have hsubset : as.map (·.name) ⊆ bs.map (·.name) := by
        intro n hn
        obtain ⟨a, ha, rfl⟩ := List.mem_map.mp hn
        obtain ⟨c, hc, hsame, _⟩ := hall a ha
        exact List.mem_map.mpr ⟨c, hc, hsame.symm⟩
      have hperm := (List.subperm_of_subset has hsubset).perm_of_length_le
        (by simp only [List.length_map]; omega)
      have hb : b.name = name := by simpa using List.find?_some hother
      have hmem : name ∈ as.map (·.name) := hperm.mem_iff.mpr
        (List.mem_map.mpr ⟨b, List.mem_of_find?_eq_some hother, hb⟩)
      obtain ⟨a, ha, rfl⟩ := List.mem_map.mp hmem
      simpa using List.find?_eq_none.mp hfound a ha

theorem StudyRoom.ArgumentSpec.valueIn?_of_same (spec : ArgumentSpec) (values : Variables)
    {as bs : List Argument} (has : (as.map (·.name)).Nodup) (hbs : (bs.map (·.name)).Nodup)
    (h : sameArguments as bs = true) : spec.valueIn? values as = spec.valueIn? values bs := by
  unfold valueIn?
  rcases written?_of_same has hbs h spec.name with ⟨hv, hw⟩ | ⟨v, w, hv, hw, hsame⟩
  · rw [hv, hw]
  · rw [hv, hw]
    rcases Value.same_cases hsame with rfl | ⟨xs, ys, rfl, rfl⟩ | ⟨fs, gs, rfl, rfl⟩
    · rfl
    · simp only [(spec.type.ofLiteral?_compound).1]
    · simp only [(spec.type.ofLiteral?_compound).2]

theorem StudyRoom.FieldSpec.inputs?_of_match (spec : FieldSpec) (values : Variables)
    {as bs : List Argument} (has : (as.map (·.name)).Nodup) (hbs : (bs.map (·.name)).Nodup)
    (h : ArgumentsMatch as bs) : spec.inputs? values as = spec.inputs? values bs := by
  have hvalue : ∀ a : ArgumentSpec, a.valueIn? values as = a.valueIn? values bs := by
    intro a
    rcases h with rfl | h | h
    · rfl
    · exact a.valueIn?_of_same values has hbs h
    · exact (a.valueIn?_of_same values hbs has h).symm
  simp only [inputs?, hvalue]

/-! ## The places of fields that are asked for -/

theorem sites_subset_of_mem {selection : Selection} {selections : List Selection}
    (h : selection ∈ selections) (parent : Option ObjectType) :
    selection.sites parent ⊆ Selection.sitesOf parent selections := by
  induction selections with
  | nil => cases h
  | cons first rest ih =>
    rw [Selection.sitesOf]
    rcases List.mem_cons.mp h with rfl | h
    · exact List.subset_append_left _ _
    · exact List.Subset.trans (ih h) (List.subset_append_right _ _)

theorem sites_subset_of_holds {part : List Directive → Option Bool} {object : ObjectType}
    {selection : Selection} {selections : List Selection}
    (h : Holds part object selection selections) :
    selection.sites (some object) ⊆ Selection.sitesOf (some object) selections := by
  induction h with
  | here hmem _ => exact sites_subset_of_mem hmem _
  | @inline on directives body selections hmem _ happlies hbody ih =>
    refine List.Subset.trans ?_ (sites_subset_of_mem hmem (some object))
    cases body with
    | none => exact absurd hbody not_holds_nil
    | some body =>
      rw [Selection.sites, inlineType_of_applies happlies]
      exact List.Subset.trans ih (List.subset_cons_self _ _)

namespace Document

variable {document : Document} {part : List Directive → Option Bool} {object : ObjectType}

/-- The places of a fragment that applies to an object select from its type. -/
theorem sites_of_found {name : String} {fragment : Fragment}
    (hfound : Fragment.find? document.fragments name = some fragment)
    (happlies : applies object (some fragment.on) = true) :
    Selection.sitesOf (some object) (fragment.selections.getD []) ⊆ document.sites := by
  rw [find?_fragments] at hfound
  have hmem : fragment ∈ document.fragmentDefinitions := List.mem_of_find?_eq_some hfound
  obtain hon : fragment.on = object.name := by simpa [applies] using happlies
  intro site hsite
  refine List.mem_append_right _ (List.mem_flatMap.mpr ⟨fragment, hmem, ?_⟩)
  rw [Fragment.sites, hon, objectNamed?_name]
  exact hsite

/-- A field that is asked for stands at a place of the document, and so does what is under it. -/
theorem exists_site_of_asks {chosen : Chosen} {selections : List Selection}
    (hasks : Asks document.fragments part object chosen selections)
    (h : Selection.sitesOf (some object) selections ⊆ document.sites) :
    (∃ directives hasBody, Site.field (some object) chosen.name chosen.arguments directives
        hasBody ∈ document.sites) ∧
      Selection.sitesOf (bodyType (some object) chosen.name) (chosen.body.getD []) ⊆
        document.sites := by
  induction hasks with
  | @field label name arguments directives body selections hholds hchosen =>
    subst hchosen
    have hsites := List.Subset.trans (sites_subset_of_holds hholds) h
    cases body with
    | none => exact ⟨⟨directives, false, hsites List.mem_cons_self⟩, List.nil_subset _⟩
    | some body =>
      exact ⟨⟨directives, true, hsites List.mem_cons_self⟩,
        List.Subset.trans (List.subset_cons_self _ _) hsites⟩
  | spread hholds hfound happlies _ ih => exact ih (sites_of_found hfound happlies)

theorem sites_of_root {operation : Operation} (hmem : operation ∈ document.operations)
    (hroot : operation.type.root? = some object) :
    Selection.sitesOf (some object) (operation.selections.getD []) ⊆ document.sites := by
  intro site hsite
  refine List.mem_append_left _ (List.mem_flatMap.mpr ⟨operation, hmem, ?_⟩)
  rw [Operation.sites, hroot]
  exact hsite

/-- The arguments of a field that a valid operation asks for have different names. -/
theorem nodup_arguments_of_asks (hvalid : document.isValid = true) {operation : Operation}
    (hmem : operation ∈ document.operations) (hroot : operation.type.root? = some object)
    {chosen : Chosen}
    (hasks : Asks document.fragments part object chosen (operation.selections.getD [])) :
    (chosen.arguments.map (·.name)).Nodup := by
  obtain ⟨⟨directives, hasBody, hsite⟩, _⟩ :=
    exists_site_of_asks hasks (sites_of_root hmem hroot)
  simp only [isValid, namesFit, Bool.and_eq_true, List.all_eq_true] at hvalid
  have hfits : Site.namesFit
      (.field (some object) chosen.name chosen.arguments directives hasBody) = true := by tauto
  simp only [Site.namesFit, argumentsDistinct, Bool.and_eq_true] at hfits
  exact nodup_of_distinct hfits.2.1

end Document

end QueryAdmission
