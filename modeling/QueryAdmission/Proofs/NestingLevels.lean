import QueryAdmission.Proofs.AskedFields
import QueryAdmission.Proofs.MeantOperation

/-! # Levels that are settled

A document that nests within the limit has settled levels: that of a fragment is that of its
set, in which every spread counts with the level of its fragment. So levels fall along every
way through fields and spreads, and fragments lead nowhere back. There are never more levels
than selections, hence an execution has room for all of them. -/

namespace QueryAdmission

namespace Selection

/-- Induction over selection sets: from the set under the first selection and from the rest. -/
@[elab_as_elim]
theorem set_induction {motive : List Selection → Prop} (nil : motive [])
    (cons : ∀ selection rest, motive (selection.body.getD []) → motive rest →
      motive (selection :: rest)) (selections : List Selection) : motive selections := by
  induction hcount : countOf selections using Nat.strongRecOn generalizing selections with
  | _ n ih =>
    cases selections with
    | nil => exact nil
    | cons selection rest =>
      have hbody := selection.countOf_body_lt
      have hfirst := selection.one_le_count
      simp only [countOf] at hcount
      exact cons selection rest (ih _ (by omega) _ rfl) (ih _ (by omega) _ rfl)

theorem one_le_setLevels (known : LevelTable) (selections : List Selection) :
    1 ≤ setLevels known selections := by
  induction selections with
  | nil => simp [setLevels]
  | cons selection rest ih => rw [setLevels]; omega

/-- Every selection of a set lies below it. -/
theorem levels_lt_setLevels (known : LevelTable) {selection : Selection}
    {selections : List Selection} (h : selection ∈ selections) :
    selection.levels known < setLevels known selections := by
  induction selections with
  | nil => cases h
  | cons first rest ih =>
    rw [setLevels]
    rcases List.mem_cons.mp h with rfl | h
    · omega
    · have := ih h
      omega

/-- The levels under a selection are none, or those of its set, or those of a fragment. -/
theorem levels_cases (selection : Selection) :
    (∀ known, selection.levels known = 0) ∨
      (∀ known, selection.levels known = setLevels known (selection.body.getD [])) ∨
      ∃ name, ∀ known, selection.levels known = known.getD name 0 := by
  cases selection with
  | field _ _ _ _ body =>
    cases body with
    | none => exact .inl fun _ => rfl
    | some body => exact .inr (.inl fun _ => rfl)
  | inline _ _ body =>
    cases body with
    | none => exact .inl fun _ => rfl
    | some body => exact .inr (.inl fun _ => rfl)
  | spread name _ _ => exact .inr (.inr ⟨name, fun _ => rfl⟩)
  | other => exact .inl fun _ => rfl

/-- Levels by two tables are the same, unless the tables differ in a fragment that is spread
in the set, which lies below it. -/
theorem setLevels_eq_or (known known' : LevelTable) (selections : List Selection) :
    setLevels known' selections = setLevels known selections ∨
      ∃ name, known'.getD name 0 ≠ known.getD name 0 ∧
        known'.getD name 0 < setLevels known' selections := by
  induction selections using set_induction with
  | nil => exact .inl (by simp [setLevels])
  | cons selection rest ihbody ihrest =>
    have hfirst : selection.levels known' = selection.levels known ∨
        ∃ name, known'.getD name 0 ≠ known.getD name 0 ∧
          known'.getD name 0 ≤ selection.levels known' := by
      rcases selection.levels_cases with hnone | hset | ⟨name, hspread⟩
      · exact .inl (by rw [hnone, hnone])
      · rw [hset, hset]
        exact ihbody.imp_right fun ⟨name, hne, hlt⟩ => ⟨name, hne, Nat.le_of_lt hlt⟩
      · rw [hspread, hspread]
        by_cases hsame : known'.getD name 0 = known.getD name 0
        · exact .inl hsame
        · exact .inr ⟨name, hsame, Nat.le_refl _⟩
    simp only [setLevels]
    rcases hfirst with hfirst | ⟨name, hne, hle⟩
    · rcases ihrest with hrest | ⟨name, hne, hlt⟩
      · exact .inl (by rw [hfirst, hrest])
      · exact .inr ⟨name, hne, by omega⟩
    · exact .inr ⟨name, hne, by omega⟩

end Selection

/-- What takes part in a set lies below it. -/
theorem levels_lt_of_holds (known : LevelTable) {part : List Directive → Option Bool}
    {object : StudyRoom.ObjectType} {selection : Selection} {selections : List Selection}
    (h : Holds part object selection selections) :
    selection.levels known < Selection.setLevels known selections := by
  induction h with
  | here hmem _ => exact Selection.levels_lt_setLevels known hmem
  | @inline on directives body selections hmem hpart happlies hbody ih =>
    have hlt := Selection.levels_lt_setLevels known hmem
    cases body with
    | none => exact absurd hbody not_holds_nil
    | some body => exact Nat.lt_trans ih hlt

/-! ## Rounds over all fragments -/

theorem getD_levelTable {fragments : List Fragment}
    (hnodup : (fragments.map (·.name)).Nodup) (levels : Fragment → Nat)
    {fragment : Fragment} (h : fragment ∈ fragments) :
    (Document.levelTable fragments (fragments.map levels)).getD fragment.name 0 =
      levels fragment := by
  have hpairs : ((fragments.map fun f => (f.name, levels f))).Pairwise
      fun a b => (a.1 == b.1) = false := by
    rw [List.pairwise_map]
    exact (List.pairwise_map.mp hnodup).imp fun hne => by simpa using hne
  rw [Document.levelTable, List.zip_map']
  exact Std.HashMap.getD_ofList_of_mem (k := fragment.name) (by simp) hpairs
    (List.mem_map.mpr ⟨fragment, h, rfl⟩)

theorem getD_levelTable_of_forall_ne (fragments : List Fragment) (levels : Fragment → Nat)
    {name : String} (h : ∀ fragment ∈ fragments, fragment.name ≠ name) :
    (Document.levelTable fragments (fragments.map levels)).getD name 0 = 0 := by
  rw [Document.levelTable, List.zip_map', Std.HashMap.getD_ofList_of_contains_eq_false]
  simpa using h

/-- The levels of all fragments after some rounds. -/
def levelsAfter (fragments : List Fragment) : Nat → Fragment → Nat
  | 0, _ => 0
  | rounds + 1, fragment =>
    Selection.setLevels
      (Document.levelTable fragments (fragments.map (levelsAfter fragments rounds)))
      (fragment.selections.getD [])

/-- What is still changed by a round has as many levels as there were rounds. -/
theorem le_levelsAfter {fragments : List Fragment}
    (hnodup : (fragments.map (·.name)).Nodup) (rounds : Nat) {fragment : Fragment}
    (h : fragment ∈ fragments)
    (hchanged : levelsAfter fragments (rounds + 1) fragment ≠
      levelsAfter fragments rounds fragment) :
    rounds + 1 ≤ levelsAfter fragments (rounds + 1) fragment := by
  induction rounds generalizing fragment with
  | zero => exact Selection.one_le_setLevels _ _
  | succ rounds ih =>
    rw [levelsAfter, levelsAfter] at hchanged
    rcases Selection.setLevels_eq_or _ _ (fragment.selections.getD []) with hsame | ⟨name, hne, hlt⟩
    · exact absurd hsame hchanged
    · rw [levelsAfter]
      by_cases hnamed : ∃ other ∈ fragments, other.name = name
      · obtain ⟨other, hother, rfl⟩ := hnamed
        rw [getD_levelTable hnodup _ hother, getD_levelTable hnodup _ hother] at hne
        rw [getD_levelTable hnodup _ hother] at hlt
        have := ih hother hne
        omega
      · push Not at hnamed
        rw [getD_levelTable_of_forall_ne _ _ hnamed, getD_levelTable_of_forall_ne _ _ hnamed] at hne
        exact absurd rfl hne

/-- Rounds go on until one changes nothing, or as long as there are rounds. -/
theorem deepen_levelsAfter (fragments : List Fragment) (rounds before : Nat) :
    ∃ after, Document.deepen fragments rounds (fragments.map (levelsAfter fragments before)) =
        fragments.map (levelsAfter fragments after) ∧
      (fragments.map (levelsAfter fragments (after + 1)) =
          fragments.map (levelsAfter fragments after) ∨ after = before + rounds) := by
  induction rounds generalizing before with
  | zero => exact ⟨before, rfl, .inr rfl⟩
  | succ rounds ih =>
    simp only [Document.deepen]
    split
    · rename_i hsame
      exact ⟨before, rfl, .inl hsame⟩
    · obtain ⟨after, heq, hend⟩ := ih (before + 1)
      exact ⟨after, heq, hend.imp_right fun h => by omega⟩

/-! ## The levels of a document -/

/-- A table gives every fragment the levels of its set, and nothing has more than the limit. -/
structure Document.Settled (document : Document) (known : LevelTable) : Prop where
  fragments : ∀ fragment ∈ document.fragmentDefinitions,
    known.getD fragment.name 0 = Selection.setLevels known (fragment.selections.getD [])
  others : ∀ name, (∀ fragment ∈ document.fragmentDefinitions, fragment.name ≠ name) →
    known.getD name 0 = 0
  withinFragment : ∀ fragment ∈ document.fragmentDefinitions,
    Selection.setLevels known (fragment.selections.getD []) ≤ Grammar.nestingLimit
  withinOperation : ∀ operation ∈ document.operations,
    Selection.setLevels known (operation.selections.getD []) ≤ Grammar.nestingLimit

theorem Document.exists_settled {document : Document} (hvalid : document.isValid = true) :
    ∃ known, document.Settled known := by
  have hnodup := nodup_fragments hvalid
  have hnests : document.nestsWithinLimit = true := by
    simp only [isValid, Bool.and_eq_true] at hvalid
    tauto
  generalize hfragments : document.fragmentDefinitions = fragments at hnodup
  obtain ⟨after, hdeepen, hend⟩ :=
    deepen_levelsAfter fragments (Grammar.nestingLimit + 1) 0
  have hzero : fragments.map (levelsAfter fragments 0) = fragments.map fun _ => 0 := rfl
  rw [hzero] at hdeepen
  simp only [nestsWithinLimit, hfragments, hdeepen, Bool.and_eq_true, List.all_eq_true,
    decide_eq_true_eq, List.forall_mem_map] at hnests
  obtain ⟨hwithin, hoperations⟩ := hnests
  have hsettled : ∀ fragment ∈ fragments,
      levelsAfter fragments (after + 1) fragment = levelsAfter fragments after fragment := by
    rcases hend with hsame | rfl
    · exact List.map_inj_left.mp hsame
    · -- so many rounds would leave a level beyond the limit
      have hlast : fragments.map (levelsAfter fragments (Grammar.nestingLimit + 1)) =
          fragments.map (levelsAfter fragments Grammar.nestingLimit) := by
        refine List.map_congr_left fun fragment hmem => ?_
        by_contra hchanged
        have hle := le_levelsAfter hnodup _ hmem hchanged
        have := hwithin fragment hmem
        rw [Nat.zero_add] at this
        omega
      intro fragment hmem
      rw [Nat.zero_add, levelsAfter, hlast, ← levelsAfter]
  have hknown : ∀ fragment ∈ fragments, levelsAfter fragments after fragment =
      Selection.setLevels (levelTable fragments (fragments.map (levelsAfter fragments after)))
        (fragment.selections.getD []) :=
    fun fragment hmem => (hsettled fragment hmem).symm
  refine ⟨_, ⟨?_, ?_, ?_, hoperations⟩⟩ <;> rw [hfragments]
  · intro fragment hmem
    rw [getD_levelTable hnodup _ hmem]
    exact hknown fragment hmem
  · exact fun name hne => getD_levelTable_of_forall_ne _ _ hne
  · intro fragment hmem
    rw [← hknown fragment hmem]
    exact hwithin fragment hmem

namespace Document.Settled

variable {document : Document} {known : LevelTable}

/-- A fragment lies as high as its set. -/
theorem getD_eq (h : document.Settled known) {name : String} {fragment : Fragment}
    (hfound : Fragment.find? document.fragments name = some fragment) :
    known.getD name 0 = Selection.setLevels known (fragment.selections.getD []) := by
  rw [find?_fragments] at hfound
  have hname : fragment.name = name := by simpa using List.find?_some hfound
  rw [← hname]
  exact h.fragments fragment (List.mem_of_find?_eq_some hfound)

/-- The set under a field that a set asks for lies below that set. -/
theorem setLevels_lt_of_asks (h : document.Settled known) {part : List Directive → Option Bool}
    {object : StudyRoom.ObjectType} {chosen : Chosen} {selections body : List Selection}
    (hasks : Asks document.fragments part object chosen selections)
    (hbody : chosen.body = some body) :
    Selection.setLevels known body < Selection.setLevels known selections := by
  induction hasks with
  | field hholds hchosen =>
    subst hchosen
    obtain rfl := hbody
    exact levels_lt_of_holds known hholds
  | spread hholds hfound _ _ ih =>
    have hlt := levels_lt_of_holds known hholds
    rw [Selection.levels, h.getD_eq hfound] at hlt
    exact Nat.lt_trans ih hlt

end Document.Settled

end QueryAdmission
