import QueryAdmission.Proofs.Growth

/-! # Which fields a score counts

A score visits the fields that stand within the cutoff, those of spread fragments anew at
every spread. If every price is a double, as in scorers that settings describe, a score
breaks off exactly if one of these fields asks for a page with a literal that cannot be
read, and what it fails with is how such a literal fails. -/

namespace QueryAdmission

/-! ## Outcomes and reasons -/

/-- The outcome is a failure exactly if there is a reason, and then for one of the reasons. -/
structure BreaksFor {α : Type} (outcome : Except Failure α) (reason : Failure → Prop) : Prop where
  sound : ∀ failure, outcome = .error failure → reason failure
  complete : ∀ failure, reason failure → ∃ failure', outcome = .error failure'

namespace BreaksFor

variable {α β : Type} {outcome : Except Failure α} {reason reason' : Failure → Prop}

theorem ok {a : α} (h : ∀ failure, ¬reason failure) : BreaksFor (.ok a) reason where
  sound _ he := by cases he
  complete failure hreason := absurd hreason (h failure)

theorem error {failure : Failure} (h : reason failure) :
    BreaksFor (.error failure : Except Failure α) reason where
  sound := by
    rintro _ ⟨⟩
    exact h
  complete _ _ := ⟨failure, rfl⟩

theorem congr (h : BreaksFor outcome reason) (hiff : ∀ failure, reason failure ↔ reason' failure) :
    BreaksFor outcome reason' where
  sound failure he := (hiff failure).mp (h.sound failure he)
  complete failure hreason := h.complete failure ((hiff failure).mpr hreason)

theorem bind (h : BreaksFor outcome reason) {next : α → Except Failure β}
    (hnext : ∀ a, BreaksFor (next a) reason') :
    BreaksFor (outcome >>= next) fun failure => reason failure ∨ reason' failure := by
  cases outcome with
  | error failure => exact .error (.inl (h.sound failure rfl))
  | ok a =>
    have hnone : ∀ failure, ¬reason failure := by
      intro failure hreason
      obtain ⟨_, ⟨⟩⟩ := h.complete failure hreason
    exact (hnext a).congr fun failure => by simp only [hnone failure, false_or]

theorem map (h : BreaksFor outcome reason) (f : α → β) :
    BreaksFor (do return f (← outcome)) reason := by
  have hok : ∀ a, BreaksFor (.ok (f a) : Except Failure β) fun _ => False :=
    fun _ => .ok fun _ => id
  exact (h.bind hok).congr fun failure => by rw [or_false]

/-- A list of steps breaks off for the reasons of each of them. -/
theorem foldlM {f : β → α → Except Failure β} {reasonOf : α → Failure → Prop}
    (h : ∀ total a, BreaksFor (f total a) (reasonOf a)) (items : List α) (total : β) :
    BreaksFor (items.foldlM f total) fun failure => ∃ a ∈ items, reasonOf a failure := by
  induction items generalizing total with
  | nil => exact .ok fun _ ⟨_, hmem, _⟩ => by cases hmem
  | cons a items ih =>
    rw [List.foldlM_cons]
    exact ((h total a).bind fun total' => ih total').congr fun failure => by
      simp only [List.mem_cons, exists_eq_or_imp]

end BreaksFor

namespace Scorer

variable {s : Scorer} {fragments : Option (List Fragment)}

/-! ## Fields -/

/-- Every field and every page has a price, and the price is a double. -/
structure PricesDoubles (s : Scorer) : Prop where
  cost : ∀ name, ∃ x, s.table.costOf name = .float x
  page : ∀ limit, ∃ x, s.pagePrice limit = .ok (.float x)

theorem addTo_float (total x : Binary64) : addTo total (.float x) = .ok (total + x) := rfl

/-- The argument asks for a page with a literal that cannot be read, and this is how. -/
def Misread (s : Scorer) (argument : Argument) (failure : Failure) : Prop :=
  ∃ text e, argument = ⟨s.pageArgument, .int text⟩ ∧ WholeNumber.read text = .error e ∧
    failure = .literal e

theorem PricesDoubles.addSurcharge_breaksFor (h : s.PricesDoubles) (total : Binary64)
    (argument : Argument) : BreaksFor (s.addSurcharge total argument) (s.Misread argument) := by
  rcases s.addSurcharge_cases argument with ⟨text, rfl⟩ | hstay
  · simp only [addSurcharge, if_true]
    cases hread : WholeNumber.read text with
    | error e => exact .error ⟨text, e, rfl, hread, rfl⟩
    | ok limit =>
      obtain ⟨price, hprice⟩ := h.page limit
      simp only [hprice, bind, Except.bind, addTo_float]
      refine .ok ?_
      rintro _ ⟨text', e, he, hread', rfl⟩
      obtain rfl := Value.int.inj (Argument.mk.inj he).2
      rw [hread] at hread'
      cases hread'
  · rw [hstay]
    refine .ok ?_
    rintro _ ⟨text, e, rfl, hread, rfl⟩
    have hstay := hstay total
    simp only [addSurcharge, if_true, hread, reduceCtorEq] at hstay

theorem PricesDoubles.addField_breaksFor (h : s.PricesDoubles) (total : Binary64) (name : String)
    (arguments : List Argument) :
    BreaksFor (s.addField total name arguments) fun failure =>
      ∃ argument ∈ arguments, s.Misread argument failure := by
  obtain ⟨x, hx⟩ := h.cost name
  simp only [addField, hx, addTo_float]
  exact (BreaksFor.foldlM h.addSurcharge_breaksFor arguments Binary64.zero).map _

/-! ## Sets -/

/-- The set that a score enters at a selection: its own, or that of the fragment it spreads. -/
def entered (fragments : Option (List Fragment)) : Selection → SelectionSet
  | .spread name _ none => (resolve? fragments name).join
  | selection => selection.body

/-- A field with the name and arguments is counted in a set at `level`: it stands there or in
a set that is entered from there, and every level on the way is within the cutoff. -/
inductive Counts (s : Scorer) (fragments : Option (List Fragment)) (name : String)
    (arguments : List Argument) : SelectionSet → Int → Prop
  | here {level : Int} {selections : List Selection} {label : Option String}
      {directives : List Directive} {body : SelectionSet} (hlevel : level ≤ s.cutoff)
      (hmem : .field label name arguments directives body ∈ selections) :
      Counts s fragments name arguments (some selections) level
  | inside {level : Int} {selections : List Selection} {selection : Selection}
      (hlevel : level ≤ s.cutoff) (hmem : selection ∈ selections)
      (h : Counts s fragments name arguments (entered fragments selection) (level + 1)) :
      Counts s fragments name arguments (some selections) level

theorem Counts.level_le {name : String} {arguments : List Argument} {set : SelectionSet}
    {level : Int} (h : s.Counts fragments name arguments set level) : level ≤ s.cutoff := by
  cases h with
  | here hlevel => exact hlevel
  | inside hlevel => exact hlevel

section CountsSome

variable {P : String → List Argument → Prop} {level : Int}

/-- A field with the property is counted in a set at `level`. -/
def CountsSome (s : Scorer) (fragments : Option (List Fragment))
    (P : String → List Argument → Prop) (set : SelectionSet) (level : Int) : Prop :=
  ∃ name arguments, s.Counts fragments name arguments set level ∧ P name arguments

/-- The selection is a field with the property, or such a field is counted in the set that is
entered at it, which lies at `level`. -/
def CountsAt (s : Scorer) (fragments : Option (List Fragment))
    (P : String → List Argument → Prop) (level : Int) (selection : Selection) : Prop :=
  (∃ label name arguments directives body,
    selection = .field label name arguments directives body ∧ P name arguments) ∨
    s.CountsSome fragments P (entered fragments selection) level

theorem not_countsSome_of_lt (h : s.cutoff < level) (set : SelectionSet) :
    ¬s.CountsSome fragments P set level := by
  rintro ⟨_, _, hcounts, _⟩
  have := hcounts.level_le
  omega

theorem not_countsSome_none : ¬s.CountsSome fragments P none level := by
  rintro ⟨_, _, ⟨⟩, _⟩

/-- What is counted in a set is counted at one of its selections. -/
theorem countsSome_some (hlevel : level ≤ s.cutoff) {selections : List Selection} :
    s.CountsSome fragments P (some selections) level ↔
      ∃ selection ∈ selections, s.CountsAt fragments P (level + 1) selection := by
  constructor
  · rintro ⟨name, arguments, hcounts, hP⟩
    cases hcounts with
    | here _ hmem => exact ⟨_, hmem, .inl ⟨_, _, _, _, _, rfl, hP⟩⟩
    | inside _ hmem h => exact ⟨_, hmem, .inr ⟨name, arguments, h, hP⟩⟩
  · rintro ⟨selection, hmem, ⟨_, name, arguments, _, _, rfl, hP⟩ | ⟨name, arguments, h, hP⟩⟩
    · exact ⟨name, arguments, .here hlevel hmem, hP⟩
    · exact ⟨name, arguments, .inside hlevel hmem h, hP⟩

theorem countsAt_field {label : Option String} {name : String} {arguments : List Argument}
    {directives : List Directive} {body : SelectionSet} :
    s.CountsAt fragments P level (.field label name arguments directives body) ↔
      P name arguments ∨ s.CountsSome fragments P body level := by
  constructor
  · rintro (⟨_, _, _, _, _, ⟨⟩, h⟩ | h)
    · exact .inl h
    · exact .inr h
  · rintro (h | h)
    · exact .inl ⟨_, _, _, _, _, rfl, h⟩
    · exact .inr h

/-- At a selection that is no field, what is counted is counted in the set that is entered. -/
theorem countsAt_of_ne {selection : Selection}
    (h : ∀ label name arguments directives body,
      selection ≠ .field label name arguments directives body) :
    s.CountsAt fragments P level selection ↔
      s.CountsSome fragments P (entered fragments selection) level := by
  constructor
  · rintro (⟨_, _, _, _, _, he, _⟩ | h')
    · exact absurd he (h _ _ _ _ _)
    · exact h'
  · exact .inr

end CountsSome

/-! ## Failures -/

/-- One of the arguments asks for a page with a literal that cannot be read. -/
def MisreadField (s : Scorer) (failure : Failure) (_ : String) (arguments : List Argument) :
    Prop :=
  ∃ argument ∈ arguments, s.Misread argument failure

theorem PricesDoubles.addPlain_breaksFor (h : s.PricesDoubles) {level : Int}
    {inner : SelectionSet → Except Failure Binary64}
    (hinner : ∀ set, BreaksFor (inner set) fun failure =>
      s.CountsSome fragments (s.MisreadField failure) set level)
    (total : Binary64) (selection : Selection) :
    BreaksFor (s.addPlain fragments inner total selection) fun failure =>
      s.CountsAt fragments (s.MisreadField failure) level selection := by
  have hnested : ∀ set total, BreaksFor (do return total + (← inner set)) fun failure =>
      s.CountsSome fragments (s.MisreadField failure) set level :=
    fun set total => (hinner set).map _
  cases selection with
  | field label name arguments directives body =>
    refine .congr ?_ fun failure => countsAt_field.symm
    cases body with
    | none =>
      exact (h.addField_breaksFor total name arguments).congr fun failure => by
        simp only [MisreadField, not_countsSome_none, or_false]
    | some selections =>
      exact (h.addField_breaksFor total name arguments).bind fun total' =>
        hnested (some selections) total'
  | inline on directives body =>
    refine .congr ?_ fun failure => (countsAt_of_ne (by rintro _ _ _ _ _ ⟨⟩)).symm
    exact hnested body total
  | spread name directives body =>
    refine .congr ?_ fun failure => (countsAt_of_ne (by rintro _ _ _ _ _ ⟨⟩)).symm
    cases body with
    | some selections => exact hnested (some selections) total
    | none =>
      simp only [addPlain, entered]
      cases resolve? fragments name with
      | none => exact .ok fun _ => not_countsSome_none
      | some body => exact hnested body total
  | other =>
    refine .congr ?_ fun failure => (countsAt_of_ne (by rintro _ _ _ _ _ ⟨⟩)).symm
    exact .ok fun _ => not_countsSome_none

theorem PricesDoubles.plainScore_breaksFor (h : s.PricesDoubles) (level : Int) :
    ∀ set, BreaksFor (s.plainScore fragments set level) fun failure =>
      s.CountsSome fragments (s.MisreadField failure) set level := by
  induction level using s.level_induction with
  | below level hlevel =>
    intro set
    rw [plainScore_above hlevel]
    exact .ok fun _ => not_countsSome_of_lt hlevel set
  | within level hlevel ih =>
    intro set
    cases set with
    | none =>
      rw [plainScore_none]
      exact .ok fun _ => not_countsSome_none
    | some selections =>
      rw [plainScore_some hlevel]
      exact (BreaksFor.foldlM (h.addPlain_breaksFor ih) selections Binary64.zero).congr
        fun failure => (countsSome_some hlevel).symm

/-- A score breaks off exactly if a field that it counts asks for a page with a literal that
cannot be read, and fails as one of these literals does. -/
theorem PricesDoubles.score_breaksFor (h : s.PricesDoubles) (fragments : Option (List Fragment))
    (set : SelectionSet) (level : Int) :
    BreaksFor (s.score fragments set level) fun failure =>
      s.CountsSome fragments (s.MisreadField failure) set level := by
  unfold score
  rw [(s.scoreWithin_agree fragments level set [] memoSound_nil).1]
  exact h.plainScore_breaksFor level set

end Scorer

/-! ## Settings -/

/-- Under the usual cap and weight, every page has a price, and it is a double. -/
theorem Scorer.exists_pagePrice_float {s : Scorer} (hcap : s.pageCap = standardPageCap)
    (hweight : s.pageWeight = standardPageWeight) (limit : Int) :
    ∃ x, s.pagePrice limit = .ok (.float x) := by
  obtain ⟨weight, _, hfloat, _⟩ := hasSize_standardPageWeight
  obtain ⟨y, hy⟩ := Option.isSome_iff_exists.mp
    (show (Binary64.ofInt? (50 : Nat)).isSome = true by decide +kernel)
  obtain ⟨x, hx⟩ := Binary64.exists_ofInt?_of_le (m := (min limit.toNat 50 : Nat)) (by omega) hy
  have hsize : min (max limit 0) ((50 : Nat) : Int) = (min limit.toNat 50 : Nat) := by omega
  have hfifty : standardPageCap = .int (50 : Nat) := rfl
  refine ⟨x * weight, ?_⟩
  simp only [pagePrice, hcap, hweight, hfloat, hfifty, Quantity.min_int, hsize,
    Quantity.int_mul?_float, hx, Option.map_some]

namespace Settings

variable {settings : Settings} {scorer : Scorer}

/-- The scorer that settings describe prices every field and every page, and in doubles. -/
theorem pricesDoubles (h : settings.scorer = .ok scorer) : scorer.PricesDoubles := by
  obtain ⟨table, htable, rfl⟩ := scorer_eq_ok h
  obtain ⟨rfl, _, _⟩ := CostTable.make_eq_ok htable
  refine ⟨?_, Scorer.exists_pagePrice_float rfl rfl⟩
  intro name
  rcases CostTable.costOf_cases ⟨_, _⟩ name with ⟨entry, hentry, hcost⟩ | hcost
  · obtain ⟨listed, _, rfl⟩ := List.mem_map.mp hentry
    exact ⟨_, hcost⟩
  · exact ⟨_, hcost⟩

end Settings

end QueryAdmission
