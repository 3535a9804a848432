import QueryAdmission.Proofs.ExactSums

/-! # The literal that a score fails with

Where all prices are doubles, nothing but a page literal that cannot be read makes a score
fail. The literals are read in the order in which a reader of the expanded document comes
upon them, so the failure is that of the first one that cannot be read. That the score of
a fragment is worked out only once does not show: no fragment that fails is ever noted. -/

namespace QueryAdmission

/-! ## Failures in a row -/

/-- The failure of an outcome, if it is one. -/
def failure? {α : Type} : Except Failure α → Option Failure
  | .ok _ => none
  | .error failure => some failure

theorem failure?_eq_some {α : Type} {outcome : Except Failure α} {failure : Failure} :
    failure? outcome = some failure ↔ outcome = .error failure := by
  cases outcome <;> simp [failure?]

/-- What comes next fails only if what was done before did not. -/
theorem failure?_bind {α β : Type} {outcome : Except Failure α} {next : α → Except Failure β}
    {later : Option Failure} (h : ∀ a, failure? (next a) = later) :
    failure? (outcome >>= next) = (failure? outcome).or later := by
  cases outcome with
  | error failure => rfl
  | ok a => exact h a

/-- A list of steps fails as the first step that fails. -/
theorem failure?_foldlM {α β : Type} {f : β → α → Except Failure β} {g : α → Option Failure}
    (h : ∀ total a, failure? (f total a) = g a) (items : List α) (total : β) :
    failure? (items.foldlM f total) = items.findSome? g := by
  induction items generalizing total with
  | nil => rfl
  | cons a items ih =>
    rw [List.foldlM_cons, failure?_bind fun total' => ih total', h, List.findSome?_cons]
    cases g a <;> rfl

namespace Scorer

variable {s : Scorer} {fragments : Option (List Fragment)}

/-- How reading an argument fails, if it is a page literal that cannot be read. -/
def misreadAs? (s : Scorer) (argument : Argument) : Option Failure :=
  match argument.value with
  | .int text =>
    if argument.name = s.pageArgument then
      match WholeNumber.read text with
      | .error e => some (.literal e)
      | .ok _ => none
    else none
  | _ => none

theorem misreadAs?_page (text : String) :
    s.misreadAs? ⟨s.pageArgument, .int text⟩ =
      match WholeNumber.read text with
      | .error e => some (.literal e)
      | .ok _ => none := by
  simp only [misreadAs?, if_true]

theorem misreadAs?_of_ne {argument : Argument}
    (h : ∀ text, argument ≠ ⟨s.pageArgument, .int text⟩) : s.misreadAs? argument = none := by
  obtain ⟨name, value⟩ := argument
  cases value with
  | int text =>
    refine if_neg fun hname => h text ?_
    rw [← hname]
  | _ => rfl

theorem misreadAs?_eq_some {argument : Argument} {failure : Failure} :
    s.misreadAs? argument = some failure ↔ s.Misread argument failure := by
  by_cases hpage : ∃ text, argument = ⟨s.pageArgument, .int text⟩
  · obtain ⟨text, rfl⟩ := hpage
    rw [misreadAs?_page]
    constructor
    · intro h
      split at h
      · rename_i e hread
        exact ⟨text, e, rfl, hread, (Option.some.inj h).symm⟩
      · cases h
    · intro h
      obtain ⟨_, e, ⟨⟩, hread, rfl⟩ := h
      rw [hread]
  · have hnone := misreadAs?_of_ne (s := s) fun text htext => hpage ⟨text, htext⟩
    rw [hnone]
    constructor
    · intro h
      cases h
    · intro h
      obtain ⟨text, _, htext, _⟩ := h
      exact absurd ⟨text, htext⟩ hpage

theorem misreadAs?_eq_none {argument : Argument} :
    s.misreadAs? argument = none ↔ s.Readable argument := by
  constructor
  · intro hnone text hpage
    rw [hpage, misreadAs?_page] at hnone
    split at hnone
    · cases hnone
    · rename_i limit hread
      exact ⟨limit, hread⟩
  · intro hreadable
    by_cases hpage : ∃ text, argument = ⟨s.pageArgument, .int text⟩
    · obtain ⟨text, rfl⟩ := hpage
      obtain ⟨limit, hread⟩ := hreadable text rfl
      rw [misreadAs?_page, hread]
    · exact misreadAs?_of_ne fun text htext => hpage ⟨text, htext⟩

namespace PricesDoubles

variable (h : s.PricesDoubles)
include h

theorem failure?_addSurcharge (total : Binary64) (argument : Argument) :
    failure? (s.addSurcharge total argument) = s.misreadAs? argument := by
  by_cases hpage : ∃ text, argument = ⟨s.pageArgument, .int text⟩
  · obtain ⟨text, rfl⟩ := hpage
    simp only [misreadAs?_page, addSurcharge, if_true]
    cases WholeNumber.read text with
    | error e => rfl
    | ok limit =>
      obtain ⟨price, hprice⟩ := h.page limit
      simp only [hprice]
      rfl
  · have hstay := (s.addSurcharge_cases argument).resolve_left hpage
    rw [hstay, misreadAs?_of_ne fun text htext => hpage ⟨text, htext⟩]
    rfl

/-- A field fails as the first of its page literals that cannot be read. -/
theorem failure?_addField (total : Binary64) (name : String) (arguments : List Argument) :
    failure? (s.addField total name arguments) = arguments.findSome? s.misreadAs? := by
  obtain ⟨cost, hcost⟩ := h.cost name
  have hsurcharge : failure? (s.surcharge arguments) = arguments.findSome? s.misreadAs? :=
    failure?_foldlM h.failure?_addSurcharge arguments .zero
  simp only [addField, hcost, addTo_float]
  rw [← hsurcharge]
  cases s.surcharge arguments <;> rfl

/-- An expansion fails as the first page literal in it that cannot be read: those of a field
come before those of the set that is entered at it. -/
theorem failure?_addExpansion (e : Expansion) (total : Binary64) :
    failure? (s.addExpansion total e) = (e.fields.flatMap Prod.snd).findSome? s.misreadAs? := by
  induction e generalizing total with
  | done => rfl
  | field name arguments inner rest ihinner ihrest =>
    rw [addExpansion, failure?_bind fun own => failure?_bind fun nested => ihrest (own + nested),
      h.failure?_addField, ihinner, Expansion.fields]
    simp only [List.flatMap_cons, List.flatMap_append, List.findSome?_append]
  | other inner rest ihinner ihrest =>
    rw [addExpansion, failure?_bind fun nested => ihrest (total + nested), ihinner,
      Expansion.fields]
    simp only [List.flatMap_append, List.findSome?_append]

end PricesDoubles

/-! ## Scores -/

/-- The arguments of the fields that a score counts, in the order of the expanded document. -/
def argumentsCounted (s : Scorer) (fragments : Option (List Fragment)) (set : SelectionSet)
    (level : Int) : List Argument :=
  (s.occurrences fragments set level).flatMap Prod.snd

theorem mem_argumentsCounted_iff {argument : Argument} {set : SelectionSet} {level : Int} :
    argument ∈ s.argumentsCounted fragments set level ↔
      s.CountsSome fragments (fun _ arguments => argument ∈ arguments) set level := by
  simp only [argumentsCounted, List.mem_flatMap, Prod.exists, mem_occurrences_iff, CountsSome]

/-- With the usual cap and weight of pages, and costs that are doubles, a score fails exactly
if a field that it counts has a page literal that cannot be read. The failure is that of the
first such argument, where those of a field come before those of the set entered at it. -/
theorem score_first_misread (hcosts : ∀ name, ∃ x, s.table.costOf name = .float x)
    (hcap : s.pageCap = standardPageCap) (hweight : s.pageWeight = standardPageWeight)
    (fragments : Option (List Fragment)) (set : SelectionSet) (level : Int) :
    ((∃ failure, s.score fragments set level = .error failure) ↔
      ∃ name arguments, s.Counts fragments name arguments set level ∧
        ∃ text e, ⟨s.pageArgument, .int text⟩ ∈ arguments ∧ WholeNumber.read text = .error e) ∧
    ∀ failure, s.score fragments set level = .error failure ↔
      ∃ before argument after,
        s.argumentsCounted fragments set level = before ++ argument :: after ∧
        s.Misread argument failure ∧ ∀ earlier ∈ before, s.Readable earlier := by
  have hprices : s.PricesDoubles := ⟨hcosts, exists_pagePrice_float hcap hweight⟩
  have hfound : failure? (s.score fragments set level) =
      (s.argumentsCounted fragments set level).findSome? s.misreadAs? := by
    rw [score_eq_addExpansion, hprices.failure?_addExpansion, argumentsCounted, occurrences]
  have hfirst : ∀ failure, s.score fragments set level = .error failure ↔
      ∃ before argument after,
        s.argumentsCounted fragments set level = before ++ argument :: after ∧
        s.Misread argument failure ∧ ∀ earlier ∈ before, s.Readable earlier := by
    intro failure
    rw [← failure?_eq_some, hfound, List.findSome?_eq_some_iff]
    simp only [misreadAs?_eq_some, misreadAs?_eq_none]
  refine ⟨⟨?_, ?_⟩, hfirst⟩
  · intro hfails
    obtain ⟨failure, hfailed⟩ := hfails
    obtain ⟨before, _, after, hsplit, ⟨text, e, rfl, hread, _⟩, _⟩ := (hfirst failure).mp hfailed
    have hmem : ⟨s.pageArgument, .int text⟩ ∈ s.argumentsCounted fragments set level := by
      rw [hsplit]
      exact List.mem_append_right _ List.mem_cons_self
    obtain ⟨name, arguments, hcounts, hmem⟩ := mem_argumentsCounted_iff.mp hmem
    exact ⟨name, arguments, hcounts, text, e, hmem, hread⟩
  · intro hmisread
    obtain ⟨name, arguments, hcounts, text, e, hmem, hread⟩ := hmisread
    have hmem := mem_argumentsCounted_iff.mpr ⟨name, arguments, hcounts, hmem⟩
    have hsome : (failure? (s.score fragments set level)).isSome = true := by
      rw [hfound, List.findSome?_isSome_iff]
      exact ⟨_, hmem, by rw [misreadAs?_page, hread]; rfl⟩
    obtain ⟨failure, hfailed⟩ := Option.isSome_iff_exists.mp hsome
    exact ⟨failure, failure?_eq_some.mp hfailed⟩

/-- A scorer that looks two levels deep, at one and a float for every field. -/
def floatScorer : Scorer :=
  { standard with table := ⟨[], .float (.ofInt 1)⟩, cutoff := 1 }

/-- A fragment with a page literal that is no number. -/
def misreadFragment : List Fragment :=
  restOf [.field none "lists" [⟨"limit", .int "1_"⟩] [] none]

/-- Malformed literals in a string, under another name and below the cutoff; then a spread of the
fragment; then another malformed literal. -/
def misreadTwice : SelectionSet :=
  some [
    .field none "me" [⟨"limit", .string "ten" false⟩, ⟨"offset", .int "ten"⟩] []
      (some [.field none "users" [] [] (some [.field none "id" [⟨"limit", .int "x"⟩] [] none])]),
    .spread "unknown" [] none,
    .spread "rest" [] none,
    .field none "users" [⟨"limit", .int "ten"⟩] [] none]

/-- The score fails with the literal of the fragment, the first one that is looked at. -/
theorem score_first_misread_fragment :
    (∀ name, ∃ x, floatScorer.table.costOf name = .float x) ∧
      floatScorer.pageCap = standardPageCap ∧ floatScorer.pageWeight = standardPageWeight ∧
      floatScorer.score (some misreadFragment) misreadTwice 0 =
        .error (.literal (.malformed "1_")) := by
  have hcosts : ∀ name, ∃ x, floatScorer.table.costOf name = .float x := fun _ => ⟨_, rfl⟩
  obtain ⟨_, hfirst⟩ := score_first_misread hcosts rfl rfl (some misreadFragment) misreadTwice 0
  refine ⟨hcosts, rfl, rfl, (hfirst _).mpr
    ⟨[⟨"limit", .string "ten" false⟩, ⟨"offset", .int "ten"⟩], ⟨"limit", .int "1_"⟩,
      [⟨"limit", .int "ten"⟩], rfl, ?_, ?_⟩⟩
  · exact ⟨"1_", .malformed "1_", rfl, by decide, rfl⟩
  · intro earlier hmem text htext
    simp only [List.mem_cons, List.not_mem_nil, or_false] at hmem
    rcases hmem with rfl | rfl
    · cases (Argument.mk.inj htext).2
    · have hname : "offset" = floatScorer.pageArgument := (Argument.mk.inj htext).1
      exact absurd hname (by decide)

end Scorer

end QueryAdmission
