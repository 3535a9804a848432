import QueryAdmission.Proofs.UncutScore

/-! # What a score can see

The expansion of a selection set has the set of its fragment in the place of every spread,
down to a number of levels. A score is a sum over the expansion down to the cutoff, so it
depends on nothing below that, nor on where the levels start to count. The scorer adds the
score of a set only where there is one, the sum over the expansion everywhere: an absent
set adds a positive zero, and that changes no total, for no total is a negative zero. -/

namespace QueryAdmission

/-! ## Zeros in sums -/

namespace Binary64

theorem roundUnits_pos {units : Nat} (h : 0 < units) : 0 < roundUnits units 1 := by
  have hone : roundUnits 1 1 = 1 := roundUnits_of_short ⟨1, 0, by decide, rfl⟩
  have hle : roundUnits 1 1 ≤ roundUnits units 1 := roundUnits_mono h 1
  omega

/-- What is not zero does not round to zero. -/
theorem nearest_ne_signedZero {negative negative' : Bool} {units : Nat} (h : 0 < units) :
    nearest negative units 1 ≠ signedZero negative' := by
  intro heq
  unfold nearest at heq
  split at heq
  · have hunits : roundUnits units 1 = 0 := (Binary64.finite.inj heq).2
    exact absurd hunits (roundUnits_pos h).ne'
  · cases heq

/-- A sum is a negative zero only if its operands are. -/
theorem add_ne_negativeZero {x : Binary64} (hx : x ≠ signedZero true) (y : Binary64) :
    x + y ≠ signedZero true := by
  intro h
  have h : add x y = signedZero true := h
  cases x with
  | nan => cases h
  | infinite s =>
    cases y with
    | nan => cases h
    | infinite t =>
      simp only [add] at h
      split at h <;> cases h
    | finite => cases h
  | finite s u hs hu =>
    cases y with
    | nan => cases h
    | infinite t => cases h
    | finite t v ht hv =>
      simp only [add] at h
      split at h
      · rename_i hsum
        have hsign : (s && t) = true := (Binary64.finite.inj h).1
        obtain ⟨rfl, rfl⟩ := Bool.and_eq_true_iff.mp hsign
        have hzero : u = 0 := by
          simp only [signedUnits, if_true] at hsum
          omega
        subst hzero
        exact hx rfl
      · rename_i hsum
        exact nearest_ne_signedZero (Int.natAbs_pos.mpr hsum) h

/-- To add a zero changes nothing but a negative zero. -/
theorem add_zero {x : Binary64} (hx : x ≠ signedZero true) : x + zero = x := by
  show add x zero = x
  cases x with
  | nan => rfl
  | infinite s => rfl
  | finite s u hs hu =>
    have hsum : signedUnits s u + signedUnits false 0 = signedUnits s u := Int.add_zero _
    by_cases hzero : u = 0
    · subst hzero
      cases s with
      | false => rfl
      | true => exact absurd rfl hx
    · have hne : signedUnits s u ≠ 0 := by
        cases s <;> simp [signedUnits, hzero]
      have hsign : decide (signedUnits s u < 0) = s := by
        cases s with
        | false => exact decide_eq_false (Int.not_lt.mpr (Int.natCast_nonneg u))
        | true => exact decide_eq_true (by simp only [signedUnits, if_true]; omega)
      have habs : (signedUnits s u).natAbs = u := by
        cases s <;> simp [signedUnits]
      simp only [zero, signedZero, add, hsum, if_neg hne, hsign, habs, nearest,
        roundUnits_of_short hs, hu, dite_true]

theorem zero_ne_negativeZero : zero ≠ signedZero true := by
  rintro ⟨⟩

end Binary64

/-! ## Expansions -/

/-- What a score can see of a selection set: its selections one after the other, each with the
expansion of the set that is entered at it. Of a field it sees name and arguments; all other
selections are alike. -/
inductive Expansion where
  | done
  | field (name : String) (arguments : List Argument) (inner rest : Expansion)
  | other (inner rest : Expansion)

/-- The expansion of a set with one more selection in front, given that of the set entered at
the selection. -/
def Expansion.cons (selection : Selection) (inner rest : Expansion) : Expansion :=
  match selection with
  | .field _ name arguments _ _ => .field name arguments inner rest
  | _ => .other inner rest

namespace Scorer

variable {s : Scorer} {fragments : Option (List Fragment)}

/-- The expansion of a set down to as many levels, the first of which is its own. -/
def expansion (fragments : Option (List Fragment)) : Nat → SelectionSet → Expansion
  | 0, _ => .done
  | levels + 1, set =>
    (set.getD []).foldr
      (fun selection => .cons selection (expansion fragments levels (entered fragments selection)))
      .done

/-- The total once all that an expansion holds is added to it. -/
def addExpansion (s : Scorer) (total : Binary64) : Expansion → Except Failure Binary64
  | .done => .ok total
  | .field name arguments inner rest => do
    let total ← s.addField total name arguments
    s.addExpansion (total + (← s.addExpansion .zero inner)) rest
  | .other inner rest => do
    s.addExpansion (total + (← s.addExpansion .zero inner)) rest

/-- A selection's own share: that of a field, or nothing. -/
def addOwn (s : Scorer) (total : Binary64) : Selection → Except Failure Binary64
  | .field _ name arguments _ _ => s.addField total name arguments
  | _ => .ok total

theorem addTo_ne_negativeZero {x y : Binary64} {q : Quantity} (hx : x ≠ .signedZero true)
    (h : addTo x q = .ok y) : y ≠ .signedZero true := by
  obtain ⟨_, _, rfl⟩ := addTo_eq_ok h
  exact Binary64.add_ne_negativeZero hx _

theorem addField_ne_negativeZero {x y : Binary64} {name : String} {arguments : List Argument}
    (hx : x ≠ .signedZero true) (h : s.addField x name arguments = .ok y) :
    y ≠ .signedZero true := by
  obtain ⟨_, _, hpriced, _, rfl⟩ := addField_eq_ok h
  exact Binary64.add_ne_negativeZero (addTo_ne_negativeZero hx hpriced) _

theorem addOwn_ne_negativeZero {x y : Binary64} {selection : Selection}
    (hx : x ≠ .signedZero true) (h : s.addOwn x selection = .ok y) : y ≠ .signedZero true := by
  cases selection with
  | field label name arguments directives body => exact addField_ne_negativeZero hx h
  | inline on directives body => exact Except.ok.inj h ▸ hx
  | spread name directives body => exact Except.ok.inj h ▸ hx
  | other => exact Except.ok.inj h ▸ hx

theorem addExpansion_cons (total : Binary64) (selection : Selection) (inner rest : Expansion) :
    s.addExpansion total (.cons selection inner rest) = (do
      let own ← s.addOwn total selection
      let nested ← s.addExpansion .zero inner
      s.addExpansion (own + nested) rest) := by
  cases selection <;> rfl

/-- Every selection adds its own share and then the score of the set that is entered at it,
which is zero if there is none. -/
theorem addPlain_eq {inner : SelectionSet → Except Failure Binary64}
    (hnone : inner none = .ok .zero) {total : Binary64} (htotal : total ≠ .signedZero true)
    (selection : Selection) :
    s.addPlain fragments inner total selection = do
      let own ← s.addOwn total selection
      let nested ← inner (entered fragments selection)
      return own + nested := by
  cases selection with
  | field label name arguments directives body =>
    cases body with
    | some selections => rfl
    | none =>
      simp only [addPlain, addOwn, entered, Selection.body, hnone]
      cases hown : s.addField total name arguments with
      | error failure => rfl
      | ok own =>
        show Except.ok own = Except.ok (own + .zero)
        rw [Binary64.add_zero (addField_ne_negativeZero htotal hown)]
  | inline on directives body => rfl
  | spread name directives body =>
    cases body with
    | some selections => rfl
    | none =>
      simp only [addPlain, addOwn, entered]
      cases resolve? fragments name with
      | some body => rfl
      | none =>
        simp only [Option.join_none, hnone]
        rfl
  | other =>
    simp only [addPlain, addOwn, entered, Selection.body, hnone]
    show Except.ok total = Except.ok (total + .zero)
    rw [Binary64.add_zero htotal]

/-- To add selections one by one is to add the expansion that they begin. -/
theorem addExpansion_foldr {levels : Nat} {inner : SelectionSet → Except Failure Binary64}
    (hnone : inner none = .ok .zero)
    (hinner : ∀ set, s.addExpansion .zero (expansion fragments levels set) = inner set)
    (selections : List Selection) :
    ∀ total, total ≠ .signedZero true →
      s.addExpansion total (expansion fragments (levels + 1) (some selections)) =
        selections.foldlM (s.addPlain fragments inner) total := by
  induction selections with
  | nil =>
    intro total _
    rfl
  | cons selection rest ih =>
    intro total htotal
    have hcons : expansion fragments (levels + 1) (some (selection :: rest)) =
        .cons selection (expansion fragments levels (entered fragments selection))
          (expansion fragments (levels + 1) (some rest)) := rfl
    rw [hcons, addExpansion_cons, hinner, List.foldlM_cons, addPlain_eq hnone htotal]
    cases hown : s.addOwn total selection with
    | error failure => rfl
    | ok own =>
      cases inner (entered fragments selection) with
      | error failure => rfl
      | ok nested =>
        exact ih (own + nested)
          (Binary64.add_ne_negativeZero (addOwn_ne_negativeZero htotal hown) nested)

theorem addExpansion_eq_plainScore (level : Int) :
    ∀ set, s.addExpansion .zero (expansion fragments (s.room level) set) =
      s.plainScore fragments set level := by
  induction level using s.level_induction with
  | below level h =>
    intro set
    rw [room_of_lt h, plainScore_above h]
    rfl
  | within level h ih =>
    intro set
    rw [room_of_le h]
    cases set with
    | none =>
      rw [plainScore_none]
      rfl
    | some selections =>
      rw [plainScore_some h]
      exact addExpansion_foldr (plainScore_none (level + 1)) ih selections .zero
        Binary64.zero_ne_negativeZero

/-- A score adds up the expansion down to the cutoff. -/
theorem score_eq_addExpansion (s : Scorer) (fragments : Option (List Fragment))
    (set : SelectionSet) (level : Int) :
    s.score fragments set level =
      s.addExpansion .zero (expansion fragments (s.room level) set) := by
  rw [addExpansion_eq_plainScore]
  exact (s.scoreWithin_agree fragments level set [] memoSound_nil).1

/-! ## Levels -/

/-- A scorer with another cutoff adds the same for the same expansion. -/
theorem addExpansion_withCutoff (cutoff : Nat) (total : Binary64) (e : Expansion) :
    (s.withCutoff cutoff).addExpansion total e = s.addExpansion total e := by
  induction e generalizing total with
  | done => rfl
  | field name arguments inner rest ihi ih =>
    simp only [addExpansion, ihi, ih]
    rfl
  | other inner rest ihi ih => simp only [addExpansion, ihi, ih]

/-- A score depends on the expansion down to the cutoff and on nothing else: sets whose
expansions agree so far have the same score or the same failure, whatever stands below. Below
the cutoff every score is zero, and within it the level counts from the cutoff alone. -/
theorem score_within_cutoff (s : Scorer) (level : Int) :
    (∀ fragments fragments' set set',
      expansion fragments (s.room level) set = expansion fragments' (s.room level) set' →
      s.score fragments set level = s.score fragments' set' level) ∧
    (s.cutoff < level → ∀ fragments set, s.score fragments set level = .ok .zero) ∧
    (level ≤ s.cutoff → ∀ fragments set, s.score fragments set level =
      (s.withCutoff (s.cutoff - level).toNat).score fragments set 0) := by
  refine ⟨?_, ?_, ?_⟩
  · intro fragments fragments' set set' hexpansion
    rw [score_eq_addExpansion, score_eq_addExpansion, hexpansion]
  · intro h fragments set
    rw [score_eq_addExpansion, room_of_lt h]
    rfl
  · intro h fragments set
    have hroom : s.room level = (s.withCutoff (s.cutoff - level).toNat).room 0 := by
      simp only [room, withCutoff]
      omega
    rw [score_eq_addExpansion, score_eq_addExpansion, addExpansion_withCutoff, hroom]

/-- On the third level, below the users, stands a page literal that is no number; on the second,
beside them, a fragment is spread that spreads itself. -/
def unreadBelow : SelectionSet :=
  some [.field none "me" [] []
    (some [.field none "users" [] [] (some [.field none "lists" [⟨"limit", .int "ten"⟩] [] none]),
      .spread "rest" [] none])]

/-- The same down to the second level, with nothing below it. -/
def nothingBelow : SelectionSet :=
  some [.field none "me" [] [] (some [leafOf "users", .spread "rest" [] none])]

/-- A scorer that looks two levels deep sees neither the malformed literal nor the cycle. -/
theorem score_within_cutoff_unreadBelow :
    (expansion (some threeFieldsInCycle.fragments) ((standard.withCutoff 1).room 0) unreadBelow =
        expansion none ((standard.withCutoff 1).room 0) nothingBelow ∧
      (standard.withCutoff 1).score (some threeFieldsInCycle.fragments) unreadBelow 0 =
        (standard.withCutoff 1).score none nothingBelow 0) ∧
    (((standard.withCutoff 1).cutoff : Int) < 2 ∧
      (standard.withCutoff 1).score none unreadBelow 2 = .ok .zero) ∧
    ((3 : Int) ≤ standard.cutoff ∧
      standard.score none unreadBelow 3 =
        (standard.withCutoff ((standard.cutoff : Int) - 3).toNat).score none unreadBelow 0) := by
  have hexpansion : expansion (some threeFieldsInCycle.fragments)
      ((standard.withCutoff 1).room 0) unreadBelow =
        expansion none ((standard.withCutoff 1).room 0) nothingBelow := rfl
  have hbelow : ((standard.withCutoff 1).cutoff : Int) < 2 := by decide
  have hwithin : (3 : Int) ≤ standard.cutoff := by decide
  exact ⟨⟨hexpansion, (score_within_cutoff _ 0).1 _ _ _ _ hexpansion⟩,
    ⟨hbelow, (score_within_cutoff _ 2).2.1 hbelow _ _⟩,
    ⟨hwithin, (score_within_cutoff _ 3).2.2 hwithin _ _⟩⟩

end Scorer

end QueryAdmission
