import Mathlib.Data.List.Pairwise
import QueryAdmission.Validation.Overlap

/-! # What comparisons of sets establish

A comparison that goes through has compared all answers under common keys, of the sets
themselves and of all that they spread, and all that is selected below them. Pairs that are
kept as compared are not compared again. That is no gap: where a comparison ends, all that
was kept on the way is closed, in that the pairs which it leads to are kept as well, as long
as the steps suffice for the levels of the sets. -/

namespace QueryAdmission.Overlap

/-- The set under an answer. -/
def Sets.under? (sets : Sets) (a : Answer) : Option KeyedSet := a.body.bind (sets.byPosition[·]?)

/-- Every set is found at its own position, and all its answers under its keys. -/
structure Sets.Placed (sets : Sets) : Prop where
  position : ∀ {position : Position} {c : KeyedSet},
    sets.byPosition[position]? = some c → c.position = position
  fragment : ∀ {name : String} {c : KeyedSet},
    sets.byFragment[name]? = some c → sets.byPosition[c.position]? = some c
  keys : ∀ {position : Position} {c : KeyedSet} {key : String} {a : Answer},
    sets.byPosition[position]? = some c → a ∈ c.under key → key ∈ c.keys

/-- Not more than so many sets lie in each other, through fields and spreads. -/
def Nests (sets : Sets) : Nat → KeyedSet → Prop
  | 0, _ => False
  | n + 1, c => (∀ key, ∀ a ∈ c.under key, ∀ d, sets.under? a = some d → Nests sets n d) ∧
      ∀ name ∈ c.spreads, ∀ d, sets.byFragment[name]? = some d → Nests sets n d

/-! ## Records -/

namespace Record

/-- A set was compared with a fragment as sets that meet. -/
def Compared (record : Record) (c : KeyedSet) (name : String) : Prop :=
  record.seen[(c.position, name)]? = some false

/-- Two fragments were compared as sets that meet. -/
def ComparedFragments (record : Record) (a b : String) : Prop :=
  a = b ∨ record.seenFragments[if a < b then (a, b) else (b, a)]? = some false

/-- All that was compared as what meets is kept so. -/
structure Below (before after : Record) : Prop where
  seen : ∀ {pair : Position × String},
    before.seen[pair]? = some false → after.seen[pair]? = some false
  seenFragments : ∀ {pair : String × String},
    before.seenFragments[pair]? = some false → after.seenFragments[pair]? = some false

theorem Below.refl (record : Record) : record.Below record := ⟨id, id⟩

theorem Below.trans {before between after : Record} (h : before.Below between)
    (h' : between.Below after) : before.Below after :=
  ⟨fun hseen => h'.seen (h.seen hseen), fun hseen => h'.seenFragments (h.seenFragments hseen)⟩

theorem ComparedFragments.symm {record : Record} {a b : String}
    (h : record.ComparedFragments a b) : record.ComparedFragments b a := by
  rcases h with rfl | h
  · exact .inl rfl
  · by_cases hab : a = b
    · exact .inl hab.symm
    · refine .inr ?_
      rw [← h]
      congr 1
      by_cases hlt : a < b
      · rw [if_pos hlt, if_neg (String.lt_asymm hlt)]
      · rw [if_neg hlt, if_pos]
        exact Std.lt_of_le_of_ne (Std.not_lt.mp hlt) (Ne.symm hab)

end Record

/-- Each of two sets was compared with what the other one spreads, and what both spread was
compared with each other. -/
structure SpreadsDone (record : Record) (c d : KeyedSet) : Prop where
  right : ∀ name ∈ d.spreads, record.Compared c name
  left : ∀ name ∈ c.spreads, record.Compared d name
  both : ∀ name ∈ c.spreads, ∀ other ∈ d.spreads, record.ComparedFragments name other

/-- Two answers were compared, and what is below them. -/
inductive Done (sets : Sets) (record : Record) : Answer → Answer → Prop
  | intro {a b : Answer} (agrees : a.agrees false b = true)
      (keys : ∀ c d, sets.under? a = some c → sets.under? b = some d →
        ∀ key ∈ c.keys, ∀ a' ∈ c.under key, ∀ b' ∈ d.under key,
          a'.isApart b' = false → Done sets record a' b')
      (spreads : ∀ c d, sets.under? a = some c → sets.under? b = some d →
        SpreadsDone record c d) :
      Done sets record a b

/-- All answers of two sets under common keys were compared. -/
def KeysDone (sets : Sets) (record : Record) (c d : KeyedSet) : Prop :=
  ∀ key ∈ c.keys, ∀ a ∈ c.under key, ∀ b ∈ d.under key, a.isApart b = false → Done sets record a b

/-- A set that was compared with a fragment was compared with all that the fragment holds. -/
def Closed (sets : Sets) (record : Record) (position : Position) (name : String) : Prop :=
  ∀ c d, sets.byPosition[position]? = some c → sets.byFragment[name]? = some d →
    c.position ≠ d.position →
      KeysDone sets record c d ∧ ∀ other ∈ d.spreads, record.Compared c other

/-- Two fragments that were compared were compared with all that the other one holds. -/
def ClosedFragments (sets : Sets) (record : Record) (a b : String) : Prop :=
  ∀ c d, sets.byFragment[a]? = some c → sets.byFragment[b]? = some d →
    (KeysDone sets record c d ∨ KeysDone sets record d c) ∧
      (∀ other ∈ d.spreads, record.ComparedFragments a other) ∧
      ∀ other ∈ c.spreads, record.ComparedFragments other b

theorem ClosedFragments.symm {sets : Sets} {record : Record} {a b : String}
    (h : ClosedFragments sets record a b) : ClosedFragments sets record b a := by
  intro d c hd hc
  obtain ⟨hkeys, hright, hleft⟩ := h c d hc hd
  exact ⟨hkeys.symm, fun other hother => (hleft other hother).symm,
    fun other hother => (hright other hother).symm⟩

/-- What was newly kept as compared is closed. -/
structure Grows (sets : Sets) (final before after : Record) : Prop extends
    Record.Below before after where
  closed : ∀ position name, after.seen[(position, name)]? = some false →
    before.seen[(position, name)]? = some false ∨ Closed sets final position name
  closedFragments : ∀ a b, after.seenFragments[(a, b)]? = some false →
    before.seenFragments[(a, b)]? = some false ∨ ClosedFragments sets final a b

namespace Grows

variable {sets : Sets} {final before between after : Record}

theorem refl (sets : Sets) (final record : Record) : Grows sets final record record :=
  ⟨.refl record, fun _ _ h => .inl h, fun _ _ h => .inl h⟩

theorem trans (h : Grows sets final before between) (h' : Grows sets final between after) :
    Grows sets final before after where
  toBelow := h.toBelow.trans h'.toBelow
  closed position name hseen := by
    rcases h'.closed position name hseen with hbetween | hclosed
    · exact h.closed position name hbetween
    · exact .inr hclosed
  closedFragments a b hseen := by
    rcases h'.closedFragments a b hseen with hbetween | hclosed
    · exact h.closedFragments a b hbetween
    · exact .inr hclosed

end Grows

/-! ## What a comparison establishes -/

/-- Whenever the comparison goes through, its record grows, and the statement holds, as far as
all that is kept as compared ends up in the final record. -/
def Establishes (sets : Sets) (final : Record) (comparison : Comparison) (P : Prop) : Prop :=
  ∀ before after, comparison.run before = some ((), after) → after.Below final →
    Grows sets final before after ∧ P

section

variable {sets : Sets} {final : Record} {P Q : Prop} {first second : Comparison}

theorem Establishes.mono (h : Establishes sets final first P) (himp : P → Q) :
    Establishes sets final first Q := fun before after hrun hbelow =>
  (h before after hrun hbelow).imp_right himp

theorem establishes_pure : Establishes sets final (pure ()) True := by
  intro before after hrun _
  cases hrun
  exact ⟨.refl _ _ _, trivial⟩

theorem Establishes.bind (h : Establishes sets final first P)
    (h' : Establishes sets final second Q) :
    Establishes sets final (first >>= fun _ => second) (P ∧ Q) := by
  intro before after hrun hbelow
  rw [StateT.run_bind] at hrun
  obtain ⟨⟨_, between⟩, hfirst, hsecond⟩ := Option.bind_eq_some_iff.mp hrun
  obtain ⟨hgrows', hQ⟩ := h' between after hsecond hbelow
  obtain ⟨hgrows, hP⟩ := h before between hfirst (hgrows'.toBelow.trans hbelow)
  exact ⟨hgrows.trans hgrows', hP, hQ⟩

theorem establishes_forM {α : Type} {l : List α} {compare : α → Comparison} {P : α → Prop}
    (h : ∀ a ∈ l, Establishes sets final (compare a) (P a)) :
    Establishes sets final (l.forM compare) (∀ a ∈ l, P a) := by
  induction l with
  | nil => exact establishes_pure.mono fun _ => nofun
  | cons a l ih =>
    refine (Establishes.bind (h a List.mem_cons_self)
      (ih fun b hb => h b (List.mem_cons_of_mem a hb))).mono ?_
    exact List.forall_mem_cons.mpr

theorem establishes_failure : Establishes sets final failure P := nofun

theorem run_count (before : Record) :
    count.run before = if before.comparisons < comparisonLimit then
      some ((), { before with comparisons := before.comparisons + 1 }) else none := by
  rw [count, StateT.run_bind]
  change StateT.run (if _ then _ else _) before = _
  split <;> rfl

theorem count_run {before after : Record} (h : count.run before = some ((), after)) :
    after.seen = before.seen ∧ after.seenFragments = before.seenFragments := by
  rw [run_count] at h
  split at h
  · cases h
    exact ⟨rfl, rfl⟩
  · cases h

theorem grows_of_eq {before after : Record} (hseen : after.seen = before.seen)
    (hfragments : after.seenFragments = before.seenFragments) : Grows sets final before after := by
  refine ⟨⟨?_, ?_⟩, ?_, ?_⟩ <;> simp only [hseen, hfragments]
  · exact id
  · exact id
  · exact fun _ _ => .inl
  · exact fun _ _ => .inl

theorem establishes_count : Establishes sets final count True := fun _ _ hrun _ =>
  ⟨grows_of_eq (count_run hrun).1 (count_run hrun).2, trivial⟩

theorem run_onceWithFragment (apart : Bool) (c : KeyedSet) (name : String) (compare : Comparison)
    (before : Record) :
    (onceWithFragment apart c name compare).run before = (count.run before).bind fun counted =>
      if covers apart counted.2.seen[(c.position, name)]? then some ((), counted.2)
      else compare.run { counted.2 with
        seen := counted.2.seen.insert (c.position, name) apart } := by
  rw [onceWithFragment, StateT.run_bind]
  refine congrArg _ (funext fun counted => ?_)
  change StateT.run (if _ then _ else _) counted.2 = _
  split <;> rfl

theorem onceWithFragment_run {apart : Bool} {c : KeyedSet} {name : String} {compare : Comparison}
    {before after : Record}
    (h : (onceWithFragment apart c name compare).run before = some ((), after)) :
    ∃ counted, counted.seen = before.seen ∧ counted.seenFragments = before.seenFragments ∧
      ((covers apart counted.seen[(c.position, name)]? = true ∧ after = counted) ∨
        covers apart counted.seen[(c.position, name)]? = false ∧
          compare.run { counted with seen := counted.seen.insert (c.position, name) apart } =
            some ((), after)) := by
  rw [run_onceWithFragment] at h
  obtain ⟨⟨_, counted⟩, hcount, h⟩ := Option.bind_eq_some_iff.mp h
  obtain ⟨hseen, hfragments⟩ := count_run hcount
  refine ⟨counted, hseen, hfragments, ?_⟩
  cases hcovers : covers apart counted.seen[(c.position, name)]? with
  | true =>
    rw [if_pos hcovers] at h
    cases h
    exact .inl ⟨rfl, rfl⟩
  | false =>
    rw [if_neg (Bool.not_eq_true _ ▸ hcovers)] at h
    exact .inr ⟨rfl, h⟩

theorem covers_false_iff {before : Option Bool} :
    covers false before = true ↔ before = some false := by
  cases before with
  | none => simp [covers]
  | some b => cases b <;> simp [covers]

theorem covers_some_false (apart : Bool) : covers apart (some false) = true := by simp [covers]

/-- To keep a pair as compared loses none, and adds at most this one. -/
theorem getElem?_insert_of_covers {α : Type} [BEq α] [LawfulBEq α] [Hashable α] [LawfulHashable α]
    {seen : Std.HashMap α Bool} {apart : Bool} {pair : α}
    (h : covers apart seen[pair]? = false) (other : α) :
    (seen[other]? = some false → (seen.insert pair apart)[other]? = some false) ∧
      ((seen.insert pair apart)[other]? = some false →
        seen[other]? = some false ∨ other = pair ∧ apart = false) := by
  rw [Std.HashMap.getElem?_insert]
  split
  · rename_i heq
    obtain rfl := beq_iff_eq.mp heq
    refine ⟨fun hother => ?_, fun hother => .inr ⟨rfl, Option.some.inj hother⟩⟩
    rw [hother, covers_some_false] at h
    cases h
  · exact ⟨id, .inl⟩

theorem grows_insert {record : Record} {apart : Bool} {position : Position} {name : String}
    (h : covers apart record.seen[(position, name)]? = false)
    (hclosed : apart = false → Closed sets final position name) :
    Grows sets final record
      { record with seen := record.seen.insert (position, name) apart } where
  seen {pair} := (getElem?_insert_of_covers h pair).1
  seenFragments := id
  closed other otherName hother :=
    ((getElem?_insert_of_covers h _).2 hother).imp_right fun ⟨hpair, hmeet⟩ => by
      obtain ⟨rfl, rfl⟩ := Prod.mk.inj hpair
      exact hclosed hmeet
  closedFragments _ _ := .inl

theorem grows_insertFragments {record : Record} {apart : Bool} {pair : String × String}
    (h : covers apart record.seenFragments[pair]? = false)
    (hclosed : apart = false → ClosedFragments sets final pair.1 pair.2) :
    Grows sets final record
      { record with seenFragments := record.seenFragments.insert pair apart } where
  seen := id
  seenFragments {other} := (getElem?_insert_of_covers h other).1
  closed _ _ := .inl
  closedFragments a b hother :=
    ((getElem?_insert_of_covers h _).2 hother).imp_right fun ⟨hpair, hmeet⟩ => by
      subst hpair
      exact hclosed hmeet

/-- A set is kept as compared with a fragment, if the comparison closes this pair. -/
theorem establishes_onceWithFragment {apart : Bool} {c : KeyedSet} {name : String}
    {compare : Comparison} (h : Establishes sets final compare P)
    (hclosed : apart = false → P → Closed sets final c.position name) :
    Establishes sets final (onceWithFragment apart c name compare)
      (apart = false → final.Compared c name) := by
  intro before after hrun hbelow
  obtain ⟨counted, hseen, hfragments, ⟨hcovers, rfl⟩ | ⟨hcovers, hcompare⟩⟩ :=
    onceWithFragment_run hrun
  · refine ⟨grows_of_eq hseen hfragments, ?_⟩
    rintro rfl
    exact hbelow.seen (covers_false_iff.mp hcovers)
  · obtain ⟨hgrows, hP⟩ := h _ _ hcompare hbelow
    have hinsert := grows_insert hcovers fun hmeet => hclosed hmeet hP
    refine ⟨((grows_of_eq hseen hfragments).trans hinsert).trans hgrows, ?_⟩
    rintro rfl
    exact hbelow.seen (hgrows.seen (by simp))

theorem run_onceFragments (apart : Bool) (a b : String) (compare : Comparison) (before : Record) :
    (onceFragments apart a b compare).run before = (count.run before).bind fun counted =>
      if a == b || covers apart counted.2.seenFragments[if a < b then (a, b) else (b, a)]? then
        some ((), counted.2)
      else compare.run { counted.2 with
        seenFragments :=
          counted.2.seenFragments.insert (if a < b then (a, b) else (b, a)) apart } := by
  rw [onceFragments, StateT.run_bind]
  refine congrArg _ (funext fun counted => ?_)
  generalize (if a < b then (a, b) else (b, a)) = pair
  change StateT.run (if _ then _ else _) counted.2 = _
  split <;> rfl

theorem onceFragments_run {apart : Bool} {a b : String} {compare : Comparison}
    {before after : Record} (h : (onceFragments apart a b compare).run before = some ((), after)) :
    ∃ counted, counted.seen = before.seen ∧ counted.seenFragments = before.seenFragments ∧
      ((a = b ∨ covers apart counted.seenFragments[if a < b then (a, b) else (b, a)]? = true) ∧
          after = counted ∨
        covers apart counted.seenFragments[if a < b then (a, b) else (b, a)]? = false ∧
          compare.run { counted with seenFragments :=
            counted.seenFragments.insert (if a < b then (a, b) else (b, a)) apart } =
              some ((), after)) := by
  rw [run_onceFragments] at h
  obtain ⟨⟨_, counted⟩, hcount, h⟩ := Option.bind_eq_some_iff.mp h
  obtain ⟨hseen, hfragments⟩ := count_run hcount
  refine ⟨counted, hseen, hfragments, ?_⟩
  generalize (if a < b then (a, b) else (b, a)) = pair at h ⊢
  simp only at h
  split at h
  · rename_i hskip
    cases h
    exact .inl ⟨(Bool.or_eq_true _ _ ▸ hskip).imp_left beq_iff_eq.mp, rfl⟩
  · rename_i hskip
    exact .inr ⟨(Bool.or_eq_false_iff.mp (Bool.not_eq_true _ ▸ hskip)).2, h⟩

/-- Two fragments are kept as compared, if the comparison closes this pair. -/
theorem establishes_onceFragments {apart : Bool} {a b : String} {compare : Comparison}
    (h : Establishes sets final compare P)
    (hclosed : apart = false → P → ClosedFragments sets final a b) :
    Establishes sets final (onceFragments apart a b compare)
      (apart = false → final.ComparedFragments a b) := by
  intro before after hrun hbelow
  obtain ⟨counted, hseen, hfragments, ⟨hcovers, rfl⟩ | ⟨hcovers, hcompare⟩⟩ :=
    onceFragments_run hrun
  · refine ⟨grows_of_eq hseen hfragments, ?_⟩
    rintro rfl
    exact hcovers.imp_right fun hcovers => hbelow.seenFragments (covers_false_iff.mp hcovers)
  · obtain ⟨hgrows, hP⟩ := h _ _ hcompare hbelow
    have hinsert := grows_insertFragments hcovers fun hmeet => by
      split
      · exact hclosed hmeet hP
      · exact (hclosed hmeet hP).symm
    refine ⟨((grows_of_eq hseen hfragments).trans hinsert).trans hgrows, ?_⟩
    rintro rfl
    exact .inr (hbelow.seenFragments (hgrows.seenFragments (by simp)))

end

/-! ## Steps that suffice -/

/-- Not more than so many sets lie in each other under an answer. -/
def NestsUnder (sets : Sets) (n : Nat) (a : Answer) : Prop :=
  ∀ c, sets.under? a = some c → Nests sets n c

/-- Not more than so many sets lie in each other in a fragment. -/
def NestsIn (sets : Sets) (n : Nat) (name : String) : Prop :=
  ∀ c, sets.byFragment[name]? = some c → Nests sets n c

section

variable {sets : Sets} {final : Record} {fuel m n : Nat} {apart : Bool} {c d : KeyedSet}
  {a b : Answer}

theorem Nests.below (h : Nests sets n c) :
    ∃ m, n = m + 1 ∧ (∀ key, ∀ a ∈ c.under key, NestsUnder sets m a) ∧
      ∀ name ∈ c.spreads, NestsIn sets m name := by
  cases n with
  | zero => exact h.elim
  | succ m => exact ⟨m, rfl, h.1, h.2⟩

theorem Sets.Placed.under (h : sets.Placed) (hunder : sets.under? a = some c) :
    sets.byPosition[c.position]? = some c := by
  obtain ⟨position, _, hfound⟩ := Option.bind_eq_some_iff.mp hunder
  rw [h.position hfound]
  exact hfound

/-- What comparisons with so many steps establish. -/
structure Compares (sets : Sets) (final : Record) (fuel : Nat) : Prop where
  answers : ∀ {apart : Bool} {a b : Answer} {m n : Nat}, NestsUnder sets m a → NestsUnder sets n b →
    (apart = false → 3 * (m + n) + 1 ≤ fuel) →
      Establishes sets final (compareAnswers sets fuel apart a b)
        (apart = false → a.isApart b = false → Done sets final a b)
  keys : ∀ {apart : Bool} {c d : KeyedSet} {m n : Nat}, Nests sets m c → Nests sets n d →
    (apart = false → 3 * (m + n) ≤ fuel + 1) →
      Establishes sets final (compareKeys sets fuel apart c d)
        (apart = false → KeysDone sets final c d)
  whole : ∀ {apart : Bool} {c d : KeyedSet} {m n : Nat},
    sets.byPosition[c.position]? = some c → sets.byPosition[d.position]? = some d →
    Nests sets m c → Nests sets n d →
    (apart = false → 3 * (m + n) ≤ fuel) →
      Establishes sets final (compareSets sets fuel apart c d)
        (apart = false → KeysDone sets final c d ∧ SpreadsDone final c d)
  withFragment : ∀ {apart : Bool} {c : KeyedSet} {name : String} {m n : Nat},
    sets.byPosition[c.position]? = some c → Nests sets m c → NestsIn sets n name →
    (apart = false → 3 * (m + n) ≤ fuel) →
      Establishes sets final (compareWithFragment sets fuel apart c name)
        (apart = false → final.Compared c name)
  fragments : ∀ {apart : Bool} {a b : String} {m n : Nat}, NestsIn sets m a → NestsIn sets n b →
    (apart = false → 3 * (m + n) + 1 ≤ fuel) →
      Establishes sets final (compareFragments sets fuel apart a b)
        (apart = false → final.ComparedFragments a b)

theorem compares_zero (sets : Sets) (final : Record) : Compares sets final 0 where
  answers _ _ hfuel := establishes_pure.mono fun _ hmeet => by
    have := hfuel hmeet
    omega
  keys hc hd hfuel := establishes_pure.mono fun _ hmeet => by
    obtain ⟨_, rfl, _⟩ := hc.below
    have := hfuel hmeet
    omega
  whole _ _ hc _ hfuel := establishes_pure.mono fun _ hmeet => by
    obtain ⟨_, rfl, _⟩ := hc.below
    have := hfuel hmeet
    omega
  withFragment _ hc _ hfuel := establishes_pure.mono fun _ hmeet => by
    obtain ⟨_, rfl, _⟩ := hc.below
    have := hfuel hmeet
    omega
  fragments _ _ hfuel := establishes_pure.mono fun _ hmeet => by
    have := hfuel hmeet
    omega

/-- An answer needs one step more than what is below it. -/
theorem Compares.answers_succ (hplaced : sets.Placed) (h : Compares sets final fuel)
    (ha : NestsUnder sets m a) (hb : NestsUnder sets n b)
    (hfuel : apart = false → 3 * (m + n) + 1 ≤ fuel + 1) :
    Establishes sets final (compareAnswers sets (fuel + 1) apart a b)
      (apart = false → a.isApart b = false → Done sets final a b) := by
  rw [compareAnswers]
  refine (Establishes.bind (Q := apart = false → a.isApart b = false → Done sets final a b)
    establishes_count ?_).mono And.right
  simp only
  split
  · exact establishes_failure
  · rename_i hagrees
    simp only [Bool.not_eq_true', Bool.not_eq_false] at hagrees
    split
    · rename_i c d hc hd
      have hsteps : (apart || a.isApart b) = false → 3 * (m + n) ≤ fuel := fun hmeet => by
        have := hfuel (Bool.or_eq_false_iff.mp hmeet).1
        omega
      refine (h.whole (hplaced.under hc) (hplaced.under hd) (ha c hc) (hb d hd) hsteps).mono
        fun hdone hapart hmeet => ?_
      rw [hapart, hmeet] at hagrees
      obtain ⟨hkeys, hspreads⟩ := hdone (by rw [hapart, hmeet]; rfl)
      refine .intro hagrees ?_ ?_ <;> intro c' d' hc' hd' <;>
        obtain rfl := Option.some.inj (hc.symm.trans hc') <;>
        obtain rfl := Option.some.inj (hd.symm.trans hd')
      · exact hkeys
      · exact hspreads
    · rename_i hnone
      refine establishes_pure.mono fun _ hapart hmeet => ?_
      rw [hapart, hmeet] at hagrees
      exact .intro hagrees (fun c d hc hd => (hnone c d hc hd).elim)
        fun c d hc hd => (hnone c d hc hd).elim

theorem Compares.keys_succ (h : Compares sets final fuel) (hc : Nests sets m c)
    (hd : Nests sets n d) (hfuel : apart = false → 3 * (m + n) ≤ fuel + 1 + 1) :
    Establishes sets final (compareKeys sets (fuel + 1) apart c d)
      (apart = false → KeysDone sets final c d) := by
  obtain ⟨m, rfl, hm, _⟩ := hc.below
  obtain ⟨n, rfl, hn, _⟩ := hd.below
  rw [compareKeys]
  refine (establishes_forM (P := fun key => ∀ a ∈ c.under key, ∀ b ∈ d.under key, apart = false →
    a.isApart b = false → Done sets final a b) fun key _ => ?_).mono
      fun hkeys hmeet key hkey a ha b hb => hkeys key hkey a ha b hb hmeet
  simp only
  split
  · rename_i hempty
    refine establishes_pure.mono fun _ a _ b hb => ?_
    rw [List.isEmpty_iff.mp hempty] at hb
    cases hb
  · exact establishes_forM fun a ha => establishes_forM fun b hb =>
      h.answers (hm key a ha) (hn key b hb) fun hmeet => by
        have := hfuel hmeet
        omega

theorem Compares.whole_succ (h : Compares sets final fuel)
    (hcplace : sets.byPosition[c.position]? = some c)
    (hdplace : sets.byPosition[d.position]? = some d) (hc : Nests sets m c)
    (hd : Nests sets n d) (hfuel : apart = false → 3 * (m + n) ≤ fuel + 1) :
    Establishes sets final (compareSets sets (fuel + 1) apart c d)
      (apart = false → KeysDone sets final c d ∧ SpreadsDone final c d) := by
  obtain ⟨k, hk, _, hcspreads⟩ := hc.below
  obtain ⟨l, hl, _, hdspreads⟩ := hd.below
  rw [compareSets]
  refine ((h.keys hc hd hfuel).bind <|
    (establishes_forM fun name hname => h.withFragment hcplace hc (hdspreads name hname)
      fun hmeet => by have := hfuel hmeet; omega).bind <|
    (establishes_forM fun name hname => h.withFragment hdplace hd (hcspreads name hname)
      fun hmeet => by have := hfuel hmeet; omega).bind <|
    establishes_forM fun name hname => establishes_forM fun other hother =>
      h.fragments (hcspreads name hname) (hdspreads other hother)
        fun hmeet => by have := hfuel hmeet; omega).mono ?_
  rintro ⟨hkeys, hright, hleft, hboth⟩ hmeet
  exact ⟨hkeys hmeet, fun name hname => hright name hname hmeet,
    fun name hname => hleft name hname hmeet,
    fun name hname other hother => hboth name hname other hother hmeet⟩

theorem Compares.withFragment_succ (h : Compares sets final fuel) {name : String}
    (hplace : sets.byPosition[c.position]? = some c) (hc : Nests sets m c)
    (hname : NestsIn sets n name) (hfuel : apart = false → 3 * (m + n) ≤ fuel + 1) :
    Establishes sets final (compareWithFragment sets (fuel + 1) apart c name)
      (apart = false → final.Compared c name) := by
  rw [compareWithFragment]
  refine establishes_onceWithFragment (P := ∀ d, sets.byFragment[name]? = some d →
    c.position ≠ d.position → (apart = false → KeysDone sets final c d) ∧
      ∀ other ∈ d.spreads, apart = false → final.Compared c other) ?_ ?_
  · split
    · rename_i d hd
      obtain ⟨l, hl, _, hspreads⟩ := (hname d hd).below
      split
      · refine ((h.keys hc (hname d hd) hfuel).bind
          (establishes_forM fun other hother => h.withFragment hplace hc (hspreads other hother)
            fun hmeet => by have := hfuel hmeet; omega)).mono fun hdone d' hd' _ => ?_
        obtain rfl := Option.some.inj (hd.symm.trans hd')
        exact hdone
      · rename_i hsame
        refine establishes_pure.mono fun _ d' hd' hne => ?_
        obtain rfl := Option.some.inj (hd.symm.trans hd')
        exact absurd (by simpa using hsame) hne
    · rename_i hnone
      exact establishes_pure.mono fun _ d hd => by rw [hnone] at hd; cases hd
  · intro hmeet hdone c' d hc' hd hne
    obtain rfl := Option.some.inj (hplace.symm.trans hc')
    obtain ⟨hkeys, hspreads⟩ := hdone d hd hne
    exact ⟨hkeys hmeet, fun other hother => hspreads other hother hmeet⟩

theorem Compares.fragments_succ (h : Compares sets final fuel) {a b : String}
    (ha : NestsIn sets m a) (hb : NestsIn sets n b)
    (hfuel : apart = false → 3 * (m + n) + 1 ≤ fuel + 1) :
    Establishes sets final (compareFragments sets (fuel + 1) apart a b)
      (apart = false → final.ComparedFragments a b) := by
  rw [compareFragments]
  refine establishes_onceFragments (P := ∀ c d, sets.byFragment[a]? = some c →
    sets.byFragment[b]? = some d → (apart = false → KeysDone sets final c d) ∧
      (∀ other ∈ d.spreads, apart = false → final.ComparedFragments a other) ∧
      ∀ other ∈ c.spreads, apart = false → final.ComparedFragments other b) ?_ ?_
  · split
    · rename_i c d hc hd
      obtain ⟨k, hk, _, hcspreads⟩ := (ha c hc).below
      obtain ⟨l, hl, _, hdspreads⟩ := (hb d hd).below
      refine ((h.keys (ha c hc) (hb d hd) fun hmeet => by have := hfuel hmeet; omega).bind <|
        (establishes_forM fun other hother => h.fragments ha (hdspreads other hother)
          fun hmeet => by have := hfuel hmeet; omega).bind <|
        establishes_forM fun other hother => h.fragments (hcspreads other hother) hb
          fun hmeet => by have := hfuel hmeet; omega).mono fun hdone c' d' hc' hd' => ?_
      obtain rfl := Option.some.inj (hc.symm.trans hc')
      obtain rfl := Option.some.inj (hd.symm.trans hd')
      exact hdone
    · rename_i hnone
      exact establishes_pure.mono fun _ c d hc hd => (hnone c d hc hd).elim
  · intro hmeet hdone c d hc hd
    obtain ⟨hkeys, hright, hleft⟩ := hdone c d hc hd
    exact ⟨.inl (hkeys hmeet), fun other hother => hright other hother hmeet,
      fun other hother => hleft other hother hmeet⟩

/-- Three steps for each of the levels of both sides suffice. -/
theorem compares (hplaced : sets.Placed) (final : Record) (fuel : Nat) :
    Compares sets final fuel := by
  induction fuel with
  | zero => exact compares_zero sets final
  | succ fuel ih =>
    exact ⟨ih.answers_succ hplaced, ih.keys_succ, ih.whole_succ, ih.withFragment_succ,
      ih.fragments_succ⟩

end

/-! ## Whole documents -/

section

variable {sets : Sets} {final : Record}

theorem establishes_eachPair {α : Type} {l : List α} {relate : α → α → Comparison}
    {R : α → α → Prop} (h : ∀ a ∈ l, ∀ b ∈ l, Establishes sets final (relate a b) (R a b)) :
    Establishes sets final (eachPair relate l) (l.Pairwise R) := by
  induction l with
  | nil => exact establishes_pure.mono fun _ => List.Pairwise.nil
  | cons a l ih =>
    refine ((establishes_forM fun b hb => h a List.mem_cons_self b (List.mem_cons_of_mem a hb)).bind
      (ih fun b hb c hc => h b (List.mem_cons_of_mem a hb) c (List.mem_cons_of_mem a hc))).mono ?_
    exact List.pairwise_cons.mpr

/-- What meets within a set was compared. -/
structure WithinDone (sets : Sets) (final : Record) (c : KeyedSet) : Prop where
  keys : ∀ key ∈ c.keys, (c.under key).Pairwise
    fun a b => a.isApart b = false → Done sets final a b
  spreads : ∀ name ∈ c.spreads, final.Compared c name
  both : c.spreads.Pairwise final.ComparedFragments

theorem establishes_compareWithin (hplaced : sets.Placed) {c : KeyedSet} {n fuel : Nat}
    (hplace : sets.byPosition[c.position]? = some c) (hc : Nests sets n c) (hfuel : 6 * n ≤ fuel) :
    Establishes sets final (compareWithin sets fuel c) (WithinDone sets final c) := by
  have h := compares hplaced final fuel
  obtain ⟨m, rfl, hm, hspreads⟩ := hc.below
  rw [compareWithin]
  refine ((establishes_forM fun key _ => establishes_eachPair fun a ha b hb =>
      h.answers (hm key a ha) (hm key b hb) fun _ => by omega).bind <|
    (establishes_forM fun name hname => h.withFragment hplace hc (hspreads name hname)
      fun _ => by omega).bind <|
    establishes_eachPair fun a ha b hb => h.fragments (hspreads a ha) (hspreads b hb)
      fun _ => by omega).mono ?_
  rintro ⟨hkeys, hwith, hboth⟩
  exact ⟨fun key hkey => (hkeys key hkey).imp fun hdone => hdone rfl,
    fun name hname => hwith name hname rfl, hboth.imp fun hdone => hdone rfl⟩

/-- All sets were compared within themselves, and all that was kept as compared is closed. -/
structure Consistent (sets : Sets) (final : Record) (n : Nat) : Prop where
  placed : sets.Placed
  nests : ∀ {position : Position} {c : KeyedSet},
    sets.byPosition[position]? = some c → Nests sets n c
  within : ∀ {position : Position} {c : KeyedSet},
    sets.byPosition[position]? = some c → WithinDone sets final c
  closed : ∀ {c : KeyedSet} {name : String},
    final.Compared c name → Closed sets final c.position name
  closedFragments : ∀ {a b : String}, final.ComparedFragments a b →
    a = b ∨ ClosedFragments sets final a b

/-- A comparison of all sets that goes through leaves nothing open. -/
theorem exists_consistent (hplaced : sets.Placed) {all : List KeyedSet} {n fuel : Nat}
    (hall : ∀ {position : Position} {c : KeyedSet}, sets.byPosition[position]? = some c → c ∈ all)
    (hplace : ∀ c ∈ all, sets.byPosition[c.position]? = some c)
    (hnests : ∀ c ∈ all, Nests sets n c) (hfuel : 6 * n ≤ fuel)
    (h : ((all.forM (compareWithin sets fuel)).run .fresh).isSome = true) :
    ∃ final, Consistent sets final n := by
  obtain ⟨⟨_, final⟩, hrun⟩ := Option.isSome_iff_exists.mp h
  obtain ⟨hgrows, hwithin⟩ := (establishes_forM fun c hc => establishes_compareWithin hplaced
    (hplace c hc) (hnests c hc) hfuel) _ final hrun (.refl final)
  refine ⟨final, hplaced, fun hc => hnests _ (hall hc), fun hc => hwithin _ (hall hc), ?_, ?_⟩
  · intro c name hcompared
    rcases hgrows.closed _ _ hcompared with hfresh | hclosed
    · rw [Record.fresh, Std.HashMap.getElem?_empty] at hfresh
      cases hfresh
    · exact hclosed
  · rintro a b (rfl | hcompared)
    · exact .inl rfl
    · refine .inr ?_
      split at hcompared <;> rcases hgrows.closedFragments _ _ hcompared with hfresh | hclosed
      · rw [Record.fresh, Std.HashMap.getElem?_empty] at hfresh
        cases hfresh
      · exact hclosed
      · rw [Record.fresh, Std.HashMap.getElem?_empty] at hfresh
        cases hfresh
      · exact hclosed.symm

end

/-! ## Answers that meet -/

/-- A set opens another one, by a spread in it or in what it opens. -/
inductive Opens (sets : Sets) : KeyedSet → KeyedSet → Prop
  | refl (c : KeyedSet) : Opens sets c c
  | spread {c d e : KeyedSet} {name : String} (hname : name ∈ c.spreads)
      (hfound : sets.byFragment[name]? = some d) (h : Opens sets d e) : Opens sets c e

/-- The answers are one, or they were compared. -/
def Joined (sets : Sets) (final : Record) (a b : Answer) : Prop :=
  a = b ∨ Done sets final a b ∨ Done sets final b a

/-- Answers of two sets under one key are joined. -/
def KeysMeet (sets : Sets) (final : Record) (c d : KeyedSet) : Prop :=
  ∀ key, ∀ a ∈ c.under key, ∀ b ∈ d.under key, a.isApart b = false → Joined sets final a b

/-- All answers that two sets lead to are joined if they have one key. -/
def Meet (sets : Sets) (final : Record) (c d : KeyedSet) : Prop :=
  ∀ c' d', Opens sets c c' → Opens sets d d' → KeysMeet sets final c' d'

section

variable {sets : Sets} {final : Record} {limit : Nat} {c d : KeyedSet}

theorem isApart_comm (a b : Answer) : a.isApart b = b.isApart a := by
  unfold Answer.isApart
  cases a.parent <;> cases b.parent <;> simp [bne_comm]

theorem KeysMeet.symm (h : KeysMeet sets final c d) : KeysMeet sets final d c := by
  intro key b hb a ha hmeet
  rw [isApart_comm] at hmeet
  rcases h key a ha b hb hmeet with rfl | hab | hba
  · exact .inl rfl
  · exact .inr (.inr hab)
  · exact .inr (.inl hba)

theorem Meet.symm (h : Meet sets final c d) : Meet sets final d c :=
  fun d' c' hd hc => (h c' d' hc hd).symm

theorem KeysDone.meet (h : KeysDone sets final c d)
    (hkeys : ∀ {key a}, a ∈ c.under key → key ∈ c.keys) : KeysMeet sets final c d :=
  fun key a ha b hb hmeet => .inr (.inl (h key (hkeys ha) a ha b hb hmeet))

namespace Consistent

variable (h : Consistent sets final limit)

include h

theorem keysMeet_self (hc : sets.byPosition[c.position]? = some c) : KeysMeet sets final c c := by
  intro key a ha b hb hmeet
  have hpairs := (h.within hc).keys key (h.placed.keys hc ha)
  by_cases hsame : a = b
  · exact .inl hsame
  · have hsymm : Std.Symm fun a b => a.isApart b = false →
        Done sets final a b ∨ Done sets final b a :=
      ⟨fun a b hab hba => (hab (isApart_comm a b ▸ hba)).symm⟩
    have heither : (c.under key).Pairwise fun a b => a.isApart b = false →
        Done sets final a b ∨ Done sets final b a :=
      hpairs.imp fun hdone hab => .inl (hdone hab)
    exact .inr (heither.forall ha hb hsame hmeet)

/-- A set that was compared with a fragment meets all that the fragment leads to. -/
theorem keysMeet_of_compared (hc : sets.byPosition[c.position]? = some c) {name : String}
    (hcompared : final.Compared c name) (hd : sets.byFragment[name]? = some d) {e : KeyedSet}
    (hopens : Opens sets d e) : KeysMeet sets final c e := by
  induction hopens generalizing name with
  | refl d =>
    by_cases hsame : c.position = d.position
    · have hplace := h.placed.fragment hd
      rw [← hsame] at hplace
      obtain rfl := Option.some.inj (hc.symm.trans hplace)
      exact h.keysMeet_self hc
    · exact (h.closed hcompared c d hc hd hsame).1.meet (h.placed.keys hc)
  | @spread d f e other hother hfound _ ih =>
    refine ih ?_ hfound
    by_cases hsame : c.position = d.position
    · have hplace := h.placed.fragment hd
      rw [← hsame] at hplace
      obtain rfl := Option.some.inj (hc.symm.trans hplace)
      exact (h.within hc).spreads other hother
    · exact (h.closed hcompared c d hc hd hsame).2 other hother

/-- Two sets meet, if their answers do, and each meets what the other one spreads. -/
theorem meet_of_spreads (hc : sets.byPosition[c.position]? = some c)
    (hd : sets.byPosition[d.position]? = some d) (hkeys : KeysMeet sets final c d)
    (hspreads : SpreadsDone final c d)
    (hboth : ∀ name ∈ c.spreads, ∀ other ∈ d.spreads, ∀ e f, sets.byFragment[name]? = some e →
      sets.byFragment[other]? = some f → Meet sets final e f) : Meet sets final c d := by
  intro c' d' hopens hopens'
  cases hopens with
  | refl =>
    cases hopens' with
    | refl => exact hkeys
    | spread hname hfound hopens' =>
      exact h.keysMeet_of_compared hc (hspreads.right _ hname) hfound hopens'
  | spread hname hfound hopens =>
    cases hopens' with
    | refl => exact (h.keysMeet_of_compared hd (hspreads.left _ hname) hfound hopens).symm
    | spread hother hfound' hopens' =>
      exact hboth _ hname _ hother _ _ hfound hfound' c' d' hopens hopens'

theorem spreadsDone_self (hc : sets.byPosition[c.position]? = some c) : SpreadsDone final c c := by
  have hwithin := h.within hc
  refine ⟨hwithin.spreads, hwithin.spreads, fun name hname other hother => ?_⟩
  by_cases hsame : name = other
  · exact .inl hsame
  · have hsymm : Std.Symm final.ComparedFragments := ⟨fun _ _ => Record.ComparedFragments.symm⟩
    exact hwithin.both.forall hname hother hsame

/-- Sets with a number of levels meet themselves, and fragments that were compared meet. The
induction is on the levels of both sides together. -/
theorem meet_within_levels (k : Nat) :
    (∀ {n : Nat} {c : KeyedSet}, 2 * n ≤ k → sets.byPosition[c.position]? = some c →
      Nests sets n c → Meet sets final c c) ∧
    ∀ {m n : Nat} {a b : String} {c d : KeyedSet}, m + n ≤ k → final.ComparedFragments a b →
      sets.byFragment[a]? = some c → sets.byFragment[b]? = some d → Nests sets m c →
        Nests sets n d → Meet sets final c d := by
  induction k with
  | zero =>
    refine ⟨fun {n c} hk _ hc => ?_, fun {m n a b c d} hk _ _ _ hc _ => ?_⟩
    · obtain ⟨_, rfl, _⟩ := hc.below
      omega
    · obtain ⟨_, rfl, _⟩ := hc.below
      omega
  | succ k ih =>
    have hself : ∀ {n : Nat} {c : KeyedSet}, 2 * n ≤ k + 1 →
        sets.byPosition[c.position]? = some c → Nests sets n c → Meet sets final c c := by
      intro n c hk hplace hc
      obtain ⟨n, rfl, _, hspreads⟩ := hc.below
      have hdone := h.spreadsDone_self hplace
      exact h.meet_of_spreads hplace hplace (h.keysMeet_self hplace) hdone
        fun name hname other hother e f he hf => ih.2 (by omega)
          (hdone.both name hname other hother) he hf (hspreads name hname e he)
          (hspreads other hother f hf)
    refine ⟨hself, ?_⟩
    intro m n a b c d hk hcompared hc hd hcnests hdnests
    rcases h.closedFragments hcompared with rfl | hclosed
    · obtain rfl := Option.some.inj (hc.symm.trans hd)
      by_cases hle : m ≤ n
      · exact hself (by omega) (h.placed.fragment hc) hcnests
      · exact hself (by omega) (h.placed.fragment hc) hdnests
    · obtain ⟨hkeys, hright, hleft⟩ := hclosed c d hc hd
      intro c' d' hopens hopens'
      cases hopens with
      | refl =>
        cases hopens' with
        | refl =>
          rcases hkeys with hkeys | hkeys
          · exact hkeys.meet (h.placed.keys (h.placed.fragment hc))
          · exact (hkeys.meet (h.placed.keys (h.placed.fragment hd))).symm
        | @spread _ f _ other hother hfound hopens' =>
          obtain ⟨n, rfl, _, hspreads⟩ := hdnests.below
          exact ih.2 (by omega) (hright other hother) hc hfound hcnests
            (hspreads other hother f hfound) c d' (.refl c) hopens'
      | @spread _ f _ other hother hfound hopens =>
        obtain ⟨m, rfl, _, hspreads⟩ := hcnests.below
        exact ih.2 (by omega) (hleft other hother) hfound hd (hspreads other hother f hfound)
          hdnests c' d' hopens hopens'

theorem meet_self (hc : sets.byPosition[c.position]? = some c) : Meet sets final c c :=
  (h.meet_within_levels _).1 (Nat.le_refl _) hc (h.nests hc)

/-- Below answers that are joined everything meets in turn. -/
theorem meet_below {a b : Answer} (hjoined : Joined sets final a b)
    (hc : sets.under? a = some c) (hd : sets.under? b = some d) : Meet sets final c d := by
  have hdone : ∀ {a b : Answer} {c d : KeyedSet}, Done sets final a b → sets.under? a = some c →
      sets.under? b = some d → Meet sets final c d := by
    rintro a b c d ⟨_, hkeys, hspreads⟩ hc hd
    have hcplace := h.placed.under hc
    have hdplace := h.placed.under hd
    have hspreads := hspreads c d hc hd
    have hkeys : KeysDone sets final c d := hkeys c d hc hd
    exact h.meet_of_spreads hcplace hdplace (hkeys.meet (h.placed.keys hcplace)) hspreads
      fun name hname other hother e f he hf => (h.meet_within_levels _).2 (Nat.le_refl _)
        (hspreads.both name hname other hother) he hf (h.nests (h.placed.fragment he))
        (h.nests (h.placed.fragment hf))
  rcases hjoined with rfl | hab | hba
  · obtain rfl := Option.some.inj (hc.symm.trans hd)
    exact h.meet_self (h.placed.under hc)
  · exact hdone hab hc hd
  · exact (hdone hba hd hc).symm

end Consistent

end

end QueryAdmission.Overlap
