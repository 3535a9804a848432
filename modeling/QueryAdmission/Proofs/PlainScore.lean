import Mathlib.Data.List.Forall2
import QueryAdmission.Complexity

/-! # The score without a memo

`plainScore` walks the set of a fragment anew at every spread and counts levels
upwards. The memoised score agrees with it in value and in failure: whatever the
memo holds is a plain score (`MemoSound`), every selection keeps it so, and the
entry of a fragment is written only once its own walk is over, with fewer levels
left than any entry above it, so no walk reads the entry it is to write. Nothing
here depends on how doubles add. -/

namespace QueryAdmission

namespace Scorer

variable {s : Scorer} {fragments : Option (List Fragment)}

/-- One selection added to the total, given how sets one level deeper are scored. -/
def addPlain (s : Scorer) (fragments : Option (List Fragment))
    (inner : SelectionSet → Except Failure Binary64) (total : Binary64) :
    Selection → Except Failure Binary64
  | .field _ name arguments _ none => s.addField total name arguments
  | .field _ name arguments _ (some selections) => do
    let total ← s.addField total name arguments
    return total + (← inner (some selections))
  | .inline _ _ body => do return total + (← inner body)
  | .spread _ _ (some selections) => do return total + (← inner (some selections))
  | .spread name _ none =>
    match resolve? fragments name with
    | none => .ok (total + Binary64.zero)
    | some body => do return total + (← inner body)
  | .other => .ok total

/-- The score of a selection set that lies at `level`, with every spread walked anew. -/
def plainScore (s : Scorer) (fragments : Option (List Fragment)) (selections : SelectionSet)
    (level : Int) : Except Failure Binary64 :=
  if s.cutoff < level then .ok Binary64.zero
  else match selections with
    | none => .ok Binary64.zero
    | some selections =>
      selections.foldlM
        (s.addPlain fragments fun body => s.plainScore fragments body (level + 1))
        Binary64.zero
termination_by s.room level
decreasing_by
  rename_i h
  exact (by simp only [room]; omega)

theorem plainScore_above {level : Int} (h : s.cutoff < level) (selections : SelectionSet) :
    s.plainScore fragments selections level = .ok Binary64.zero := by
  unfold plainScore
  rw [if_pos h]

theorem plainScore_none (level : Int) :
    s.plainScore fragments none level = .ok Binary64.zero := by
  unfold plainScore
  split <;> rfl

theorem plainScore_some {level : Int} (h : level ≤ s.cutoff) (selections : List Selection) :
    s.plainScore fragments (some selections) level =
      selections.foldlM
        (s.addPlain fragments fun body => s.plainScore fragments body (level + 1))
        Binary64.zero := by
  rw [plainScore, if_neg (by omega)]

/-- Induction on the levels down to the cutoff: what holds below the cutoff, and at every
level that it holds one deeper of, holds at every level. -/
theorem level_induction (s : Scorer) {P : Int → Prop}
    (below : ∀ level : Int, s.cutoff < level → P level)
    (within : ∀ level : Int, level ≤ s.cutoff → P (level + 1) → P level) (level : Int) :
    P level := by
  have aux : ∀ n : Nat, ∀ level : Int, s.room level = n → P level := by
    intro n
    induction n with
    | zero =>
      intro level h
      exact below level (by simp only [room] at h; omega)
    | succ n ih =>
      intro level h
      simp only [room] at h
      exact within level (by omega) (ih (level + 1) (by simp only [room]; omega))
  exact aux _ level rfl

/-! ## Sets that score alike -/

/-- Selections that add the same to every total, provided that sets related by `R` add the
same one level deeper. -/
def AddsAlike (s : Scorer) (fragments fragments' : Option (List Fragment))
    (R : SelectionSet → SelectionSet → Prop) (a b : Selection) : Prop :=
  ∀ inner inner', (∀ x y, R x y → inner x = inner' y) →
    ∀ total, s.addPlain fragments inner total a = s.addPlain fragments' inner' total b

theorem foldlM_addPlain_congr {fragments' : Option (List Fragment)}
    {R : SelectionSet → SelectionSet → Prop} {xs ys : List Selection}
    (h : List.Forall₂ (s.AddsAlike fragments fragments' R) xs ys)
    {inner inner' : SelectionSet → Except Failure Binary64}
    (hinner : ∀ x y, R x y → inner x = inner' y) (total : Binary64) :
    xs.foldlM (s.addPlain fragments inner) total =
      ys.foldlM (s.addPlain fragments' inner') total := by
  induction h generalizing total with
  | nil => rfl
  | cons hxy _ ih =>
    simp only [List.foldlM_cons, hxy inner inner' hinner total]
    congr 1
    funext total'
    exact ih total'

/-- Sets score alike at every level if their selections match one by one, and add the same
whenever the sets they open are matched in turn. -/
theorem plainScore_congr {fragments' : Option (List Fragment)}
    {R : SelectionSet → SelectionSet → Prop}
    (hR : ∀ a b, R a b → Option.Rel (List.Forall₂ (s.AddsAlike fragments fragments' R)) a b)
    (level : Int) :
    ∀ a b, R a b → s.plainScore fragments a level = s.plainScore fragments' b level := by
  induction level using s.level_induction with
  | below level h =>
    intro a b _
    rw [plainScore_above h, plainScore_above h]
  | within level h ih =>
    intro a b hab
    cases hR a b hab with
    | none => rw [plainScore_none, plainScore_none]
    | some hxy =>
      rw [plainScore_some h, plainScore_some h]
      exact foldlM_addPlain_congr hxy ih Binary64.zero

/-! ## What the memo may hold -/

theorem room_of_le {level : Int} (h : level ≤ s.cutoff) :
    s.room level = s.room (level + 1) + 1 := by
  simp only [room]
  omega

theorem room_of_lt {level : Int} (h : s.cutoff < level) : s.room level = 0 := by
  simp only [room]
  omega

/-- Every entry is the plain score of the fragment it names, at whatever level has as many
levels left as it says. -/
def MemoSound (s : Scorer) (fragments : Option (List Fragment)) (memo : Memo) : Prop :=
  ∀ name room score, memo.lookup (name, room) = some score →
    ∃ body, resolve? fragments name = some body ∧
      ∀ level, s.room level = room → s.plainScore fragments body level = .ok score

theorem memoSound_nil : s.MemoSound fragments [] := by
  intro name room score h
  cases h

theorem MemoSound.cons {memo : Memo} (h : s.MemoSound fragments memo) {name : String}
    {room : Nat} {score : Binary64} {body : SelectionSet}
    (hbody : resolve? fragments name = some body)
    (hscore : ∀ level, s.room level = room → s.plainScore fragments body level = .ok score) :
    s.MemoSound fragments (((name, room), score) :: memo) := by
  intro name' room' score' hfound
  rw [List.lookup_cons] at hfound
  by_cases hkey : (name', room') = (name, room)
  · obtain ⟨rfl, rfl⟩ := Prod.mk.inj hkey
    rw [beq_self_eq_true] at hfound
    obtain rfl := Option.some.inj hfound
    exact ⟨body, hbody, hscore⟩
  · rw [beq_eq_false_iff_ne.mpr hkey] at hfound
    exact h name' room' score' hfound

/-- A memoised outcome and a plain one: the same score or the same failure, and a sound memo
where there is one. -/
def Agree (s : Scorer) (fragments : Option (List Fragment))
    (memoised : Except Failure (Binary64 × Memo)) (plain : Except Failure Binary64) : Prop :=
  memoised.map Prod.fst = plain ∧
    ∀ score memo, memoised = .ok (score, memo) → s.MemoSound fragments memo

theorem Agree.ok {score : Binary64} {memo : Memo} (h : s.MemoSound fragments memo) :
    s.Agree fragments (.ok (score, memo)) (.ok score) := by
  refine ⟨rfl, ?_⟩
  intro score' memo' he
  cases he
  exact h

theorem Agree.bind {r : Except Failure (Binary64 × Memo)} {p : Except Failure Binary64}
    {f : Binary64 × Memo → Except Failure (Binary64 × Memo)}
    {g : Binary64 → Except Failure Binary64} (h : s.Agree fragments r p)
    (hnext : ∀ score memo, s.MemoSound fragments memo →
      s.Agree fragments (f (score, memo)) (g score)) :
    s.Agree fragments (r >>= f) (p >>= g) := by
  obtain ⟨rfl, hsound⟩ := h
  cases r with
  | error failure => exact ⟨rfl, fun _ _ he => by cases he⟩
  | ok state =>
    obtain ⟨score, memo⟩ := state
    exact hnext score memo (hsound score memo rfl)

/-! ## One selection, one set -/

/-- How the sets one level deeper are scored, with a memo and without. -/
def InnerAgree (s : Scorer) (fragments : Option (List Fragment)) (level : Int)
    (inner : SelectionSet → Memo → Except Failure (Binary64 × Memo)) : Prop :=
  ∀ body memo, s.MemoSound fragments memo →
    s.Agree fragments (inner body memo) (s.plainScore fragments body level)

/-- Levels with as many levels left score alike: they are the same, or both are below the
cutoff. -/
theorem plainScore_congr_room {level level' : Int} (h : s.room level = s.room level')
    (selections : SelectionSet) :
    s.plainScore fragments selections level = s.plainScore fragments selections level' := by
  by_cases hl : s.cutoff < level
  · have hl' : s.cutoff < level' := by simp only [room] at h; omega
    rw [plainScore_above hl, plainScore_above hl']
  · have : level = level' := by simp only [room] at h; omega
    rw [this]

theorem fromMemo_agree {level : Int}
    {inner : SelectionSet → Memo → Except Failure (Binary64 × Memo)}
    (hinner : s.InnerAgree fragments level inner) {name : String} {body : SelectionSet}
    (hbody : resolve? fragments name = some body) {memo : Memo}
    (hmemo : s.MemoSound fragments memo) :
    s.Agree fragments (fromMemo unnoted (s.room level) inner name body memo)
      (s.plainScore fragments body level) := by
  unfold fromMemo
  split
  · rename_i known hknown
    obtain ⟨body', hbody', hscore⟩ := hmemo _ _ _ hknown
    rw [hbody] at hbody'
    obtain rfl := Option.some.inj hbody'
    rw [hscore level rfl]
    exact .ok hmemo
  · obtain ⟨hplain, hsound⟩ := hinner body memo hmemo
    cases hr : inner body memo with
    | error failure =>
      rw [hr] at hplain
      exact ⟨hplain, fun _ _ he => by cases he⟩
    | ok state =>
      obtain ⟨score, memo'⟩ := state
      rw [hr] at hplain
      rw [← hplain]
      -- what the walk noted is sound before its own result is
      refine .ok ((hsound score memo' hr).cons hbody ?_)
      intro level' hroom
      rw [plainScore_congr_room hroom, ← hplain]
      rfl

theorem addSelection_agree {level : Int}
    {inner : SelectionSet → Memo → Except Failure (Binary64 × Memo)}
    (hinner : s.InnerAgree fragments level inner) (total : Binary64) {memo : Memo}
    (hmemo : s.MemoSound fragments memo) (selection : Selection) :
    s.Agree fragments
      (s.addSelection unnoted fragments (s.room level) inner (total, memo) selection)
      (s.addPlain fragments (fun body => s.plainScore fragments body level) total selection) := by
  have hnested : ∀ total body memo, s.MemoSound fragments memo →
      s.Agree fragments
        (inner body memo >>= fun state => pure (total + state.1, state.2))
        (s.plainScore fragments body level >>= fun nested => pure (total + nested)) :=
    fun total body memo hm => (hinner body memo hm).bind fun _ _ hm' => .ok hm'
  cases selection with
  | field label name arguments directives body =>
    cases hfield : s.addField total name arguments with
    | error failure =>
      cases body <;>
        exact ⟨by simp only [addSelection, addPlain, hfield]; rfl,
          fun _ _ he => by simp only [addSelection, hfield] at he; cases he⟩
    | ok total' =>
      cases body with
      | none =>
        simp only [addSelection, addPlain, hfield]
        exact .ok hmemo
      | some selections =>
        simp only [addSelection, addPlain, hfield]
        exact hnested total' (some selections) memo hmemo
  | inline on directives body => exact hnested total body memo hmemo
  | spread name directives body =>
    cases body with
    | some selections => exact hnested total (some selections) memo hmemo
    | none =>
      simp only [addSelection, addPlain]
      cases hbody : resolve? fragments name with
      | none => exact .ok hmemo
      | some body => exact (fromMemo_agree hinner hbody hmemo).bind fun _ _ hm => .ok hm
  | other => exact .ok hmemo

theorem foldlM_agree {level : Int}
    {inner : SelectionSet → Memo → Except Failure (Binary64 × Memo)}
    (hinner : s.InnerAgree fragments level inner) (selections : List Selection)
    (total : Binary64) {memo : Memo} (hmemo : s.MemoSound fragments memo) :
    s.Agree fragments
      (selections.foldlM (s.addSelection unnoted fragments (s.room level) inner) (total, memo))
      (selections.foldlM
        (s.addPlain fragments fun body => s.plainScore fragments body level) total) := by
  induction selections generalizing total memo with
  | nil => exact .ok hmemo
  | cons selection rest ih =>
    simp only [List.foldlM_cons]
    exact (addSelection_agree hinner total hmemo selection).bind fun total' _ hm => ih total' hm

/-- A sound memo changes neither the score of a set nor its failure, and stays sound. -/
theorem scoreWithin_agree (s : Scorer) (fragments : Option (List Fragment)) (level : Int) :
    s.InnerAgree fragments level (s.scoreWithin fragments (s.room level)) := by
  induction level using s.level_induction with
  | below level h =>
    intro selections memo hmemo
    rw [room_of_lt h, plainScore_above h, scoreWithin, visitWithin]
    exact .ok hmemo
  | within level h ih =>
    intro selections memo hmemo
    rw [room_of_le h]
    cases selections with
    | none =>
      rw [plainScore_none, scoreWithin, visitWithin]
      exact .ok hmemo
    | some selections =>
      rw [plainScore_some h, scoreWithin, visitWithin]
      exact foldlM_agree ih selections Binary64.zero hmemo

/-- The score of sets whose selections match one by one is the same, memo or not. -/
theorem score_congr {fragments' : Option (List Fragment)}
    {R : SelectionSet → SelectionSet → Prop}
    (hR : ∀ a b, R a b → Option.Rel (List.Forall₂ (s.AddsAlike fragments fragments' R)) a b)
    {a b : SelectionSet} (hab : R a b) (level : Int) :
    s.score fragments a level = s.score fragments' b level := by
  unfold score
  rw [(s.scoreWithin_agree fragments level a [] memoSound_nil).1,
    (s.scoreWithin_agree fragments' level b [] memoSound_nil).1]
  exact plainScore_congr hR level a b hab

/-- The memo saves walks and nothing else: the score with it is the score without it, and
it fails where that fails, in the same way. -/
theorem score_eq_plainScore (s : Scorer) (fragments : Option (List Fragment))
    (selections : SelectionSet) (level : Int) :
    s.score fragments selections level = s.plainScore fragments selections level :=
  (s.scoreWithin_agree fragments level selections [] memoSound_nil).1

end Scorer

end QueryAdmission
