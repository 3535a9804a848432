import Mathlib.Data.Finset.Prod
import QueryAdmission.Proofs.PlainScore
import QueryAdmission.Proofs.Recording

/-! # How the memo grows

A score walks the body of a fragment only where its key is not in the memo, and then puts
the key there. In between, the walk of the body writes keys of its own, but all of them
have less room: on cyclic fragments, too, none of them is the key that is pending. Hence no
key is written twice, and no body is walked twice with the same room, however often its
fragment is spread. The walks are counted by taking the same steps as a recording, which
keeps the walks of a score that fails. -/

namespace QueryAdmission

namespace Scorer

open Recording (after write)

variable {s : Scorer} {fragments : Option (List Fragment)} {room : Nat}

/-! ## The walks of a score -/

/-- Steps that note, by name and room, every fragment whose body is walked. -/
abbrev Walking := Recording (String × Nat)

def noteWalk (key : String × Nat) : Walking Unit := write [key]

/-- The score of a set with `room` levels left, with all walks noted. -/
def walkWithin (s : Scorer) (fragments : Option (List Fragment)) :
    Nat → SelectionSet → Memo → Walking (Binary64 × Memo) :=
  s.visitWithin noteWalk fragments

/-! ## What one step preserves -/

/-- The names of the fragments that are bound. -/
def boundNames (fragments : Option (List Fragment)) : Finset String :=
  ((fragments.getD []).map (·.name)).toFinset

theorem mem_boundNames_of_resolve? {name : String} {body : SelectionSet}
    (h : resolve? fragments name = some body) : name ∈ boundNames fragments := by
  obtain ⟨fragment, hfound, _⟩ := Option.map_eq_some_iff.mp h
  obtain ⟨bound, rfl, hfind⟩ := Option.bind_eq_some_iff.mp hfound
  have hname : fragment.name = name := by simpa using List.find?_some hfind
  exact List.mem_toFinset.mpr (List.mem_map.mpr ⟨fragment, List.mem_of_find?_eq_some hfind, hname⟩)

/-- What has been written is found. -/
theorem lookup_ne_none_of_written {written memo : Memo} {key : String × Nat}
    (h : key ∈ written.map Prod.fst) : (written ++ memo).lookup key ≠ none := by
  obtain ⟨entry, hentry, rfl⟩ := List.mem_map.mp h
  intro hnone
  have := List.lookup_eq_none_iff.mp hnone entry (List.mem_append_left memo hentry)
  simp at this

/-- What is walked from a memo: bodies of bound fragments with less room than `room`, each
once and none that the memo has. If the outcome is a score, just their keys were written. -/
structure Disciplined (fragments : Option (List Fragment)) (room : Nat) (memo : Memo)
    (outcome : Except Failure (Binary64 × Memo)) (walked : List (String × Nat)) : Prop where
  once : walked.Nodup
  fresh : ∀ key ∈ walked, memo.lookup key = none
  named : ∀ key ∈ walked, key.1 ∈ boundNames fragments
  below : ∀ key ∈ walked, key.2 < room
  written : ∀ score memo', outcome = .ok (score, memo') →
    ∃ written, memo' = written ++ memo ∧ (written.map Prod.fst).Perm walked

/-- Steps that end with the outcome, and walk with discipline. -/
def Walks (fragments : Option (List Fragment)) (room : Nat) (memo : Memo)
    (steps : Walking (Binary64 × Memo)) (outcome : Except Failure (Binary64 × Memo)) : Prop :=
  ∀ noted, ∃ walked, after steps noted = (outcome, noted ++ walked) ∧
    Disciplined fragments room memo outcome walked

theorem Disciplined.mono {room' : Nat} (hle : room ≤ room') {memo : Memo}
    {outcome : Except Failure (Binary64 × Memo)} {walked : List (String × Nat)}
    (h : Disciplined fragments room memo outcome walked) :
    Disciplined fragments room' memo outcome walked :=
  { h with below := fun key hkey => (h.below key hkey).trans_le hle }

theorem Disciplined.none_walked {memo : Memo} {outcome : Except Failure (Binary64 × Memo)}
    (h : ∀ score memo', outcome = .ok (score, memo') → memo' = memo) :
    Disciplined fragments room memo outcome [] where
  once := .nil
  fresh := nofun
  named := nofun
  below := nofun
  written score memo' he := ⟨[], h score memo' he, .nil⟩

/-- Of two walks one after the other, the second starts from what the first has written. -/
theorem Disciplined.append {memo written : Memo} {score : Binary64}
    {outcome : Except Failure (Binary64 × Memo)} {walked walked' : List (String × Nat)}
    (h : Disciplined fragments room memo (.ok (score, written ++ memo)) walked)
    (hwritten : (written.map Prod.fst).Perm walked)
    (h' : Disciplined fragments room (written ++ memo) outcome walked') :
    Disciplined fragments room memo outcome (walked ++ walked') where
  once := by
    refine List.nodup_append'.mpr ⟨h.once, h'.once, ?_⟩
    intro key hkey hkey'
    exact lookup_ne_none_of_written (hwritten.mem_iff.mpr hkey) (h'.fresh key hkey')
  fresh key hkey := by
    rcases List.mem_append.mp hkey with hkey | hkey
    · exact h.fresh key hkey
    · have hnone := h'.fresh key hkey
      rw [List.lookup_append] at hnone
      exact (Option.or_eq_none_iff.mp hnone).2
  named key hkey := (List.mem_append.mp hkey).elim (h.named key) (h'.named key)
  below key hkey := (List.mem_append.mp hkey).elim (h.below key) (h'.below key)
  written score' memo' he := by
    obtain ⟨written', rfl, hwritten'⟩ := h'.written score' memo' he
    refine ⟨written' ++ written, (List.append_assoc ..).symm, ?_⟩
    rw [List.map_append]
    exact (hwritten'.append hwritten).trans List.perm_append_comm

namespace Walks

variable {memo : Memo} {steps : Walking (Binary64 × Memo)}
  {outcome : Except Failure (Binary64 × Memo)}

theorem pure (score : Binary64) (memo : Memo) :
    Walks fragments room memo (Pure.pure (score, memo)) (.ok (score, memo)) :=
  fun noted => ⟨[], by rw [Recording.after_pure, List.append_nil], .none_walked (by simp)⟩

theorem failure {α : Type} (failure : Failure) (memo : Memo)
    (next : α → Walking (Binary64 × Memo)) (next' : α → Except Failure (Binary64 × Memo)) :
    Walks fragments room memo (liftM (Except.error failure) >>= next)
      (Except.error failure >>= next') :=
  fun noted => ⟨[], by rw [List.append_nil]; rfl, .none_walked fun _ _ he => by cases he⟩

theorem mono {room' : Nat} (hle : room ≤ room') (h : Walks fragments room memo steps outcome) :
    Walks fragments room' memo steps outcome := by
  intro noted
  obtain ⟨walked, hafter, hwalked⟩ := h noted
  exact ⟨walked, hafter, hwalked.mono hle⟩

theorem bind (h : Walks fragments room memo steps outcome)
    {next : Binary64 × Memo → Walking (Binary64 × Memo)}
    {next' : Binary64 × Memo → Except Failure (Binary64 × Memo)}
    (hnext : ∀ score memo',
      Walks fragments room memo' (next (score, memo')) (next' (score, memo'))) :
    Walks fragments room memo (steps >>= next) (outcome >>= next') := by
  intro noted
  obtain ⟨walked, hafter, hwalked⟩ := h noted
  rw [Recording.after_bind, hafter]
  cases outcome with
  | error failure => exact ⟨walked, rfl, hwalked⟩
  | ok state =>
    obtain ⟨score, memo'⟩ := state
    obtain ⟨written, rfl, hwritten⟩ := hwalked.written score memo' rfl
    obtain ⟨walked', hafter', hwalked'⟩ := hnext score (written ++ memo) (noted ++ walked)
    refine ⟨walked ++ walked', ?_, hwalked.append hwritten hwalked'⟩
    rw [← List.append_assoc]
    exact hafter'

end Walks

/-- The walk of a body whose key is missing. All that it writes itself has less room. -/
theorem Disciplined.cons {memo : Memo} {name : String} (hmissing : memo.lookup (name, room) = none)
    (hname : name ∈ boundNames fragments) {outcome : Except Failure (Binary64 × Memo)}
    {walked : List (String × Nat)} (h : Disciplined fragments room memo outcome walked) :
    Disciplined fragments (room + 1) memo
      (outcome.map fun (score, memo') => (score, ((name, room), score) :: memo'))
      ((name, room) :: walked) where
  once := List.nodup_cons.mpr ⟨fun hkey => Nat.lt_irrefl room (h.below _ hkey), h.once⟩
  fresh := List.forall_mem_cons.mpr ⟨hmissing, h.fresh⟩
  named := List.forall_mem_cons.mpr ⟨hname, h.named⟩
  below := List.forall_mem_cons.mpr
    ⟨Nat.lt_succ_self room, fun key hkey => (h.below key hkey).trans (Nat.lt_succ_self room)⟩
  written := by
    intro score memo' he
    cases outcome with
    | error failure => cases he
    | ok state =>
      obtain ⟨written, hmemo, hwritten⟩ := h.written state.1 state.2 rfl
      cases he
      exact ⟨((name, room), state.1) :: written, by rw [hmemo]; rfl, hwritten.cons _⟩

/-! ## One selection, one set -/

/-- How the sets one level deeper are scored, with their walks noted and without. -/
def InnerWalks (fragments : Option (List Fragment)) (room : Nat)
    (inner : SelectionSet → Memo → Walking (Binary64 × Memo))
    (inner' : SelectionSet → Memo → Except Failure (Binary64 × Memo)) : Prop :=
  ∀ body memo, Walks fragments room memo (inner body memo) (inner' body memo)

section Inner

variable {inner : SelectionSet → Memo → Walking (Binary64 × Memo)}
  {inner' : SelectionSet → Memo → Except Failure (Binary64 × Memo)}

theorem fromMemo_walks (hinner : InnerWalks fragments room inner inner') {name : String}
    {body : SelectionSet} (hbody : resolve? fragments name = some body) (memo : Memo) :
    Walks fragments (room + 1) memo (fromMemo noteWalk room inner name body memo)
      (fromMemo unnoted room inner' name body memo) := by
  unfold fromMemo
  cases hkey : memo.lookup (name, room) with
  | some known => exact .pure known memo
  | none =>
    intro noted
    obtain ⟨walked, hafter, hwalked⟩ := hinner body memo (noted ++ [(name, room)])
    have hcons := hwalked.cons hkey (mem_boundNames_of_resolve? hbody)
    refine ⟨(name, room) :: walked, ?_, ?_⟩
    · simp only [noteWalk, Recording.after_bind, Recording.after_write, hafter, List.append_assoc]
      cases inner' body memo <;> rfl
    · cases houtcome : inner' body memo <;> rw [houtcome] at hcons <;> exact hcons

theorem addSelection_walks (hinner : InnerWalks fragments room inner inner')
    (total : Binary64) (memo : Memo) (selection : Selection) :
    Walks fragments (room + 1) memo
      (s.addSelection noteWalk fragments room inner (total, memo) selection)
      (s.addSelection unnoted fragments room inner' (total, memo) selection) := by
  have hnested : ∀ total body, Walks fragments (room + 1) memo
      (inner body memo >>= fun state => Pure.pure (total + state.1, state.2))
      (inner' body memo >>= fun state => Pure.pure (total + state.1, state.2)) := by
    intro total body
    refine ((hinner body memo).mono (Nat.le_succ room)).bind ?_
    intro nested memo'
    exact .pure (total + nested) memo'
  cases selection with
  | field label name arguments directives body =>
    simp only [addSelection]
    cases s.addField total name arguments with
    | error failure =>
      exact .failure failure memo _ _
    | ok total' =>
      cases body with
      | none => exact .pure total' memo
      | some selections => exact hnested total' (some selections)
  | inline on directives body => exact hnested total body
  | spread name directives body =>
    cases body with
    | some selections => exact hnested total (some selections)
    | none =>
      simp only [addSelection]
      cases hbody : resolve? fragments name with
      | none => exact .pure _ memo
      | some body => exact (fromMemo_walks hinner hbody memo).bind fun _ _ => .pure _ _
  | other => exact .pure total memo

theorem foldlM_walks (hinner : InnerWalks fragments room inner inner')
    (selections : List Selection) (total : Binary64) (memo : Memo) :
    Walks fragments (room + 1) memo
      (selections.foldlM (s.addSelection noteWalk fragments room inner) (total, memo))
      (selections.foldlM (s.addSelection unnoted fragments room inner') (total, memo)) := by
  induction selections generalizing total memo with
  | nil => exact .pure total memo
  | cons selection rest ih =>
    simp only [List.foldlM_cons]
    exact (addSelection_walks hinner total memo selection).bind ih

end Inner

/-- A score walks with discipline: by induction on the room, since a set hands less of it to
the sets one level deeper. -/
theorem walkWithin_walks (s : Scorer) (fragments : Option (List Fragment)) (room : Nat) :
    InnerWalks fragments room (s.walkWithin fragments room) (s.scoreWithin fragments room) := by
  induction room with
  | zero => exact fun selections memo => .pure .zero memo
  | succ room ih =>
    intro selections memo
    cases selections with
    | none => exact .pure .zero memo
    | some selections => exact foldlM_walks ih selections .zero memo

/-! ## Levels -/

/-- The level of the sets that have as much room. -/
def levelOf (s : Scorer) (room : Nat) : Int := s.cutoff + 1 - room

theorem levelOf_of_lt_room {level : Int} (h : room < s.room level) :
    level + 1 ≤ s.levelOf room ∧ s.levelOf room ≤ s.cutoff + 1 := by
  simp only [Scorer.room, levelOf] at *
  omega

/-- Distinct walks are as many as there are names and levels, at most. -/
theorem Disciplined.length_le {memo : Memo} {outcome : Except Failure (Binary64 × Memo)}
    {walked : List (String × Nat)} (h : Disciplined fragments room memo outcome walked) :
    walked.length ≤ (boundNames fragments).card * room := by
  have hsub : walked.toFinset ⊆ boundNames fragments ×ˢ Finset.range room := by
    intro key hkey
    rw [List.mem_toFinset] at hkey
    exact Finset.mem_product.mpr ⟨h.named key hkey, Finset.mem_range.mpr (h.below key hkey)⟩
  calc walked.length = walked.toFinset.card := (List.toFinset_card_of_nodup h.once).symm
    _ ≤ (boundNames fragments ×ˢ Finset.range room).card := Finset.card_le_card hsub
    _ = (boundNames fragments).card * room := by rw [Finset.card_product, Finset.card_range]

/-- What a score does to the memo, and the bodies that it walks. Noting the walks changes
nothing. However it ends, no body is walked twice at a level, and there are no more walks
than fragments times levels below the score's own. If it returns, the memo has grown by the
keys of the bodies that were walked: of bound fragments, at levels below, and none of them
written before or twice. -/
theorem scoreWithin_memo (s : Scorer) (fragments : Option (List Fragment))
    (selections : SelectionSet) (memo : Memo) (level : Int) :
    ∃ walked,
      (s.walkWithin fragments (s.room level) selections memo).after [] =
        (s.scoreWithin fragments (s.room level) selections memo, walked) ∧
      walked.Nodup ∧
      walked.length ≤ (boundNames fragments).card * (s.cutoff + 1 - level).toNat ∧
      ∀ score memo',
        s.scoreWithin fragments (s.room level) selections memo = .ok (score, memo') →
        ∃ written, memo' = written ++ memo ∧
          (written.map Prod.fst).Perm walked ∧ (written.map Prod.fst).Nodup ∧
          (∀ key known, memo.lookup key = some known → memo'.lookup key = some known) ∧
          ∀ entry ∈ written, memo.lookup entry.1 = none ∧ entry.1.1 ∈ boundNames fragments ∧
            level + 1 ≤ s.levelOf entry.1.2 ∧ s.levelOf entry.1.2 ≤ s.cutoff + 1 := by
  obtain ⟨walked, hafter, hwalked⟩ := s.walkWithin_walks fragments (s.room level) selections memo []
  refine ⟨walked, hafter, hwalked.once, hwalked.length_le, ?_⟩
  intro score memo' hscore
  obtain ⟨written, rfl, hwritten⟩ := hwalked.written score memo' hscore
  refine ⟨written, rfl, hwritten, hwritten.nodup_iff.mpr hwalked.once, ?_, ?_⟩
  · intro key known hknown
    have hnone : written.lookup key = none := by
      refine List.lookup_eq_none_iff.mpr fun entry hentry => ?_
      rw [bne_iff_ne]
      rintro rfl
      have hfresh := hwalked.fresh entry.1 (hwritten.mem_iff.mp (List.mem_map_of_mem hentry))
      rw [hknown] at hfresh
      cases hfresh
    rw [List.lookup_append, hnone, Option.none_or, hknown]
  · intro entry hentry
    have hkey := hwritten.mem_iff.mp (List.mem_map_of_mem hentry)
    exact ⟨hwalked.fresh _ hkey, hwalked.named _ hkey, levelOf_of_lt_room (hwalked.below _ hkey)⟩

end Scorer

end QueryAdmission
