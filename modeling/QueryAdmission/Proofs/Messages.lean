import QueryAdmission.Gate

/-! # Which decisions can be announced

The message of a rejection shows what was measured and what is allowed. A double can always be
written, and a whole number unless it has too many digits. Where one of the two cannot be
written there is no message, and an evaluation that comes to such a rejection fails. -/

namespace QueryAdmission

namespace WholeNumber

theorem write_of_lt {n : Int} (h : n.natAbs < tenTo digitLimit) : write n = .ok (toString n) := by
  rw [write, if_pos h]

theorem write_of_le {n : Int} (h : tenTo digitLimit ≤ n.natAbs) :
    write n = .error .unwritable := by
  rw [write, if_neg (Nat.not_lt.2 h)]

end WholeNumber

namespace Quantity

/-- A quantity that can be written: a double, or a whole number without too many digits. -/
def Writable : Quantity → Prop
  | .int n => n.natAbs < tenTo WholeNumber.digitLimit
  | .float _ => True

theorem writable_float (x : Binary64) : (Quantity.float x).Writable := trivial

theorem exists_text {q : Quantity} (h : q.Writable) : ∃ text, q.text = .ok text := by
  cases q with
  | int n => exact ⟨toString n, WholeNumber.write_of_lt h⟩
  | float x => exact ⟨x.text, rfl⟩

theorem text_of_not_writable {q : Quantity} (h : ¬q.Writable) : q.text = .error .unwritable := by
  cases q with
  | int n => exact WholeNumber.write_of_le (Nat.le_of_not_lt h)
  | float x => exact absurd trivial h

/-- A text that shows two quantities. -/
def textOfTwo (say : String → String → String) (a b : Quantity) : Except Failure String := do
  return say (← a.text.mapError .literal) (← b.text.mapError .literal)

theorem exists_textOfTwo {a b : Quantity} (ha : a.Writable) (hb : b.Writable)
    (say : String → String → String) : ∃ text, textOfTwo say a b = .ok text := by
  obtain ⟨text, htext⟩ := exists_text ha
  obtain ⟨text', htext'⟩ := exists_text hb
  refine ⟨say text text', ?_⟩
  rw [textOfTwo, htext, htext']
  rfl

theorem textOfTwo_of_not_writable {a b : Quantity} (h : ¬(a.Writable ∧ b.Writable))
    (say : String → String → String) :
    textOfTwo say a b = .error (.literal .unwritable) := by
  by_cases ha : a.Writable
  · obtain ⟨text, htext⟩ := exists_text ha
    rw [textOfTwo, htext, text_of_not_writable fun hb => h ⟨ha, hb⟩]
    rfl
  · rw [textOfTwo, text_of_not_writable ha]
    rfl

end Quantity

/-- A decision that can be announced: nothing is said where the operation is allowed, and a
rejection needs a message. -/
def Decision.Announceable : Decision → Prop
  | .allowed => True
  | .rejected rejection => ∃ text, rejection.message = .ok text

namespace Policy

variable {policy : Policy} {complexity depth : Quantity}

/-- The rejection of a policy shows two quantities, those of the violated limit. -/
theorem decide_cases (policy : Policy) (complexity depth : Quantity) :
    (policy.decide complexity depth = .allowed ∧
      policy.maxComplexity.lt complexity = false ∧ policy.maxDepth.lt depth = false) ∨
    ∃ rejection measured limit say, policy.decide complexity depth = .rejected rejection ∧
      rejection.message = Quantity.textOfTwo say measured limit ∧
      ((policy.maxComplexity.lt complexity = true ∧
          measured = complexity ∧ limit = policy.maxComplexity) ∨
        policy.maxComplexity.lt complexity = false ∧ policy.maxDepth.lt depth = true ∧
          measured = depth ∧ limit = policy.maxDepth) := by
  unfold decide
  split
  · rename_i hcomplex
    exact .inr ⟨_, complexity, policy.maxComplexity, _, rfl, rfl, .inl ⟨hcomplex, rfl, rfl⟩⟩
  · rename_i hcomplex
    rw [Bool.not_eq_true] at hcomplex
    split
    · rename_i hdeep
      exact .inr ⟨_, depth, policy.maxDepth, _, rfl, rfl, .inr ⟨hcomplex, hdeep, rfl, rfl⟩⟩
    · rename_i hdeep
      exact .inl ⟨rfl, hcomplex, Bool.eq_false_iff.2 hdeep⟩

/-- What a policy decides can be announced if the numbers of the limit that is violated first,
if any is, can be written. -/
theorem announceable_decide_iff :
    (policy.decide complexity depth).Announceable ↔
      (policy.maxComplexity.lt complexity = true →
        complexity.Writable ∧ policy.maxComplexity.Writable) ∧
      (policy.maxComplexity.lt complexity = false → policy.maxDepth.lt depth = true →
        depth.Writable ∧ policy.maxDepth.Writable) := by
  rcases policy.decide_cases complexity depth with ⟨hallowed, hcomplex, hdeep⟩ |
    ⟨rejection, measured, limit, say, hrejected, hmessage, hnumbers⟩
  · simp [hallowed, Decision.Announceable, hcomplex, hdeep]
  · have hannounceable : (policy.decide complexity depth).Announceable ↔
        measured.Writable ∧ limit.Writable := by
      rw [hrejected, Decision.Announceable, hmessage]
      constructor
      · rintro ⟨text, htext⟩
        refine Classical.byContradiction fun hnot => ?_
        rw [Quantity.textOfTwo_of_not_writable hnot] at htext
        cases htext
      · exact fun ⟨hmeasured, hlimit⟩ => Quantity.exists_textOfTwo hmeasured hlimit say
    rw [hannounceable]
    rcases hnumbers with ⟨hcomplex, rfl, rfl⟩ | ⟨hcomplex, hdeep, rfl, rfl⟩
    · simp [hcomplex]
    · simp [hcomplex, hdeep]

/-- A rejection without a message lacks it for a number that cannot be written. -/
theorem message_of_not_announceable {rejection : Rejection}
    (h : policy.decide complexity depth = .rejected rejection)
    (hnot : ¬(policy.decide complexity depth).Announceable) :
    rejection.message = .error (.literal .unwritable) := by
  rcases policy.decide_cases complexity depth with ⟨hallowed, _⟩ |
    ⟨_, measured, limit, say, hrejected, hmessage, _⟩
  · rw [h] at hallowed
    cases hallowed
  · obtain rfl := Decision.rejected.inj (h.symm.trans hrejected)
    rw [hmessage]
    refine Quantity.textOfTwo_of_not_writable (fun ⟨hmeasured, hlimit⟩ => hnot ?_) say
    rw [h, Decision.Announceable, hmessage]
    exact Quantity.exists_textOfTwo hmeasured hlimit say

end Policy

end QueryAdmission
