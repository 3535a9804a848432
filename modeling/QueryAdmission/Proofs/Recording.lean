import QueryAdmission.Failure

/-! # Steps that leave a record

An outcome that fails carries nothing but its failure. Where it matters what was done up to
there, the same steps are written as a `Recording`: what they record stays recorded when a
later one fails. How a recording ends, and with which records, is worked out step by step
with the lemmas below. -/

namespace QueryAdmission

/-- Steps that can fail, and that record things of a kind. -/
abbrev Recording (ρ : Type) := ExceptT Failure (StateM (List ρ))

namespace Recording

variable {ρ α β : Type}

/-- Puts records behind those that are there. -/
def write (records : List ρ) : Recording ρ Unit := modify (· ++ records)

/-- How the steps end, and all that is recorded by then, given what was recorded before. -/
def after (steps : Recording ρ α) (records : List ρ) : Except Failure α × List ρ :=
  steps.run.run records

@[simp] theorem after_pure (a : α) (records : List ρ) :
    after (pure a) records = (.ok a, records) := rfl

@[simp] theorem after_lift (outcome : Except Failure α) (records : List ρ) :
    after (liftM outcome) records = (outcome, records) := rfl

@[simp] theorem after_write (more records : List ρ) :
    after (write more) records = (.ok (), records ++ more) := rfl

/-- Steps that fail are the last. -/
theorem after_bind (steps : Recording ρ α) (next : α → Recording ρ β) (records : List ρ) :
    after (steps >>= next) records =
      match after steps records with
      | (.ok a, records') => after (next a) records'
      | (.error failure, records') => (.error failure, records') := by
  show (ExceptT.bindCont next (after steps records).1).run (after steps records).2 = _
  cases after steps records with
  | mk outcome records' => cases outcome <;> rfl

end Recording

end QueryAdmission
