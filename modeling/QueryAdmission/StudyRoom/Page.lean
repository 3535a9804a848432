/-! Pages of lists: how many rows a caller gets that asks for a limit. -/

namespace QueryAdmission.StudyRoom

/-- The first rows of a page: all of them without a limit, none below zero. -/
def page {α : Type} (rows : List α) (limit : Option Int) : List α :=
  match limit with
  | none => rows
  | some n => rows.take n.toNat

end QueryAdmission.StudyRoom
