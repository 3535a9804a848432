/-! Text cut into parts at a character. -/

namespace QueryAdmission

/-- Cuts a text at every place where a character stands; there is always a last part. -/
def cut (separator : Char) : List Char → List (List Char)
  | [] => [[]]
  | c :: rest =>
    if c = separator then [] :: cut separator rest
    else match cut separator rest with
      | [] => [[c]]
      | part :: parts => (c :: part) :: parts

end QueryAdmission
