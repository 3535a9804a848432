/-! Named values in the order in which the names first came, each name once. -/

namespace QueryAdmission

/-- Adds a value, in the place of an earlier one of the same name. -/
def putMember {α : Type} (members : List (String × α)) (name : String) (value : α) :
    List (String × α) :=
  if members.any (·.1 == name) then
    members.map fun m => if m.1 == name then (name, value) else m
  else members ++ [(name, value)]

/-- Puts named values together one after the other: of one name the last value counts, in
the place of the first. -/
def putMembers {α : Type} (members more : List (String × α)) : List (String × α) :=
  more.foldl (fun all m => putMember all m.1 m.2) members

end QueryAdmission
