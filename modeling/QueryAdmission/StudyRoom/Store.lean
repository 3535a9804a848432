/-! The records of a study room: users, the subjects they study, the artifacts they made
and the notifications of the signed-in user. Only the read marks of notifications ever
change. -/

namespace QueryAdmission.StudyRoom

structure User where
  id : String
  username : String
  email : String
  deriving DecidableEq, Repr

structure Subject where
  id : String
  name : String
  inviteCode : String
  ownerId : String
  memberIds : List String
  deriving DecidableEq, Repr

structure Artifact where
  id : String
  title : String
  subjectId : String
  ownerId : String
  deriving DecidableEq, Repr

structure Notification where
  id : String
  message : String
  read : Bool
  fromUserId : String
  deriving DecidableEq, Repr

structure Store where
  users : List User
  subjects : List Subject
  artifacts : List Artifact
  notifications : List Notification
  /-- The signed-in user. -/
  currentUserId : String
  deriving DecidableEq, Repr

namespace Store

def sample : Store where
  users := [⟨"u1", "ada", "ada@example.com"⟩, ⟨"u2", "grace", "grace@example.com"⟩,
    ⟨"u3", "linus", "linus@example.com"⟩]
  subjects := [⟨"s1", "Compilers", "CMP-2024", "u1", ["u1", "u2"]⟩,
    ⟨"s2", "Operating Systems", "OS-2024", "u3", ["u3", "u1"]⟩]
  artifacts := [⟨"a1", "Parser notes", "s1", "u1"⟩, ⟨"a2", "Lexer cheatsheet", "s1", "u2"⟩,
    ⟨"a3", "Scheduler diagram", "s2", "u3"⟩]
  notifications := [⟨"n1", "grace joined Compilers", false, "u2"⟩,
    ⟨"n2", "linus shared a file", false, "u3"⟩]
  currentUserId := "u1"

def user? (store : Store) (id : String) : Option User := store.users.find? (·.id == id)

def subject? (store : Store) (id : String) : Option Subject :=
  store.subjects.find? (·.id == id)

/-- Marks a notification as read, if there is one of the given id. -/
def markRead? (store : Store) (id : String) : Option Store :=
  if store.notifications.any (·.id == id) then
    some { store with
      notifications := store.notifications.map fun n =>
        if n.id == id then { n with read := true } else n }
  else none

/-- The ids of the notifications that are marked as read. -/
def readIds (store : Store) : List String :=
  (store.notifications.filter (·.read)).map (·.id)

end Store

end QueryAdmission.StudyRoom
