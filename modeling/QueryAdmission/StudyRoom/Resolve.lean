import QueryAdmission.StudyRoom.Page
import QueryAdmission.StudyRoom.Schema
import QueryAdmission.StudyRoom.Store
import QueryAdmission.Text.Quoted

/-! What the fields of the study room answer. Fields that are asked for only read the store;
the one field of mutations marks a notification as read. A reference to a user who is
not in the store cannot be answered. -/

namespace QueryAdmission.StudyRoom

/-- A value of an argument. -/
inductive InputValue where
  | null
  | int (n : Int)
  | text (s : String)
  | flag (b : Bool)
  deriving DecidableEq, Repr

/-- The arguments of a field by name. -/
abbrev Inputs := List (String × InputValue)

namespace Inputs

/-- A text argument; it is there wherever it is required. -/
def text (inputs : Inputs) (name : String) : String :=
  match inputs.lookup name with
  | some (.text s) => s
  | _ => ""

/-- The page size, if one is asked for. -/
def limit (inputs : Inputs) : Option Int :=
  match inputs.lookup FieldSpec.limit.name with
  | some (.int n) => some n
  | _ => none

end Inputs

/-- Something whose fields can be asked for. -/
inductive Record where
  | query
  | mutation
  | user (user : User)
  | artifact (artifact : Artifact)
  | member (userId subjectId : String)
  | subject (subject : Subject)
  | notification (notification : Notification)
  deriving DecidableEq, Repr

def Record.type : Record → ObjectType
  | .query => .query
  | .mutation => .mutation
  | .user _ => .user
  | .artifact _ => .artifact
  | .member _ _ => .member
  | .subject _ => .subject
  | .notification _ => .notification

/-- What a field answers, before anything is selected from it. -/
inductive Resolved where
  | null
  | flag (b : Bool)
  | text (s : String)
  | record (record : Record)
  | records (records : List Record)
  deriving DecidableEq, Repr

/-- Why a field has no answer. -/
inductive ResolverFailure where
  | noSuchNotification (id : String)
  | danglingReference (id : String)
  deriving DecidableEq, Repr

def ResolverFailure.message : ResolverFailure → String
  | .noSuchNotification id => "Notification " ++ id ++ " not found."
  | .danglingReference id => String.ofList (quoted id)

namespace Store

/-- The user that a reference means. -/
def userOf (store : Store) (id : String) : Except ResolverFailure Resolved :=
  match store.user? id with
  | some user => .ok (.record (.user user))
  | none => .error (.danglingReference id)

/-- The members of all subjects of the signed-in user, subject by subject. -/
def members (store : Store) : List Record :=
  (store.subjects.filter (·.memberIds.contains store.currentUserId)).flatMap fun s =>
    s.memberIds.map fun uid => .member uid s.id

def resolveQuery (store : Store) (field : String) (inputs : Inputs) :
    Except ResolverFailure Resolved :=
  match field with
  | "me" => store.userOf store.currentUserId
  | "members" => .ok (.records (page store.members inputs.limit))
  | "subject" => .ok (match store.subject? (inputs.text "id") with
    | some s => .record (.subject s)
    | none => .null)
  | "notifications" =>
    .ok (.records ((page store.notifications inputs.limit).map .notification))
  | "checkUsername" => .ok (.flag (store.users.all (·.username != inputs.text "username")))
  | "checkEmail" => .ok (.flag (store.users.all (·.email != inputs.text "email")))
  | "subjectByInviteCode" =>
    .ok (match store.subjects.find? (·.inviteCode == inputs.text "code") with
      | some s => .record (.subject s)
      | none => .null)
  | _ => .ok .null

def resolveUser (store : Store) (user : User) (field : String) (inputs : Inputs) : Resolved :=
  match field with
  | "id" => .text user.id
  | "username" => .text user.username
  | "subjects" =>
    .records ((page (store.subjects.filter (·.memberIds.contains user.id)) inputs.limit).map
      .subject)
  | _ => .null

def resolveArtifact (store : Store) (artifact : Artifact) (field : String) :
    Except ResolverFailure Resolved :=
  match field with
  | "id" => .ok (.text artifact.id)
  | "title" => .ok (.text artifact.title)
  | "owner" => store.userOf artifact.ownerId
  | "createdBy" => store.userOf artifact.ownerId
  | _ => .ok .null

def resolveMember (store : Store) (userId subjectId field : String) (inputs : Inputs) :
    Except ResolverFailure Resolved :=
  match field with
  | "user" => store.userOf userId
  | "artifacts" =>
    let made := store.artifacts.filter fun a => a.subjectId == subjectId && a.ownerId == userId
    .ok (.records ((page made inputs.limit).map .artifact))
  | _ => .ok .null

def resolveSubject (store : Store) (subject : Subject) (field : String) (inputs : Inputs) :
    Except ResolverFailure Resolved :=
  match field with
  | "id" => .ok (.text subject.id)
  | "name" => .ok (.text subject.name)
  | "inviteCode" => .ok (.text subject.inviteCode)
  | "owner" => store.userOf subject.ownerId
  | "members" =>
    .ok (.records ((page subject.memberIds inputs.limit).map (.member · subject.id)))
  | "artifacts" =>
    let made := store.artifacts.filter (·.subjectId == subject.id)
    .ok (.records ((page made inputs.limit).map .artifact))
  | _ => .ok .null

def resolveNotification (store : Store) (notification : Notification) (field : String) :
    Except ResolverFailure Resolved :=
  match field with
  | "id" => .ok (.text notification.id)
  | "message" => .ok (.text notification.message)
  | "read" => .ok (.flag notification.read)
  | "fromUser" => store.userOf notification.fromUserId
  | _ => .ok .null

/-- What a field of a record answers. -/
def resolve (store : Store) (record : Record) (field : String) (inputs : Inputs) :
    Except ResolverFailure Resolved :=
  if field = FieldSpec.typename.name then .ok (.text record.type.name)
  else match record with
    | .query => store.resolveQuery field inputs
    | .mutation => .ok .null
    | .user u => .ok (store.resolveUser u field inputs)
    | .artifact a => store.resolveArtifact a field
    | .member userId subjectId => store.resolveMember userId subjectId field inputs
    | .subject s => store.resolveSubject s field inputs
    | .notification n => store.resolveNotification n field

/-- The field of mutations that changes the store. -/
def markField : String := "markNotificationRead"

/-- Does what a field of a mutation asks for, and answers it. -/
def perform (store : Store) (field : String) (inputs : Inputs) :
    Store × Except ResolverFailure Resolved :=
  if field = markField then
    let id := inputs.text "id"
    match store.markRead? id with
    | some store => (store, .ok (.flag true))
    | none => (store, .error (.noSuchNotification id))
  else (store, store.resolve .mutation field inputs)

end Store

end QueryAdmission.StudyRoom
