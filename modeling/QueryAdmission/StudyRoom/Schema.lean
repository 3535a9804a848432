/-! The types that requests can ask for: objects with fields, and four kinds of scalars.
Arguments are scalars; one that is not required is null unless it is given. -/

namespace QueryAdmission.StudyRoom

inductive Scalar where
  | id
  | string
  | int
  | boolean
  deriving DecidableEq, Repr

inductive ObjectType where
  | query
  | mutation
  | user
  | artifact
  | member
  | subject
  | notification
  deriving DecidableEq, Repr

inductive NamedType where
  | scalar (scalar : Scalar)
  | object (object : ObjectType)
  deriving DecidableEq, Repr

/-- The type of a field. -/
inductive OutputType where
  | named (type : NamedType)
  | list (item : OutputType)
  | nonNull (type : OutputType)
  deriving DecidableEq, Repr

/-- The type inside lists and non-null marks. -/
def OutputType.base : OutputType → NamedType
  | .named type => type
  | .list item => item.base
  | .nonNull type => type.base

def OutputType.object? (type : OutputType) : Option ObjectType :=
  match type.base with
  | .object o => some o
  | .scalar _ => none

structure ArgumentSpec where
  name : String
  type : Scalar
  required : Bool
  deriving DecidableEq, Repr

structure FieldSpec where
  name : String
  arguments : List ArgumentSpec
  type : OutputType
  deriving DecidableEq, Repr

namespace ObjectType

def name : ObjectType → String
  | query => "Query"
  | mutation => "Mutation"
  | user => "User"
  | artifact => "Artifact"
  | member => "Member"
  | subject => "Subject"
  | notification => "Notification"

def all : List ObjectType := [query, mutation, user, artifact, member, subject, notification]

end ObjectType

namespace Scalar

def name : Scalar → String
  | id => "ID"
  | string => "String"
  | int => "Int"
  | boolean => "Boolean"

def all : List Scalar := [id, string, int, boolean]

end Scalar

/-- The type of a name. -/
def NamedType.ofName? (name : String) : Option NamedType :=
  match ObjectType.all.find? (·.name == name) with
  | some o => some (.object o)
  | none => (Scalar.all.find? (·.name == name)).map .scalar

namespace FieldSpec

def scalar (s : Scalar) : OutputType := .nonNull (.named (.scalar s))

def object (o : ObjectType) : OutputType := .nonNull (.named (.object o))

def objectOrNull (o : ObjectType) : OutputType := .named (.object o)

def objects (o : ObjectType) : OutputType := .nonNull (.list (object o))

/-- The page size of a list. -/
def limit : ArgumentSpec := ⟨"limit", .int, false⟩

/-- The field that every object has. -/
def typename : FieldSpec := ⟨"__typename", [], scalar .string⟩

end FieldSpec

open FieldSpec in
/-- The fields of an object type. -/
def ObjectType.fields : ObjectType → List FieldSpec
  | .query => [
    ⟨"me", [], object .user⟩,
    ⟨"members", [limit], objects .member⟩,
    ⟨"subject", [⟨"id", .id, true⟩], objectOrNull .subject⟩,
    ⟨"notifications", [limit], objects .notification⟩,
    ⟨"checkUsername", [⟨"username", .string, true⟩], scalar .boolean⟩,
    ⟨"checkEmail", [⟨"email", .string, true⟩], scalar .boolean⟩,
    ⟨"subjectByInviteCode", [⟨"code", .string, true⟩], objectOrNull .subject⟩]
  | .mutation => [⟨"markNotificationRead", [⟨"id", .id, true⟩], scalar .boolean⟩]
  | .user => [
    ⟨"id", [], scalar .id⟩,
    ⟨"username", [], scalar .string⟩,
    ⟨"subjects", [limit], objects .subject⟩]
  | .artifact => [
    ⟨"id", [], scalar .id⟩,
    ⟨"title", [], scalar .string⟩,
    ⟨"owner", [], object .user⟩,
    ⟨"createdBy", [], object .user⟩]
  | .member => [
    ⟨"user", [], object .user⟩,
    ⟨"artifacts", [limit], objects .artifact⟩]
  | .subject => [
    ⟨"id", [], scalar .id⟩,
    ⟨"name", [], scalar .string⟩,
    ⟨"inviteCode", [], scalar .string⟩,
    ⟨"owner", [], object .user⟩,
    ⟨"members", [limit], objects .member⟩,
    ⟨"artifacts", [limit], objects .artifact⟩]
  | .notification => [
    ⟨"id", [], scalar .id⟩,
    ⟨"message", [], scalar .string⟩,
    ⟨"read", [], scalar .boolean⟩,
    ⟨"fromUser", [], object .user⟩]

/-- The field of a name. -/
def ObjectType.field? (type : ObjectType) (name : String) : Option FieldSpec :=
  (FieldSpec.typename :: type.fields).find? (·.name == name)

def FieldSpec.argument? (spec : FieldSpec) (name : String) : Option ArgumentSpec :=
  spec.arguments.find? (·.name == name)

end QueryAdmission.StudyRoom
