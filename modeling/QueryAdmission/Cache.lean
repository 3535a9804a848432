import QueryAdmission.Syntax

/-! The Cache-Control directive of a response. Only queries are ever cached: those on the
allow-list by anyone, all others by the browser that asked. -/

namespace QueryAdmission

inductive CacheDirective where
  /-- Any cache may keep the response for five minutes. -/
  | shared
  /-- The browser may keep the response for one minute. -/
  | personal
  | noStore
  deriving DecidableEq, Repr

namespace CacheDirective

def name : CacheDirective → String
  | .shared => "PUBLIC"
  | .personal => "PRIVATE"
  | .noStore => "NO_STORE"

/-- How metrics name a directive. -/
def label : CacheDirective → String
  | .shared => "public"
  | .personal => "private"
  | .noStore => "no_store"

/-- What the header says. -/
def header : CacheDirective → String
  | .shared => "public, max-age=300, s-maxage=300"
  | .personal => "private, max-age=60"
  | .noStore => "no-store, no-cache, must-revalidate"

/-- All directives, by label. -/
def all : List CacheDirective := [.noStore, .personal, .shared]

end CacheDirective

/-- What is said of a value that names no operation type, as it is written. -/
def OperationType.unknownMessage (written : String) : String :=
  written ++ " is not a valid OperationType"

structure CacheSelector where
  /-- The names of the queries that are not scoped to a user. A request without a name can
  be listed too. -/
  publicQueries : List (Option String)
  /-- Whether a rejected request is kept out of caches. -/
  noStoreOnRejection : Bool

namespace CacheSelector

def standardPublicQueries : List String := ["checkEmail", "checkUsername", "subjectByInviteCode"]

def standard : CacheSelector := ⟨standardPublicQueries.map some, true⟩

/-- The directive for an operation of a type, written in any case, and a name. -/
def select (selector : CacheSelector) (type : String) (name : Option String) : CacheDirective :=
  if type.toLower ≠ "query" then .noStore
  else if name ∈ selector.publicQueries then .shared
  else .personal

/-- The directive for a response, which is never cacheable if it was rejected and the
selector looks at that. -/
def forResponse (selector : CacheSelector) (type : String) (name : Option String)
    (rejected : Bool) : CacheDirective :=
  if rejected && selector.noStoreOnRejection then .noStore else selector.select type name

end CacheSelector

end QueryAdmission
