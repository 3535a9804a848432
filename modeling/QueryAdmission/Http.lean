import QueryAdmission.Http.Target
import QueryAdmission.Metrics.Exposition
import QueryAdmission.Service

/-! The service as a web application. It answers requests at one address, shows its metrics at
a second and that it is up at a third, and there are pages about it; slashes at the end of
an address are ignored, and so is one line end. -/

namespace QueryAdmission

/-- The body of a call: none, text that should be JSON, or a value that is JSON already. -/
inductive CallBody where
  | none
  | text (text : String)
  | json (json : Json)

/-- A call of the web application. Several parameters can have one name. -/
structure Call where
  method : String
  path : String
  parameters : List (String × String)
  body : CallBody

/-- What a call is answered with. -/
inductive ReplyContent where
  | none
  | health (service : String)
  | metrics (lines : List String)
  | response (response : Response)

structure Reply where
  status : Nat
  content : ReplyContent

namespace Reply

/-- A reply that only has a status. -/
def plain (status : Nat) : Reply := ⟨status, .none⟩

def badRequest : Reply := plain 400
def notFound : Reply := plain 404
def methodNotAllowed : Reply := plain 405
def brokenCall : Reply := plain 500

/-- The directive that a reply carries. -/
def header (reply : Reply) : Option CacheDirective :=
  match reply.content with
  | .response r => r.header
  | _ => none

def logs (reply : Reply) : List LogRecord :=
  match reply.content with
  | .response r => r.logs
  | _ => []

end Reply

/-- What is logged when the web application starts. -/
def Settings.startupLog (s : Settings) : LogRecord where
  level := .info
  logger := "query_guard.main"
  message := "GraphQL API starting on " ++ s.host ++ ":" ++ toString s.port ++
    " (max_complexity=" ++ s.maxComplexity.val.text ++ ", max_depth=" ++ toString s.maxDepth ++ ")"

/-- Why a call carries no request. -/
inductive CallError where
  /-- The call is not made as calls should be. -/
  | malformed
  /-- The call is beyond what its reader can take. -/
  | broken
  deriving DecidableEq, Repr

def CallError.reply : CallError → Reply
  | .malformed => .badRequest
  | .broken => .brokenCall

namespace Call

/-- A call of a target. Methods are in capitals. Parameters that are given apart take the place
of those in the target. -/
def ofTarget (method target : String) (parameters : Option (List (String × String)))
    (body : CallBody) : Call :=
  let target := Target.read target
  ⟨method.toUpper, target.path, parameters.getD target.parameters, body⟩

/-- The parameter of a name; of several the last counts. -/
def parameter? (call : Call) (name : String) : Option String :=
  call.parameters.reverse.lookup name

/-- A member that should be an object; a missing one or null has no members. -/
def members : Option Json → Except CallError (List (String × Json))
  | none => .ok []
  | some .null => .ok []
  | some (.object members) => .ok members
  | some _ => .error .malformed

/-- The text of a query; missing is as good as empty. -/
def query : Option Json → Except CallError String
  | none => .ok ""
  | some .null => .ok ""
  | some (.string s) => .ok s
  | some _ => .error .malformed

/-- The operation that is asked for. What is no text names no operation, like the empty
text. -/
def operationName : Option Json → Option String
  | none => none
  | some .null => none
  | some (.string s) => some s
  | some _ => some ""

/-- The request that the members of an object describe. -/
def request (mayMutate : Bool) (parts : List (String × Json)) : Except CallError Request := do
  let source ← query (parts.lookup "query")
  let values ← members (parts.lookup "variables")
  let _ ← members (parts.lookup "extensions")
  return ⟨source, operationName (parts.lookup "operationName"), values, mayMutate⟩

/-- The brackets and braces that can be open at once in the JSON of a call. -/
def nestingLimit : Nat := 965

/-- Reads JSON. Numbers that are too long and brackets that are too deep are no faults of form. -/
def readJson (text : String) : Except CallError Json :=
  match Json.read nestingLimit text with
  | .ok json => .ok json
  | .error .malformed => .error .malformed
  | .error _ => .error .broken

/-- The text of a body as a reader of JSON takes its bytes, which need not be the way it was
written. In front of what is UTF-8 can stand a byte order mark. -/
def bodyText (text : String) : Except CallError String :=
  let bytes := (codePoints text).flatMap utf8
  let encoding := Encoding.ofJson bytes
  match encoding, encoding.decode? bytes with
  | .utf8, some (.char '\ufeff' :: rest) => .ok (textOf rest)
  | _, some points => .ok (textOf points)
  | _, none => .error .broken

/-- The request in a body: one object, and not several of them in a list. -/
def posted (call : Call) : Except CallError Request := do
  let json ← match call.body with
    | .none => .error .malformed
    | .text text => readJson (← bodyText text)
    | .json json => .ok json
  match json with
  | .object parts => request true parts
  | .array _ => .error .malformed
  | _ => .error .broken

/-- A parameter that is written in JSON, if it is there; an empty one is no JSON. -/
def structured (call : Call) (name : String) : Except CallError (List (String × Json)) :=
  match call.parameter? name with
  | none => .ok []
  | some text =>
    if text.isEmpty then .ok [(name, .string text)]
    else (readJson text).map fun json => [(name, json)]

/-- The request in parameters, which may only read. -/
def asked (call : Call) : Except CallError Request := do
  let values ← call.structured "variables"
  let extensions ← call.structured "extensions"
  let plain := call.parameters.reverse.map fun (name, value) => (name, Json.string value)
  request false (values ++ extensions ++ plain)

/-- A path without slashes at its end. -/
def withoutSlashes (path : List Char) : List Char := (path.reverse.dropWhile (· == '/')).reverse

/-- A path without a line end at its end. -/
def withoutLineEnd (path : List Char) : List Char :=
  if path.getLast? = some '\n' then path.dropLast else path

/-- The path as addresses are compared with it: without slashes at its end, and without a line
end that stands in front of those. -/
def address (call : Call) : String :=
  String.ofList (withoutLineEnd (withoutSlashes call.path.toList))

/-- Whether a path is below another one, on one line. -/
def isBelow (root path : List Char) : Bool :=
  (root ++ ['/']).isPrefixOf path && !(withoutLineEnd path).contains '\n'

/-- Whether the path is a root or below it. -/
def isWithin (root : String) (call : Call) : Bool :=
  let path := call.path.toList
  withoutSlashes path == root.toList || isBelow root.toList path ||
    isBelow root.toList (withoutSlashes path)

end Call

namespace AdmissionControl

/-- The addresses of the pages about the web application, which anyone can get. -/
def pages : List String := ["/docs", "/docs/oauth2-redirect", "/redoc", "/openapi.json"]

/-- Answers a request that a call carries, if it carries one. -/
def replyTo (control : AdmissionControl) (state : ServiceState)
    (request : Except CallError Request) : ServiceState × Reply :=
  match request with
  | .error e => (state, e.reply)
  | .ok request =>
    match control.answer state request (.dictionary .present) with
    | (state, .ok response) => (state, ⟨200, .response response⟩)
    | (state, .error _) => (state, .badRequest)

/-- The names of the metrics that a call asks for; empty ones do not count. -/
def metricNames (call : Call) : List String :=
  call.parameters.filterMap fun (name, value) =>
    if name = "name[]" ∧ value ≠ "" then some value else none

/-- Replies to a call. A call for the head of the metrics alone gets no lines of them, and a
call for requests that brings no query gets a page to write one on, if `page` says so. -/
def reply (control : AdmissionControl) (page : Bool) (state : ServiceState) (call : Call) :
    ServiceState × Reply :=
  let address := call.address
  if call.isWithin "/metrics" then
    let lines := if call.method = "HEAD" then [] else state.metrics.lines (metricNames call)
    (state, ⟨200, .metrics lines⟩)
  else if address = "/health" then
    (state, if call.method = "GET" then ⟨200, .health "query-guard"⟩ else .methodNotAllowed)
  else if address = "/graphql" then
    match call.method with
    | "POST" => control.replyTo state call.posted
    | "GET" =>
      if (call.parameter? "query").isNone then
        (state, if page then .plain 200 else .notFound)
      else control.replyTo state call.asked
    | _ => (state, .methodNotAllowed)
  else if address ∈ pages then
    (state, if call.method = "GET" ∨ call.method = "HEAD" then .plain 200 else .methodNotAllowed)
  else (state, .notFound)

end AdmissionControl

end QueryAdmission
