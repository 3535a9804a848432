import QueryAdmission.StudyRoom.Resolve

/-! Executions as what they do with the resolvers of the study room: an execution is done, or
it calls a resolver and goes on with the answer. Which resolver it calls next, and what it
makes of the answers, is up to the execution; what a resolver answers, and what it leaves in
the store, is up to the study room. -/

namespace QueryAdmission

open StudyRoom

/-- A call of a resolver: a field of a record, with the values of its arguments. -/
structure ResolverCall where
  record : Record
  field : String
  inputs : Inputs
  deriving DecidableEq, Repr

/-- What a call does to the store, and what it answers. The fields of mutations are done, and
all others are only read. -/
def StudyRoom.Store.call (store : Store) (call : ResolverCall) :
    Store × Except ResolverFailure Resolved :=
  match call.record with
  | .mutation => store.perform call.field call.inputs
  | record => (store, store.resolve record call.field call.inputs)

/-- An execution that comes to a result of the given type. -/
inductive Execution (α : Type) where
  | done (result : α)
  | ask (call : ResolverCall) (next : Except ResolverFailure Resolved → Execution α)

namespace Execution

variable {α β : Type}

/-- Goes on with the result of an execution. -/
def bind : Execution α → (α → Execution β) → Execution β
  | .done a, f => f a
  | .ask call next, f => .ask call fun answer => (next answer).bind f

def map (f : α → β) (execution : Execution α) : Execution β :=
  execution.bind fun a => .done (f a)

/-- What an execution leaves behind: the store, the calls that it made, and its result. -/
structure Run (α : Type) where
  store : Store
  calls : List ResolverCall
  result : α

/-- Runs an execution on a store. -/
def run : Execution α → Store → Run α
  | .done a, store => ⟨store, [], a⟩
  | .ask call next, store =>
    let (after, answer) := store.call call
    let rest := (next answer).run after
    { rest with calls := call :: rest.calls }

end Execution

end QueryAdmission
