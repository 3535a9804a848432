import QueryAdmission.Execution.Resolvers

/-! What becomes of a part of a response: a value, or a null where an error was raised that
only a nullable place further out can absorb. The errors met on the way stay in order
either way; one that was raised is the last of them. -/

namespace QueryAdmission

open StudyRoom

/-- A step on the way from the root of a response to a value in it. -/
inductive PathPart where
  | key (key : String)
  | index (index : Nat)
  deriving DecidableEq, Repr

/-- An error of an execution. -/
inductive ExecutionError where
  /-- The request itself is at fault. -/
  | request
  /-- A field could not be answered. -/
  | resolver (message : String) (path : List PathPart)
  deriving DecidableEq, Repr

/-- A value, or none where an error was raised, and all errors met on the way. -/
structure Answered (α : Type) where
  errors : List ExecutionError
  value : Option α
  deriving DecidableEq

namespace Answered

variable {α : Type}

/-- The same with errors that were met before. -/
def behind (errors : List ExecutionError) (x : Answered α) : Answered α :=
  ⟨errors ++ x.errors, x.value⟩

/-- Absorbs a raised error where the place can be null. -/
def absorb (nullable : Bool) (null : α) (x : Answered α) : Answered α :=
  match x.value with
  | some _ => x
  | none => if nullable then ⟨x.errors, some null⟩ else x

end Answered

/-- An execution of a part of a response. -/
def Answering (α : Type) := Execution (Answered α)

namespace Answering

variable {α β : Type}

protected def pure (a : α) : Answering α := .done ⟨[], some a⟩

protected def bind (x : Answering α) (f : α → Answering β) : Answering β :=
  Execution.bind x fun answered =>
    match answered.value with
    | none => .done ⟨answered.errors, none⟩
    | some a => Execution.map (.behind answered.errors) (f a)

instance : Monad Answering where
  pure := Answering.pure
  bind := Answering.bind

def raise (e : ExecutionError) : Answering α := .done ⟨[e], none⟩

/-- A value that is there, or an error of the request. -/
def ofOption : Option α → Answering α
  | some a => pure a
  | none => raise .request

def absorb (nullable : Bool) (null : α) (x : Answering α) : Answering α :=
  Execution.map (.absorb nullable null) x

/-- Calls a resolver. Its error is raised at the place that it was to answer. -/
def ask (call : ResolverCall) (path : List PathPart) : Answering Resolved :=
  Execution.ask call fun
    | .ok resolved => Answering.pure resolved
    | .error e => raise (.resolver e.message path)

end Answering

end QueryAdmission
