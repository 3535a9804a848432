import QueryAdmission.Execution.Answered

/-! # Executions and the store

An execution is a tree: at every call it branches over the answers. What holds on all branches
whose answers are to be expected holds of every run on a store that answers so, however the
calls change the store. -/

namespace QueryAdmission

open StudyRoom

/-- The records that an answer leads to. -/
def StudyRoom.Resolved.next : Resolved → List Record
  | .record r => [r]
  | .records rs => rs
  | _ => []

/-- What a field answers is of a type: null only where it may be, and lists and objects of the
types inside. -/
def StudyRoom.OutputType.Holds : OutputType → Resolved → Prop
  | .nonNull type, resolved => resolved ≠ .null ∧ type.Holds resolved
  | _, .null => True
  | .list item, .records records => ∀ record ∈ records, item.Holds (.record record)
  | .named (.object object), .record r => r.type = object
  | .named (.scalar .boolean), .flag _ => True
  | .named (.scalar .id), .text _ => True
  | .named (.scalar .string), .text _ => True
  | _, _ => False

/-- A known record is asked for a field that it has. -/
def ResolverCall.Proper (Known : Record → Prop) (call : ResolverCall) : Prop :=
  Known call.record ∧ ∃ spec, call.record.type.field? call.field = some spec

/-- A call is answered by what has the type of its field and leads to known records only. -/
def ResolverCall.Fits (Known : Record → Prop) (call : ResolverCall)
    (answer : Except ResolverFailure Resolved) : Prop :=
  ∃ resolved spec, answer = .ok resolved ∧ call.record.type.field? call.field = some spec ∧
    spec.type.Holds resolved ∧ ∀ record ∈ resolved.next, Known record

/-- Fields of queries and of records are only read. -/
theorem StudyRoom.Store.call_of_ne_mutation (store : Store) {call : ResolverCall}
    (h : call.record ≠ .mutation) :
    store.call call = (store, store.resolve call.record call.field call.inputs) := by
  obtain ⟨record, field, inputs⟩ := call
  cases record <;> first | rfl | exact absurd rfl h

namespace Execution

variable {α β : Type} {Calls : ResolverCall → Prop}
  {Expects : ResolverCall → Except ResolverFailure Resolved → Prop}

theorem bind_assoc {γ : Type} (x : Execution α) (f : α → Execution β) (g : β → Execution γ) :
    (x.bind f).bind g = x.bind fun a => (f a).bind g := by
  induction x with
  | done a => rfl
  | ask call next ih => simp only [bind, ih]

theorem bind_done (x : Execution α) : x.bind .done = x := by
  induction x with
  | done a => rfl
  | ask call next ih => simp only [bind, ih]

theorem map_map {γ : Type} (x : Execution α) (f : α → β) (g : β → γ) :
    (x.map f).map g = x.map (g ∘ f) := bind_assoc x _ _

/-! ## Runs -/

theorem run_map (f : α → β) (x : Execution α) (store : Store) :
    (x.map f).run store = ⟨(x.run store).store, (x.run store).calls, f (x.run store).result⟩ := by
  induction x generalizing store with
  | done a => rfl
  | ask call next ih =>
    have hnext := ih (store.call call).2 (store.call call).1
    simp only [map] at hnext ⊢
    simp only [bind, run, hnext]

/-- A run without calls leaves the store as it is. -/
theorem store_of_calls_nil {x : Execution α} {store : Store} (h : (x.run store).calls = []) :
    (x.run store).store = store := by
  cases x with
  | done a => rfl
  | ask call next => cases h

/-! ## What holds on all branches -/

/-- As long as every answer is to be expected of its call, every call is of a kind, and so is the
result. -/
inductive Keeps (Calls : ResolverCall → Prop)
    (Expects : ResolverCall → Except ResolverFailure Resolved → Prop) (Results : α → Prop) :
    Execution α → Prop
  | done {a : α} (h : Results a) : Keeps Calls Expects Results (.done a)
  | ask {call : ResolverCall} {next : Except ResolverFailure Resolved → Execution α}
      (hcall : Calls call)
      (hnext : ∀ answer, Expects call answer → Keeps Calls Expects Results (next answer)) :
      Keeps Calls Expects Results (.ask call next)

theorem Keeps.mono {P Q : α → Prop} {x : Execution α} (h : x.Keeps Calls Expects P)
    (hpq : ∀ a, P a → Q a) : x.Keeps Calls Expects Q := by
  induction h with
  | done ha => exact .done (hpq _ ha)
  | ask hcall _ ih => exact .ask hcall ih

theorem Keeps.bind {P : α → Prop} {Q : β → Prop} {x : Execution α} {f : α → Execution β}
    (h : x.Keeps Calls Expects P) (hf : ∀ a, P a → (f a).Keeps Calls Expects Q) :
    (x.bind f).Keeps Calls Expects Q := by
  induction h with
  | done ha => exact hf _ ha
  | ask hcall _ ih => exact .ask hcall ih

theorem Keeps.map {Q : β → Prop} {x : Execution α} {f : α → β}
    (h : x.Keeps Calls Expects fun a => Q (f a)) : (x.map f).Keeps Calls Expects Q :=
  h.bind fun _ ha => .done ha

/-- A run keeps what its execution keeps, on a store whose answers are to be expected and which
stays one, call after call. -/
theorem Keeps.run {P : α → Prop} {x : Execution α} (h : x.Keeps Calls Expects P)
    (Stays : Store → Prop)
    (hcall : ∀ store call, Stays store → Calls call →
      Stays (store.call call).1 ∧ Expects call (store.call call).2)
    {store : Store} (hstore : Stays store) :
    Stays (x.run store).store ∧ P (x.run store).result := by
  induction h generalizing store with
  | done ha => exact ⟨hstore, ha⟩
  | @ask call next hkind _ ih =>
    obtain ⟨hafter, hanswer⟩ := hcall store call hstore hkind
    exact ih _ hanswer hafter

/-- A run that asks for no field of a mutation leaves the store as it is. -/
theorem Keeps.run_of_reads {P : α → Prop} {Known : Record → Prop} {x : Execution α}
    (h : x.Keeps (·.Proper Known) Expects P) (hread : ¬Known .mutation) (store : Store)
    (hanswer : ∀ call : ResolverCall, call.Proper Known →
      Expects call (store.resolve call.record call.field call.inputs)) :
    (x.run store).store = store ∧ P (x.run store).result := by
  refine h.run (· = store) ?_ rfl
  rintro _ call rfl hproper
  rw [Store.call_of_ne_mutation _ fun hmutation => hread (hmutation ▸ hproper.1)]
  exact ⟨rfl, hanswer call hproper⟩

end Execution

namespace Answering

variable {α β : Type} {Calls : ResolverCall → Prop}
  {Expects : ResolverCall → Except ResolverFailure Resolved → Prop}

theorem map_behind_nil (x : Answering α) : Execution.map (.behind []) x = x := Execution.bind_done x

/-- The errors of three steps come one behind the other, however the steps are put together. -/
protected theorem bind_assoc {γ : Type} (x : Answering α) (f : α → Answering β)
    (g : β → Answering γ) : (x.bind f).bind g = x.bind fun a => (f a).bind g := by
  refine (Execution.bind_assoc x _ _).trans (congrArg (Execution.bind x) (funext ?_))
  rintro ⟨errors, value⟩
  cases value with
  | none => rfl
  | some a =>
    -- the errors in front are put there before the last steps, or behind them
    refine (Execution.bind_assoc (f a) _ _).trans
      (Eq.trans ?_ (Execution.bind_assoc (f a) _ _).symm)
    refine congrArg (Execution.bind (f a)) (funext ?_)
    rintro ⟨errors', value'⟩
    cases value' with
    | none => rfl
    | some b =>
      refine Eq.trans ?_ (Execution.map_map (g b) _ _).symm
      refine congrArg (Execution.map · (g b)) (funext fun c => ?_)
      simp only [Function.comp_apply, Answered.behind, List.append_assoc]

protected theorem id_map (x : Answering α) : id <$> x = x := by
  refine Eq.trans (congrArg (Execution.bind x) (funext ?_)) (Execution.bind_done x)
  rintro ⟨errors, value⟩
  cases value with
  | none => rfl
  | some a => simp [Execution.map, Execution.bind, Answering.pure, Answered.behind]

instance : LawfulMonad Answering :=
  .mk' Answering Answering.id_map (fun a f => map_behind_nil (f a)) Answering.bind_assoc

/-- What an execution of a part keeps. -/
abbrev Keeps (Calls : ResolverCall → Prop)
    (Expects : ResolverCall → Except ResolverFailure Resolved → Prop)
    (Results : Answered α → Prop) (x : Answering α) : Prop :=
  Execution.Keeps Calls Expects Results x

/-- What holds of steps one after the other: the second come behind the errors of the first, if
these have a value. -/
theorem Keeps.bind {P : Answered α → Prop} {Q : Answered β → Prop} {x : Answering α}
    {f : α → Answering β} (h : x.Keeps Calls Expects P)
    (hnone : ∀ errors, P ⟨errors, none⟩ → Q ⟨errors, none⟩)
    (hsome : ∀ errors a, P ⟨errors, some a⟩ →
      (f a).Keeps Calls Expects fun b => Q (b.behind errors)) :
    (x >>= f).Keeps Calls Expects Q := by
  refine Execution.Keeps.bind h ?_
  rintro ⟨errors, value⟩ hanswered
  cases value with
  | none => exact .done (hnone errors hanswered)
  | some a => exact .map (hsome errors a hanswered)

end Answering

end QueryAdmission
