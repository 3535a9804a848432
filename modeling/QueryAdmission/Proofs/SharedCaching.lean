import QueryAdmission.Proofs.StepEffects

/-! # What shared caches may keep

A response is marked for all caches exactly if it answers a query that bears a name of the
allow-list, and that was admitted or is cached in spite of its rejection. Which fields it
selects plays no part: a client is free to give the name of a global lookup to a query for
its own user. -/

namespace QueryAdmission

namespace CacheSelector

theorem rule_eq_shared_iff {selector : CacheSelector} {operation : Operation}
    {decision : Decision} :
    selector.rule operation decision = .shared ↔
      operation.type = .query ∧ operation.name ∈ selector.publicQueries ∧
        (decision = .allowed ∨ selector.noStoreOnRejection = false) := by
  unfold rule
  split
  · rename_i hnoStore
    refine ⟨nofun, ?_⟩
    rintro ⟨htype, _, hkept⟩
    rcases hnoStore with hother | ⟨hrejected, hflag⟩
    · exact absurd htype hother
    · rcases hkept with hallowed | hflag'
      · exact absurd hallowed hrejected
      · rw [hflag] at hflag'
        cases hflag'
  · rename_i hcached
    simp only [not_or, not_and, Decidable.not_not, Bool.not_eq_true] at hcached
    obtain ⟨htype, hflag⟩ := hcached
    split
    · rename_i hlisted
      refine ⟨fun _ => ⟨htype, hlisted, ?_⟩, fun _ => rfl⟩
      by_cases hallowed : decision = .allowed
      · exact .inl hallowed
      · exact .inr (hflag hallowed)
    · rename_i hunlisted
      exact ⟨nofun, fun h => absurd h.2.1 hunlisted⟩

end CacheSelector

namespace AdmissionControl

/-- A step sets a header only for an operation that it evaluated and counted, and then it is
the directive of the rule. -/
theorem header_step_eq_some_iff (control : AdmissionControl) (metrics : Metrics)
    (document : Option Document) (name : Option String) (context : Context)
    (directive : CacheDirective) :
    (control.step metrics document name context).2.header = some directive ↔
      context.hasResponse = true ∧ ∃ evaluation logs operation,
        control.gate.evaluate document name = .ok (evaluation, logs) ∧
        evaluation.operation = some operation ∧ evaluation.depth.toBinary64? ≠ none ∧
        control.selector.rule operation evaluation.decision = directive := by
  cases heval : control.gate.evaluate document name with
  | error failure => simp [control.step_of_error metrics context heval]
  | ok found =>
    obtain ⟨evaluation, logs⟩ := found
    cases hoperation : evaluation.operation with
    | none => simp [control.step_of_none metrics context heval hoperation, hoperation]
    | some operation =>
      obtain ⟨_, hcase⟩ := control.step_of_some metrics context heval hoperation
      split at hcase
      · rename_i hdepth
        simp [hcase.header, hdepth]
      · rename_i hdepth
        simp [hcase.header, hoperation, hdepth]

/-- With the standard allow-list, a response is marked for all caches exactly if it answers a
counted query under one of the three names, admitted or kept in spite of its rejection. -/
theorem header_shared_iff (control : AdmissionControl)
    (hlist : ∀ name, name ∈ control.selector.publicQueries ↔
      name ∈ CacheSelector.standardPublicQueries.map some)
    (metrics : Metrics) (document : Option Document) (name : Option String) (context : Context) :
    (control.step metrics document name context).2.header = some .shared ↔
      context.hasResponse = true ∧ ∃ evaluation logs operation lookup,
        control.gate.evaluate document name = .ok (evaluation, logs) ∧
        evaluation.operation = some operation ∧ evaluation.depth.toBinary64? ≠ none ∧
        operation.type = .query ∧ operation.name = some lookup ∧
        lookup ∈ CacheSelector.standardPublicQueries ∧
        (evaluation.decision = .allowed ∨ control.selector.noStoreOnRejection = false) := by
  simp only [header_step_eq_some_iff, CacheSelector.rule_eq_shared_iff, hlist, List.mem_map]
  grind

/-- A query under the name of a global lookup, for the fields that are given. -/
def lookupDocument (fields : List Selection) : Document :=
  ⟨[.operation ⟨.query, some "checkUsername", [], [], some fields⟩]⟩

/-- The lookup itself is admitted and marked for all caches. -/
theorem header_shared_iff_checkUsername :
    (∀ name, name ∈ AdmissionControl.standard.selector.publicQueries ↔
      name ∈ CacheSelector.standardPublicQueries.map some) ∧
    (standard.step .empty (some (lookupDocument [leafOf "checkUsername"])) none
      (.dictionary .present)).2.header = some .shared := by
  have hlist : ∀ name, name ∈ AdmissionControl.standard.selector.publicQueries ↔
      name ∈ CacheSelector.standardPublicQueries.map some := fun _ => Iff.rfl
  have hallowed : ((standard.gate.evaluate (some (lookupDocument [leafOf "checkUsername"]))
      none).toOption.map fun found =>
        (decide (found.1.decision = .allowed), found.1.depth.toBinary64?.isSome,
          found.1.operation.map fun o => (o.type, o.name))) =
      some (true, true, some (.query, some "checkUsername")) := by decide +kernel
  obtain ⟨⟨evaluation, logs⟩, heval, hfound⟩ := Option.map_eq_some_iff.mp hallowed
  simp only [Prod.mk.injEq, decide_eq_true_eq] at hfound
  obtain ⟨hdecision, hdepth, hoperation⟩ := hfound
  obtain ⟨operation, hsome, hnamed⟩ := Option.map_eq_some_iff.mp hoperation
  obtain ⟨htype, hname⟩ := Prod.mk.inj hnamed
  refine ⟨hlist, (header_shared_iff standard hlist _ _ _ _).mpr
    ⟨rfl, evaluation, logs, operation, "checkUsername", eq_ok_of_toOption heval, hsome, ?_, htype,
      hname, by decide, .inl hdecision⟩⟩
  exact Option.isSome_iff_ne_none.mp hdepth

/-- The selection of one's own user. -/
def ownUserField : Selection := .field none "me" [] [] (some [leafOf "id"])

/-- A query for one's own user under the name of a global lookup is marked for all caches. -/
theorem shared_ownUser :
    ∃ evaluation logs operation selections,
      standard.gate.evaluate (some (lookupDocument [ownUserField])) none =
        .ok (evaluation, logs) ∧
      evaluation.operation = some operation ∧ operation.selections = some selections ∧
      ownUserField ∈ selections ∧ "me" ∉ CacheSelector.standardPublicQueries ∧
      (standard.step .empty (some (lookupDocument [ownUserField])) none
        (.dictionary .present)).2.header = some .shared := by
  have hheader : (standard.step .empty (some (lookupDocument [ownUserField])) none
      (.dictionary .present)).2.header = some .shared := by decide +kernel
  obtain ⟨_, evaluation, logs, operation, heval, hsome, _⟩ :=
    (header_step_eq_some_iff _ _ _ _ _ _).mp hheader
  rcases Gate.evaluate_cases heval with
    ⟨_, rfl, _⟩ | ⟨document, target, hdocument, htarget, hjudges⟩
  · cases hsome
  · obtain rfl := Option.some.inj hdocument
    obtain rfl := Option.some.inj (hsome.symm.trans hjudges.subject)
    obtain rfl := Option.some.inj htarget
    exact ⟨evaluation, logs, _, _, heval, hsome, rfl, List.mem_cons_self, by decide, hheader⟩

end AdmissionControl

end QueryAdmission
