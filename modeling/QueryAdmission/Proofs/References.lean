import QueryAdmission.Proofs.Executions

/-! # References between records

Where every user is there that a record refers to, no resolver fails on any record that a walk
from the roots of queries comes across. What it answers has the type of its field, so that no
walk comes back to a root. -/

namespace QueryAdmission

open StudyRoom

/-! ## References -/

namespace StudyRoom

namespace Store

/-- The users that a record refers to. -/
def references (store : Store) : Record → List String
  | .query => [store.currentUserId]
  | .mutation => []
  | .user _ => []
  | .artifact a => [a.ownerId]
  | .member userId _ => [userId]
  | .subject s => s.ownerId :: s.memberIds
  | .notification n => [n.fromUserId]

/-- All users that a record refers to are there. -/
def Knows (store : Store) (record : Record) : Prop :=
  ∀ id ∈ store.references record, (store.user? id).isSome = true

/-- No record refers to a user who is not there. -/
structure Sound (store : Store) : Prop where
  query : store.Knows .query
  subjects : ∀ s ∈ store.subjects, store.Knows (.subject s)
  artifacts : ∀ a ∈ store.artifacts, store.Knows (.artifact a)
  notifications : ∀ n ∈ store.notifications, store.Knows (.notification n)

/-- The records that a walk from the roots of queries comes across, by whatever fields and with
whatever arguments. -/
inductive Met (store : Store) : Record → Prop
  | root : Met store .query
  | step {record next : Record} {field : String} {inputs : Inputs} {resolved : Resolved}
      (h : Met store record) (hresolved : store.resolve record field inputs = .ok resolved)
      (hnext : next ∈ resolved.next) : Met store next

theorem mem_of_mem_page {α : Type} {rows : List α} {limit : Option Int} {row : α}
    (h : row ∈ page rows limit) : row ∈ rows := by
  cases limit with
  | none => exact h
  | some n => exact List.mem_of_mem_take h

section

variable {store : Store} {record next : Record} {field : String} {inputs : Inputs}
  {resolved : Resolved}

theorem userOf_eq {id : String} (h : (store.user? id).isSome = true) :
    ∃ user, store.userOf id = .ok (.record (.user user)) := by
  obtain ⟨user, huser⟩ := Option.isSome_iff_exists.mp h
  exact ⟨user, by rw [userOf, huser]⟩

/-- The resolvers of a record whose references are there do not fail. -/
theorem resolve_of_knows (h : store.Knows record) (field : String) (inputs : Inputs) :
    ∃ resolved, store.resolve record field inputs = .ok resolved := by
  unfold resolve
  split
  · exact ⟨_, rfl⟩
  · cases record with
    | query =>
      obtain ⟨user, huser⟩ := userOf_eq (h _ List.mem_cons_self)
      simp only [resolveQuery, huser]
      split <;> exact ⟨_, rfl⟩
    | mutation => exact ⟨_, rfl⟩
    | user u => exact ⟨_, rfl⟩
    | artifact a =>
      obtain ⟨user, huser⟩ := userOf_eq (h _ List.mem_cons_self)
      simp only [resolveArtifact, huser]
      split <;> exact ⟨_, rfl⟩
    | member userId subjectId =>
      obtain ⟨user, huser⟩ := userOf_eq (h _ List.mem_cons_self)
      simp only [resolveMember, huser]
      split <;> exact ⟨_, rfl⟩
    | subject s =>
      obtain ⟨user, huser⟩ := userOf_eq (h _ List.mem_cons_self)
      simp only [resolveSubject, huser]
      split <;> exact ⟨_, rfl⟩
    | notification n =>
      obtain ⟨user, huser⟩ := userOf_eq (h _ List.mem_cons_self)
      simp only [resolveNotification, huser]
      split <;> exact ⟨_, rfl⟩

theorem knows_of_userOf {id : String} (h : store.userOf id = .ok resolved)
    (hnext : next ∈ resolved.next) : store.Knows next := by
  unfold userOf at h
  split at h
  · cases h
    obtain rfl := List.mem_singleton.mp hnext
    exact fun _ hid => absurd hid List.not_mem_nil
  · cases h

namespace Sound

variable (hsound : store.Sound)

include hsound

theorem knows_member {s : Subject} (hs : s ∈ store.subjects) {userId : String}
    (h : userId ∈ s.memberIds) : store.Knows (.member userId s.id) := by
  intro id hid
  obtain rfl := List.mem_singleton.mp hid
  exact hsound.subjects s hs _ (List.mem_cons_of_mem _ h)

theorem knows_resolveQuery (h : store.resolveQuery field inputs = .ok resolved)
    (hnext : next ∈ resolved.next) : store.Knows next := by
  unfold resolveQuery at h
  split at h
  · exact knows_of_userOf h hnext
  · cases h
    obtain ⟨s, hs, hmember⟩ := List.mem_flatMap.mp (mem_of_mem_page hnext)
    obtain ⟨userId, huser, rfl⟩ := List.mem_map.mp hmember
    exact hsound.knows_member (List.mem_filter.mp hs).1 huser
  · cases h
    cases hfound : store.subject? (inputs.text "id") with
    | none => simp [hfound, Resolved.next] at hnext
    | some s =>
      simp only [hfound, Resolved.next, List.mem_singleton] at hnext
      exact hnext ▸ hsound.subjects s (List.mem_of_find?_eq_some hfound)
  · cases h
    obtain ⟨n, hn, rfl⟩ := List.mem_map.mp hnext
    exact hsound.notifications n (mem_of_mem_page hn)
  · cases h
    cases hnext
  · cases h
    cases hnext
  · cases h
    cases hfound : store.subjects.find? (·.inviteCode == inputs.text "code") with
    | none => simp [hfound, Resolved.next] at hnext
    | some s =>
      simp only [hfound, Resolved.next, List.mem_singleton] at hnext
      exact hnext ▸ hsound.subjects s (List.mem_of_find?_eq_some hfound)
  · cases h
    cases hnext

theorem knows_resolveUser {user : User}
    (hnext : next ∈ (store.resolveUser user field inputs).next) :
    store.Knows next := by
  unfold resolveUser at hnext
  split at hnext
  · cases hnext
  · cases hnext
  · obtain ⟨s, hs, rfl⟩ := List.mem_map.mp hnext
    exact hsound.subjects s (List.mem_filter.mp (mem_of_mem_page hs)).1
  · cases hnext

omit hsound in
theorem knows_resolveArtifact {artifact : Artifact}
    (h : store.resolveArtifact artifact field = .ok resolved) (hnext : next ∈ resolved.next) :
    store.Knows next := by
  unfold resolveArtifact at h
  split at h
  · cases h
    cases hnext
  · cases h
    cases hnext
  · exact knows_of_userOf h hnext
  · exact knows_of_userOf h hnext
  · cases h
    cases hnext

theorem knows_resolveMember {userId subjectId : String}
    (h : store.resolveMember userId subjectId field inputs = .ok resolved)
    (hnext : next ∈ resolved.next) : store.Knows next := by
  unfold resolveMember at h
  split at h
  · exact knows_of_userOf h hnext
  · cases h
    obtain ⟨a, ha, rfl⟩ := List.mem_map.mp hnext
    exact hsound.artifacts a (List.mem_filter.mp (mem_of_mem_page ha)).1
  · cases h
    cases hnext

theorem knows_resolveSubject {subject : Subject} (hsubject : store.Knows (.subject subject))
    (h : store.resolveSubject subject field inputs = .ok resolved)
    (hnext : next ∈ resolved.next) : store.Knows next := by
  unfold resolveSubject at h
  split at h
  · cases h
    cases hnext
  · cases h
    cases hnext
  · cases h
    cases hnext
  · exact knows_of_userOf h hnext
  · cases h
    obtain ⟨userId, huser, rfl⟩ := List.mem_map.mp hnext
    intro id hid
    obtain rfl := List.mem_singleton.mp hid
    exact hsubject _ (List.mem_cons_of_mem _ (mem_of_mem_page huser))
  · cases h
    obtain ⟨a, ha, rfl⟩ := List.mem_map.mp hnext
    exact hsound.artifacts a (List.mem_filter.mp (mem_of_mem_page ha)).1
  · cases h
    cases hnext

omit hsound in
theorem knows_resolveNotification {notification : Notification}
    (h : store.resolveNotification notification field = .ok resolved)
    (hnext : next ∈ resolved.next) : store.Knows next := by
  unfold resolveNotification at h
  split at h
  · cases h
    cases hnext
  · cases h
    cases hnext
  · cases h
    cases hnext
  · exact knows_of_userOf h hnext
  · cases h
    cases hnext

/-- What a resolver leads to has its references there as well. -/
theorem knows_next (hrecord : store.Knows record)
    (h : store.resolve record field inputs = .ok resolved) (hnext : next ∈ resolved.next) :
    store.Knows next := by
  unfold resolve at h
  split at h
  · cases h
    cases hnext
  · cases record with
    | query => exact hsound.knows_resolveQuery h hnext
    | mutation =>
      cases h
      cases hnext
    | user u =>
      cases h
      exact hsound.knows_resolveUser hnext
    | artifact a => exact knows_resolveArtifact h hnext
    | member userId subjectId => exact hsound.knows_resolveMember h hnext
    | subject s => exact hsound.knows_resolveSubject hrecord h hnext
    | notification n => exact knows_resolveNotification h hnext

/-- All references of the records that a walk comes across are there. -/
theorem knows_of_met (h : store.Met record) : store.Knows record := by
  induction h with
  | root => exact hsound.query
  | step _ hresolved hnext ih => exact hsound.knows_next ih hresolved hnext

end Sound

end

end Store

/-! ## Types of answers -/

theorem holds_flag (b : Bool) : (FieldSpec.scalar .boolean).Holds (.flag b) := by
  simp [FieldSpec.scalar, OutputType.Holds]

theorem holds_text (s : String) : (FieldSpec.scalar .string).Holds (.text s) := by
  simp [FieldSpec.scalar, OutputType.Holds]

theorem holds_id (id : String) : (FieldSpec.scalar .id).Holds (.text id) := by
  simp [FieldSpec.scalar, OutputType.Holds]

theorem holds_object (record : Record) : (FieldSpec.object record.type).Holds (.record record) := by
  simp [FieldSpec.object, OutputType.Holds]

theorem holds_objects {object : ObjectType} {records : List Record}
    (h : ∀ record ∈ records, record.type = object) :
    (FieldSpec.objects object).Holds (.records records) := by
  simpa [FieldSpec.objects, FieldSpec.object, OutputType.Holds] using h

theorem holds_map {α : Type} {object : ObjectType} (make : α → Record)
    (h : ∀ a, (make a).type = object) (rows : List α) :
    (FieldSpec.objects object).Holds (.records (rows.map make)) := by
  refine holds_objects fun record hrecord => ?_
  obtain ⟨a, _, rfl⟩ := List.mem_map.mp hrecord
  exact h a

theorem holds_userOf {store : Store} {id : String} {resolved : Resolved}
    (h : store.userOf id = .ok resolved) : (FieldSpec.object .user).Holds resolved := by
  unfold Store.userOf at h
  split at h
  · cases h
    exact holds_object (.user _)
  · cases h

/-! ### Field by field -/

namespace Store

variable {store : Store} {spec : FieldSpec} {inputs : Inputs} {resolved : Resolved}

theorem type_of_mem_members {record : Record} (h : record ∈ store.members) :
    record.type = .member := by
  obtain ⟨s, _, hmember⟩ := List.mem_flatMap.mp h
  obtain ⟨userId, _, rfl⟩ := List.mem_map.mp hmember
  rfl

theorem holds_resolveQuery (hspec : spec ∈ ObjectType.query.fields)
    (h : store.resolveQuery spec.name inputs = .ok resolved) : spec.type.Holds resolved := by
  simp only [ObjectType.fields, List.mem_cons, List.not_mem_nil, or_false] at hspec
  rcases hspec with rfl | rfl | rfl | rfl | rfl | rfl | rfl
  · exact holds_userOf h
  · cases h
    exact holds_objects fun record hrecord => type_of_mem_members (mem_of_mem_page hrecord)
  · cases h
    split <;> trivial
  · cases h
    exact holds_map Record.notification (fun _ => rfl) _
  · cases h
    exact holds_flag _
  · cases h
    exact holds_flag _
  · cases h
    split <;> trivial

theorem holds_resolveUser {user : User} (hspec : spec ∈ ObjectType.user.fields) :
    spec.type.Holds (store.resolveUser user spec.name inputs) := by
  simp only [ObjectType.fields, List.mem_cons, List.not_mem_nil, or_false] at hspec
  rcases hspec with rfl | rfl | rfl
  · exact holds_id _
  · exact holds_text _
  · exact holds_map Record.subject (fun _ => rfl) _

theorem holds_resolveArtifact {artifact : Artifact} (hspec : spec ∈ ObjectType.artifact.fields)
    (h : store.resolveArtifact artifact spec.name = .ok resolved) : spec.type.Holds resolved := by
  simp only [ObjectType.fields, List.mem_cons, List.not_mem_nil, or_false] at hspec
  rcases hspec with rfl | rfl | rfl | rfl
  · cases h
    exact holds_id _
  · cases h
    exact holds_text _
  · exact holds_userOf h
  · exact holds_userOf h

theorem holds_resolveMember {userId subjectId : String} (hspec : spec ∈ ObjectType.member.fields)
    (h : store.resolveMember userId subjectId spec.name inputs = .ok resolved) :
    spec.type.Holds resolved := by
  simp only [ObjectType.fields, List.mem_cons, List.not_mem_nil, or_false] at hspec
  rcases hspec with rfl | rfl
  · exact holds_userOf h
  · cases h
    exact holds_map Record.artifact (fun _ => rfl) _

theorem holds_resolveSubject {subject : Subject} (hspec : spec ∈ ObjectType.subject.fields)
    (h : store.resolveSubject subject spec.name inputs = .ok resolved) :
    spec.type.Holds resolved := by
  simp only [ObjectType.fields, List.mem_cons, List.not_mem_nil, or_false] at hspec
  rcases hspec with rfl | rfl | rfl | rfl | rfl | rfl
  · cases h
    exact holds_id _
  · cases h
    exact holds_text _
  · cases h
    exact holds_text _
  · exact holds_userOf h
  · cases h
    exact holds_map (Record.member · subject.id) (fun _ => rfl) _
  · cases h
    exact holds_map Record.artifact (fun _ => rfl) _

theorem holds_resolveNotification {notification : Notification}
    (hspec : spec ∈ ObjectType.notification.fields)
    (h : store.resolveNotification notification spec.name = .ok resolved) :
    spec.type.Holds resolved := by
  simp only [ObjectType.fields, List.mem_cons, List.not_mem_nil, or_false] at hspec
  rcases hspec with rfl | rfl | rfl | rfl
  · cases h
    exact holds_id _
  · cases h
    exact holds_text _
  · cases h
    exact holds_flag _
  · exact holds_userOf h

/-- No type has a field of its own under the name of the field that every object has. -/
theorem ne_typename {object : ObjectType} (h : spec ∈ object.fields) :
    spec.name ≠ FieldSpec.typename.name := by
  have hall : ∀ other ∈ object.fields, other.name ≠ FieldSpec.typename.name := by
    cases object <;> decide
  exact hall spec h

/-- What a field of a query, or of a record that a query comes across, answers has the type of
the field. -/
theorem holds_of_resolve {record : Record} (hrecord : record ≠ .mutation) {field : String}
    (hfield : record.type.field? field = some spec)
    (h : store.resolve record field inputs = .ok resolved) : spec.type.Holds resolved := by
  obtain rfl : spec.name = field := by simpa using List.find?_some hfield
  rcases List.mem_cons.mp (List.mem_of_find?_eq_some hfield) with rfl | hspec
  · cases h
    exact holds_text _
  · unfold resolve at h
    rw [if_neg (ne_typename hspec)] at h
    cases record with
    | query => exact holds_resolveQuery hspec h
    | mutation => exact absurd rfl hrecord
    | user user =>
      cases h
      exact holds_resolveUser hspec
    | artifact artifact => exact holds_resolveArtifact hspec h
    | member userId subjectId => exact holds_resolveMember hspec h
    | subject subject => exact holds_resolveSubject hspec h
    | notification notification => exact holds_resolveNotification hspec h

end Store

/-- What has a type leads to records of the type of objects in it. -/
theorem OutputType.object?_of_holds {type : OutputType} {resolved : Resolved}
    (h : type.Holds resolved) {next : Record} (hnext : next ∈ resolved.next) :
    type.object? = some next.type := by
  induction type generalizing resolved with
  | named type =>
    cases resolved with
    | record r =>
      obtain rfl := List.mem_singleton.mp hnext
      cases type with
      | object object => exact congrArg some (Eq.symm h)
      | scalar scalar => cases scalar <;> exact h.elim
    | records rs => cases type <;> exact h.elim
    | _ => cases hnext
  | list item ih =>
    cases resolved with
    | records rs => exact ih (h next hnext) List.mem_cons_self
    | record r => exact h.elim
    | _ => cases hnext
  | nonNull type ih => exact ih h.2 hnext

/-- No field answers the root of mutations. -/
theorem ObjectType.object?_ne_mutation {object : ObjectType} {name : String} {spec : FieldSpec}
    (h : object.field? name = some spec) : spec.type.object? ≠ some .mutation := by
  have hall : ∀ spec ∈ FieldSpec.typename :: object.fields, spec.type.object? ≠ some .mutation := by
    cases object <;> decide
  exact hall spec (List.mem_of_find?_eq_some h)

/-- What a field of a query, or of a record that a query comes across, leads to is no root of
mutations either. -/
theorem Store.ne_mutation_of_resolve {store : Store} {record : Record}
    (hrecord : record ≠ .mutation) {field : String} {spec : FieldSpec}
    (hfield : record.type.field? field = some spec) {inputs : Inputs} {resolved : Resolved}
    (h : store.resolve record field inputs = .ok resolved) {next : Record}
    (hnext : next ∈ resolved.next) : next ≠ .mutation := by
  rintro rfl
  exact ObjectType.object?_ne_mutation hfield
    (OutputType.object?_of_holds (holds_of_resolve hrecord hfield h) hnext)

end StudyRoom

end QueryAdmission
