import QueryAdmission.Depth

/-! # Nesting with the spreads put in

An `Outline` is what is left of a selection set once names, arguments and directives are
dropped and every spread is replaced by the set of its fragment. No fragment is put in
below itself, so the outline of a set is finite whatever the fragments spread. Depth and
number of selections are read off it by plain recursion; the walk with its stack, cap
and budget is compared with them elsewhere. -/

namespace QueryAdmission

/-- The selections of a set one after the other: those that open no set, and those that open
one, with its outline. -/
inductive Outline where
  | done
  | leaf (rest : Outline)
  | branch (inner rest : Outline)

namespace Outline

/-- How many sets the longest chain of nested sets has below this one. -/
def height : Outline → Nat
  | .done => 0
  | .leaf rest => rest.height
  | .branch inner rest => max (inner.height + 1) rest.height

/-- How many selections there are in this set and in the sets at most `levels` below it. -/
def sizeTo : Outline → Nat → Nat
  | .done, _ => 0
  | .leaf rest, levels => rest.sizeTo levels + 1
  | .branch _ rest, 0 => rest.sizeTo 0 + 1
  | .branch inner rest, levels + 1 => inner.sizeTo levels + rest.sizeTo (levels + 1) + 1

end Outline

namespace DepthMeter

/-! ## The outline of a set -/

/-- How many fragments can still be put in below `path`. -/
def unopened (fragments : Option (List Fragment)) (path : List String) : Nat :=
  ((fragments.getD []).filter fun f => decide (f.name ∉ path)).length

/-- A bare spread opens the set of its fragment, unless that is open already. -/
theorem opened_spread (fragments : Option (List Fragment)) (path : List String) (name : String)
    (directives : List Directive) :
    opened fragments path (.spread name directives none) =
      if name ∈ path then none
      else ((fragments.bind (Fragment.find? · name)).bind (·.selections)).map
        (·, name :: path) := by
  simp only [opened]
  split
  · rfl
  · cases fragments with
    | none => rfl
    | some list =>
      simp only [bind, Option.bind_some, pure]
      cases Fragment.find? list name with
      | none => rfl
      | some fragment =>
        simp only [Option.bind_some]
        cases fragment.selections <;> rfl

theorem opened_eq_some {fragments : Option (List Fragment)} {path path' : List String}
    {selection : Selection} {selections : List Selection}
    (h : opened fragments path selection = some (selections, path')) :
    (selection.body = some selections ∧ path' = path) ∨
      ∃ name directives fragment, selection = .spread name directives none ∧ name ∉ path ∧
        fragments.bind (Fragment.find? · name) = some fragment ∧
        fragment.selections = some selections ∧ path' = name :: path := by
  unfold opened at h
  split at h
  · rename_i name directives
    have h : opened fragments path (.spread name directives none) = some (selections, path') := h
    rw [opened_spread] at h
    split at h
    · contradiction
    · rename_i hpath
      obtain ⟨set, hset, h⟩ := Option.map_eq_some_iff.mp h
      obtain ⟨fragment, hfragment, hset⟩ := Option.bind_eq_some_iff.mp hset
      obtain ⟨rfl, rfl⟩ := Prod.mk.inj h
      exact .inr ⟨name, directives, fragment, rfl, hpath, hfragment, hset, rfl⟩
  · obtain ⟨set, hset, h⟩ := Option.map_eq_some_iff.mp h
    obtain ⟨rfl, rfl⟩ := Prod.mk.inj h
    exact .inl ⟨hset, rfl⟩

theorem sizeOf_body_lt {selection : Selection} {selections : List Selection}
    (h : selection.body = some selections) : sizeOf selections < sizeOf selection := by
  cases selection <;> simp only [Selection.body, reduceCtorEq] at h <;> subst h <;> simp <;> omega

theorem unopened_cons_lt {fragments : Option (List Fragment)} {path : List String}
    {name : String} {fragment : Fragment} (hpath : name ∉ path)
    (h : fragments.bind (Fragment.find? · name) = some fragment) :
    unopened fragments (name :: path) < unopened fragments path := by
  obtain ⟨list, rfl, hfound⟩ := Option.bind_eq_some_iff.mp h
  have hmem : fragment ∈ list := List.mem_of_find?_eq_some hfound
  have hname : fragment.name = name := by simpa using List.find?_some hfound
  have hsplit : (list.filter fun f => decide (f.name ∉ name :: path)) =
      (list.filter fun f => decide (f.name ∉ path)).filter fun f => decide (f.name ≠ name) := by
    rw [List.filter_filter]
    congr 1
    funext f
    simp only [List.mem_cons, not_or, ne_eq, Bool.decide_and]
  simp only [unopened, Option.getD_some, hsplit]
  rw [List.length_filter_lt_length_iff_exists]
  exact ⟨fragment, by simp [hmem, hname, hpath], by simp [hname]⟩

/-- A set that a selection opens is smaller, or is that of a fragment that was not yet open. -/
theorem opened_decreases {fragments : Option (List Fragment)} {path path' : List String}
    {selection : Selection} {selections : List Selection} (rest : List Selection)
    (h : opened fragments path selection = some (selections, path')) :
    Prod.Lex (· < ·) (· < ·) (unopened fragments path', sizeOf selections)
      (unopened fragments path, sizeOf (selection :: rest)) := by
  rcases opened_eq_some h with ⟨hbody, rfl⟩ | ⟨name, _, fragment, _, hpath, hfound, _, rfl⟩
  · have := sizeOf_body_lt hbody
    exact .right _ (by simp only [List.cons.sizeOf_spec]; omega)
  · exact .left _ _ (unopened_cons_lt hpath hfound)

/-- The outline of a selection set below the fragments of `path`. -/
def outline (fragments : Option (List Fragment)) (path : List String) :
    List Selection → Outline
  | [] => .done
  | selection :: rest =>
    match _h : opened fragments path selection with
    | none => .leaf (outline fragments path rest)
    | some (selections, path') =>
      .branch (outline fragments path' selections) (outline fragments path rest)
termination_by selections => (unopened fragments path, sizeOf selections)
decreasing_by
  · exact .right _ (by simp only [List.cons.sizeOf_spec]; omega)
  · exact opened_decreases rest _h
  · exact .right _ (by simp only [List.cons.sizeOf_spec]; omega)

/-- The outline of a selection set, if there is one, outside of all fragments. -/
def outlineOf (fragments : Option (List Fragment)) (selections : SelectionSet) : Outline :=
  outline fragments [] (selections.getD [])

@[simp] theorem outline_nil (fragments : Option (List Fragment)) (path : List String) :
    outline fragments path [] = .done := by
  rw [outline]

theorem outline_cons (fragments : Option (List Fragment)) (path : List String)
    (selection : Selection) (rest : List Selection) :
    outline fragments path (selection :: rest) =
      match opened fragments path selection with
      | none => .leaf (outline fragments path rest)
      | some (selections, path') =>
        .branch (outline fragments path' selections) (outline fragments path rest) := by
  rw [outline]
  split <;> rename_i h <;> rw [h]

theorem outline_eq_done {fragments : Option (List Fragment)} {path : List String}
    {selections : List Selection} (h : outline fragments path selections = .done) :
    selections = [] := by
  cases selections with
  | nil => rfl
  | cons selection rest =>
    rw [outline_cons] at h
    split at h <;> cases h

theorem outline_eq_leaf {fragments : Option (List Fragment)} {path : List String}
    {selections : List Selection} {o : Outline}
    (h : outline fragments path selections = .leaf o) :
    ∃ selection rest, selections = selection :: rest ∧
      opened fragments path selection = none ∧ outline fragments path rest = o := by
  cases selections with
  | nil => rw [outline_nil] at h; cases h
  | cons selection rest =>
    rw [outline_cons] at h
    split at h
    · rename_i hopened
      exact ⟨selection, rest, rfl, hopened, Outline.leaf.inj h⟩
    · cases h

theorem outline_eq_branch {fragments : Option (List Fragment)} {path : List String}
    {selections : List Selection} {i o : Outline}
    (h : outline fragments path selections = .branch i o) :
    ∃ selection rest inner path', selections = selection :: rest ∧
      opened fragments path selection = some (inner, path') ∧
      outline fragments path' inner = i ∧ outline fragments path rest = o := by
  cases selections with
  | nil => rw [outline_nil] at h; cases h
  | cons selection rest =>
    rw [outline_cons] at h
    split at h
    · cases h
    · rename_i inner path' hopened
      obtain ⟨hi, ho⟩ := Outline.branch.inj h
      exact ⟨selection, rest, inner, path', rfl, hopened, hi, ho⟩

/-- Sets have the same outline if their selections match one by one, and open sets that are
matched in turn or none. -/
theorem outline_congr {fragments fragments' : Option (List Fragment)}
    {R : List Selection × List String → List Selection × List String → Prop}
    (hR : ∀ xs path ys path', R (xs, path) (ys, path') →
      (xs = [] ∧ ys = []) ∨
      ∃ x xs' y ys', xs = x :: xs' ∧ ys = y :: ys' ∧ R (xs', path) (ys', path') ∧
        Option.Rel R (opened fragments path x) (opened fragments' path' y))
    (path : List String) (xs : List Selection) :
    ∀ ys path', R (xs, path) (ys, path') →
      outline fragments path xs = outline fragments' path' ys := by
  induction path, xs using outline.induct fragments with
  | case1 path =>
    intro ys path' h
    rcases hR _ _ _ _ h with ⟨_, rfl⟩ | ⟨x, xs', _, _, hx, _⟩
    · rw [outline_nil, outline_nil]
    · cases hx
  | case2 path selection rest hopened ih =>
    intro ys path' h
    rcases hR _ _ _ _ h with ⟨hx, _⟩ | ⟨x, xs', y, ys', hx, rfl, hrest, hrel⟩
    · cases hx
    · obtain ⟨rfl, rfl⟩ := List.cons.inj hx
      rw [outline_cons, outline_cons]
      rw [hopened] at hrel ⊢
      generalize opened fragments' path' y = found at hrel
      cases hrel
      simp only [ih _ _ hrest]
  | case3 path selection rest inner inside hopened ihi ih =>
    intro ys path' h
    rcases hR _ _ _ _ h with ⟨hx, _⟩ | ⟨x, xs', y, ys', hx, rfl, hrest, hrel⟩
    · cases hx
    · obtain ⟨rfl, rfl⟩ := List.cons.inj hx
      rw [outline_cons, outline_cons]
      rw [hopened] at hrel ⊢
      generalize opened fragments' path' y = found at hrel
      cases hrel with
      | some hinner => simp only [ihi _ _ hinner, ih _ _ hrest]

end DepthMeter

end QueryAdmission
