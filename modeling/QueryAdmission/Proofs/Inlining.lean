import Mathlib.Logic.Relation
import QueryAdmission.Proofs.MatchingDocuments
import QueryAdmission.Proofs.PlainScore
import QueryAdmission.Proofs.Verdict

/-! # Spreads weigh as much as inline fragments

A request pays for a fragment at every spread, as if its set stood there. `inlined` puts
the set there: documents without cyclic fragments have the same findings before and
after, budget and all. A spread that carries a set of its own weighs as an inline
fragment with that set, whatever its name stands for. -/

namespace QueryAdmission

/-! ## Spreads with a set of their own -/

/-- The same selection, but that spreads which carry a set, here and below, may have become
inline fragments with that set. -/
inductive Selection.AsInline : Selection → Selection → Prop
  | same (selection : Selection) : AsInline selection selection
  | field {label : Option String} {name : String} {arguments : List Argument}
      {directives : List Directive} {a b : List Selection} (h : List.Forall₂ AsInline a b) :
      AsInline (.field label name arguments directives (some a))
        (.field label name arguments directives (some b))
  | inline {on : Option String} {directives : List Directive} {a b : List Selection}
      (h : List.Forall₂ AsInline a b) :
      AsInline (.inline on directives (some a)) (.inline on directives (some b))
  | spread {name : String} {directives : List Directive} {a b : List Selection}
      (h : List.Forall₂ AsInline a b) :
      AsInline (.spread name directives (some a)) (.spread name directives (some b))
  | carried {name : String} {on : Option String} {directives directives' : List Directive}
      {a b : List Selection} (h : List.Forall₂ AsInline a b) :
      AsInline (.spread name directives (some a)) (.inline on directives' (some b))

/-- Selection sets whose selections are `AsInline` one by one. -/
def SetsAsInline : SelectionSet → SelectionSet → Prop :=
  Option.Rel (List.Forall₂ Selection.AsInline)

theorem setsAsInline_refl (set : SelectionSet) : SetsAsInline set set := by
  cases set with
  | none => exact .none
  | some selections => exact .some (List.forall₂_same.mpr fun selection _ => .same selection)

variable {fragments fragments' : Option (List Fragment)}

/-- A bare spread adds the same wherever its name stands for related sets. -/
theorem Scorer.addsAlike_spread {s : Scorer} {R : SelectionSet → SelectionSet → Prop}
    (h : FragmentsMatch R fragments fragments') (name : String)
    (directives directives' : List Directive) :
    s.AddsAlike fragments fragments' R (.spread name directives none)
      (.spread name directives' none) := by
  intro inner inner' hinner total
  have hname := h name
  simp only [addPlain, resolve?]
  generalize fragments.bind (Fragment.find? · name) = f at hname
  generalize fragments'.bind (Fragment.find? · name) = f' at hname
  cases hname with
  | none => rfl
  | some hset => simp only [Option.map_some, hinner _ _ hset]

theorem Scorer.addsAlike_of_asInline {s : Scorer}
    (hfragments : FragmentsMatch SetsAsInline fragments fragments') {x y : Selection}
    (h : x.AsInline y) : s.AddsAlike fragments fragments' SetsAsInline x y := by
  intro inner inner' hinner total
  cases h with
  | same =>
    cases x with
    | field label name arguments directives body =>
      cases body with
      | none => rfl
      | some selections => simp only [addPlain, hinner _ _ (setsAsInline_refl _)]
    | inline on directives body => simp only [addPlain, hinner _ _ (setsAsInline_refl _)]
    | spread name directives body =>
      cases body with
      | none =>
        exact addsAlike_spread hfragments name directives directives inner inner' hinner total
      | some selections => simp only [addPlain, hinner _ _ (setsAsInline_refl _)]
    | other => rfl
  | field h => simp only [addPlain, hinner _ _ (.some h)]
  | inline h => simp only [addPlain, hinner _ _ (.some h)]
  | spread h => simp only [addPlain, hinner _ _ (.some h)]
  | carried h => simp only [addPlain, hinner _ _ (.some h)]

theorem DepthMeter.opened_of_asInline
    (hfragments : FragmentsMatch SetsAsInline fragments fragments') (path : List String)
    {x y : Selection} (h : x.AsInline y) :
    Option.Rel (fun p q => List.Forall₂ Selection.AsInline p.1 q.1 ∧ p.2 = q.2)
      (opened fragments path x) (opened fragments' path y) := by
  have hbody : ∀ body : SelectionSet,
      Option.Rel (fun p q : List Selection × List String =>
        List.Forall₂ Selection.AsInline p.1 q.1 ∧ p.2 = q.2)
        (body.map (·, path)) (body.map (·, path)) := by
    intro body
    cases body with
    | none => exact .none
    | some selections => exact .some ⟨List.forall₂_same.mpr fun x _ => .same x, rfl⟩
  cases h with
  | same =>
    cases x with
    | field label name arguments directives body => exact hbody body
    | inline on directives body => exact hbody body
    | spread name directives body =>
      cases body with
      | some selections => exact hbody (some selections)
      | none => exact opened_spread_match hfragments path _ _ _
    | other => exact .none
  | field h => exact .some ⟨h, rfl⟩
  | inline h => exact .some ⟨h, rfl⟩
  | spread h => exact .some ⟨h, rfl⟩
  | carried h => exact .some ⟨h, rfl⟩

theorem DepthMeter.outlineOf_of_asInline
    (hfragments : FragmentsMatch SetsAsInline fragments fragments') {a b : SelectionSet}
    (h : SetsAsInline a b) : outlineOf fragments a = outlineOf fragments' b := by
  refine outline_congr
    (R := fun p q => List.Forall₂ Selection.AsInline p.1 q.1 ∧ p.2 = q.2) ?_ [] _ _ [] ?_
  · rintro xs path ys _ ⟨hxy, rfl⟩
    cases hxy with
    | nil => exact .inl ⟨rfl, rfl⟩
    | cons hx hrest =>
      exact .inr ⟨_, _, _, _, rfl, rfl, ⟨hrest, rfl⟩, opened_of_asInline hfragments path hx⟩
  · cases h with
    | none => exact ⟨.nil, rfl⟩
    | some hxy => exact ⟨hxy, rfl⟩

namespace Gate

variable {gate : Gate} {d d' : Document}

/-- A spread that carries a set of its own is found to be what an inline fragment with that
set is. -/
theorem findings_of_asInline (gate : Gate) (h : d.Matches SetsAsInline d')
    (name : Option String) : gate.findings (some d) name = gate.findings (some d') name := by
  refine findings_congr (optionRel_imp ?_ (h.target? name))
  rintro o o' ⟨htype, hname, hset⟩
  have hfragments := gate.bound_match h
  have hadds : ∀ a b, SetsAsInline a b → Option.Rel (List.Forall₂
      (gate.scorer.AddsAlike (gate.bound d) (gate.bound d') SetsAsInline)) a b :=
    fun _ _ hab => optionRel_imp
      (fun _ _ hxy => hxy.imp fun _ _ => Scorer.addsAlike_of_asInline hfragments) hab
  exact ⟨htype, hname, Scorer.score_congr hadds hset 0,
    DepthMeter.measure_congr _ (DepthMeter.outlineOf_of_asInline hfragments hset) 0⟩

end Gate

/-! ## Cyclic fragments -/

/-- A bare spread of `name` stands in the set, or in a set nested in it. -/
inductive Spreads (name : String) : List Selection → Prop
  | here {directives : List Directive} {selections : List Selection}
      (h : Selection.spread name directives none ∈ selections) : Spreads name selections
  | inside {selection : Selection} {selections inner : List Selection}
      (hmem : selection ∈ selections) (hbody : selection.body = some inner)
      (h : Spreads name inner) : Spreads name selections

theorem spreads_nil {name : String} : ¬ Spreads name [] := by
  intro h
  cases h with
  | here h => cases h
  | inside hmem _ _ => cases hmem

theorem Spreads.mono {name : String} {xs ys : List Selection} (h : Spreads name xs)
    (hsub : xs ⊆ ys) : Spreads name ys := by
  cases h with
  | here h => exact .here (hsub h)
  | inside hmem hbody h => exact .inside (hsub hmem) hbody h

theorem spreads_cons {name : String} {x : Selection} {xs : List Selection}
    (h : Spreads name (x :: xs)) :
    (∃ directives, x = .spread name directives none) ∨
      (∃ inner, x.body = some inner ∧ Spreads name inner) ∨ Spreads name xs := by
  cases h with
  | @here directives _ h =>
    rcases List.mem_cons.mp h with h | h
    · exact .inl ⟨directives, h.symm⟩
    · exact .inr (.inr (.here h))
  | inside hmem hbody h =>
    rcases List.mem_cons.mp hmem with rfl | hmem
    · exact .inr (.inl ⟨_, hbody, h⟩)
    · exact .inr (.inr (.inside hmem hbody h))

/-- The set of the fragment `a` spreads the fragment `b`. -/
def Fragment.Uses (fragments : List Fragment) (a b : String) : Prop :=
  ∃ fragment selections, Fragment.find? fragments a = some fragment ∧
    fragment.selections = some selections ∧ Spreads b selections

/-- No fragment of the document spreads itself, directly or through others. -/
def Document.Acyclic (document : Document) : Prop :=
  ∀ name, ¬ Relation.TransGen (Fragment.Uses document.fragments) name name

/-! ## Inlining -/

/-- A selection with `set` in place of its own; a bare spread of a fragment turns into an
inline fragment with it. -/
def Selection.withSet (fragments : List Fragment) (set : SelectionSet) : Selection → Selection
  | .field label name arguments directives _ => .field label name arguments directives set
  | .inline on directives _ => .inline on directives set
  | .spread name directives (some _) => .spread name directives set
  | .spread name directives none =>
    match Fragment.find? fragments name with
    | none => .spread name directives none
    | some fragment => .inline (some fragment.on) directives set
  | .other => .other

/-- A selection set below the fragments of `path`, with every bare spread of a fragment
replaced by an inline fragment that carries the fragment's set, inlined in turn. -/
def inlined (fragments : List Fragment) (path : List String) : List Selection → List Selection
  | [] => []
  | selection :: rest =>
    match _h : DepthMeter.opened (some fragments) path selection with
    | none => selection.withSet fragments none :: inlined fragments path rest
    | some (selections, path') =>
      selection.withSet fragments (some (inlined fragments path' selections)) ::
        inlined fragments path rest
termination_by selections => (DepthMeter.unopened (some fragments) path, sizeOf selections)
decreasing_by
  · exact .right _ (by simp only [List.cons.sizeOf_spec]; omega)
  · exact DepthMeter.opened_decreases rest _h
  · exact .right _ (by simp only [List.cons.sizeOf_spec]; omega)

/-- A definition with its selection set replaced. -/
def Definition.mapSet (f : SelectionSet → SelectionSet) : Definition → Definition
  | .operation o => .operation { o with selections := f o.selections }
  | .fragment g => .fragment { g with selections := f g.selections }
  | .typeSystem => .typeSystem

/-- The selection set of a definition, if it has one. -/
def Definition.set : Definition → SelectionSet
  | .operation o => o.selections
  | .fragment f => f.selections
  | .typeSystem => none

/-- The document with its fragments put in at every spread of them. -/
def Document.inlined (document : Document) : Document :=
  ⟨document.definitions.map
    (Definition.mapSet fun set => set.map (QueryAdmission.inlined document.fragments []))⟩

theorem Document.matches_inlined (document : Document) :
    document.Matches (fun a b => b = a.map (QueryAdmission.inlined document.fragments []))
      document.inlined := by
  simp only [Document.Matches, Document.inlined, List.forall₂_map_right_iff, List.forall₂_same]
  intro definition _
  cases definition with
  | operation o => exact .operation rfl rfl rfl
  | fragment f => exact .fragment rfl rfl
  | typeSystem => exact .typeSystem

theorem inlined_nil (fragments : List Fragment) (path : List String) :
    inlined fragments path [] = [] := by
  rw [inlined]

theorem inlined_cons (fragments : List Fragment) (path : List String) (selection : Selection)
    (rest : List Selection) :
    inlined fragments path (selection :: rest) =
      selection.withSet fragments
        ((DepthMeter.opened (some fragments) path selection).map
          fun p => inlined fragments p.2 p.1) :: inlined fragments path rest := by
  rw [inlined]
  split <;> rename_i h <;> rw [h] <;> rfl

theorem body_withSet {fragments : List Fragment} {set : SelectionSet} {selection : Selection}
    {inner : List Selection} (h : (selection.withSet fragments set).body = some inner) :
    set = some inner := by
  cases selection with
  | field => exact h
  | inline => exact h
  | other => cases h
  | spread name directives body =>
    cases body with
    | some selections => exact h
    | none =>
      simp only [Selection.withSet] at h
      split at h
      · cases h
      · exact h

/-- What an inlined selection opens: the inlined set, wherever the walk stands. -/
theorem opened_withSet {fragments fragments' : List Fragment}
    (hnames : ∀ name, Fragment.find? fragments name = none → Fragment.find? fragments' name = none)
    (g : List Selection × List String → List Selection) (path path' : List String)
    (selection : Selection) :
    DepthMeter.opened (some fragments') path' (selection.withSet fragments
        ((DepthMeter.opened (some fragments) path selection).map g)) =
      (DepthMeter.opened (some fragments) path selection).map fun p => (g p, path') := by
  cases selection with
  | field label name arguments directives body => cases body <;> rfl
  | inline on directives body => cases body <;> rfl
  | other => rfl
  | spread name directives body =>
    cases body with
    | some selections => rfl
    | none =>
      cases hname : Fragment.find? fragments name with
      | none =>
        simp only [Selection.withSet, hname, DepthMeter.opened_spread, Option.bind_some,
          hnames name hname, Option.bind_none, Option.map_none, ite_self]
      | some fragment =>
        simp only [Selection.withSet, hname]
        cases DepthMeter.opened (some fragments) path (.spread name directives none) <;> rfl

/-- A bare spread that inlining leaves in its place is of a name that no fragment has. -/
theorem find?_of_withSet {fragments : List Fragment} {name : String}
    {directives : List Directive} {g : List Selection × List String → List Selection}
    {path : List String} {selection : Selection}
    (h : selection.withSet fragments ((DepthMeter.opened (some fragments) path selection).map g) =
      .spread name directives none) : Fragment.find? fragments name = none := by
  cases selection with
  | field => cases h
  | inline => cases h
  | other => cases h
  | spread name' directives' body =>
    cases body with
    | some selections => cases h
    | none =>
      cases hname : Fragment.find? fragments name' with
      | none =>
        simp only [Selection.withSet, hname] at h
        cases h
        exact hname
      | some fragment =>
        simp only [Selection.withSet, hname] at h
        cases h

/-- Inlining leaves no bare spread of a fragment. -/
theorem find?_of_spreads_inlined {fragments : List Fragment} {name : String}
    (path : List String) (selections : List Selection)
    (h : Spreads name (inlined fragments path selections)) :
    Fragment.find? fragments name = none := by
  induction path, selections using inlined.induct fragments with
  | case1 path =>
    rw [inlined_nil] at h
    exact absurd h spreads_nil
  | case2 path selection rest hopened ih =>
    rw [inlined_cons] at h
    rcases spreads_cons h with ⟨_, hbare⟩ | ⟨inner, hbody, _⟩ | hrest
    · exact find?_of_withSet hbare
    · rw [hopened] at hbody
      cases body_withSet hbody
    · exact ih hrest
  | case3 path selection rest selections path' hopened ihi ih =>
    rw [inlined_cons] at h
    rcases spreads_cons h with ⟨_, hbare⟩ | ⟨inner, hbody, hinner⟩ | hrest
    · exact find?_of_withSet hbare
    · rw [hopened] at hbody
      obtain rfl := Option.some.inj (body_withSet hbody)
      exact ihi hinner
    · exact ih hrest

/-- An inlined set has the outline of the set, whatever is open where it stands. -/
theorem outline_inlined {fragments fragments' : List Fragment}
    (hnames : ∀ name, Fragment.find? fragments name = none → Fragment.find? fragments' name = none)
    (selections : SelectionSet) :
    DepthMeter.outlineOf (some fragments) selections =
      DepthMeter.outlineOf (some fragments') (selections.map (inlined fragments [])) := by
  refine DepthMeter.outline_congr (R := fun p q => q.1 = inlined fragments p.2 p.1) ?_ [] _ _ [] ?_
  · rintro xs path _ path' rfl
    cases xs with
    | nil => exact .inl ⟨rfl, inlined_nil _ _⟩
    | cons x xs =>
      refine .inr ⟨x, xs, _, _, rfl, inlined_cons _ _ _ _, rfl, ?_⟩
      rw [opened_withSet hnames]
      cases DepthMeter.opened (some fragments) path x with
      | none => exact .none
      | some p => exact .some rfl
  · cases selections with
    | none => exact (inlined_nil _ _).symm
    | some selections => rfl

/-! ## The score of an inlined set -/

/-- Every fragment of `path` uses every fragment that the set spreads. -/
def Below (fragments : List Fragment) (path : List String) (selections : List Selection) : Prop :=
  ∀ outer ∈ path, ∀ name, Spreads name selections →
    Relation.TransGen (Fragment.Uses fragments) outer name

theorem Below.mono {fragments : List Fragment} {path : List String} {xs ys : List Selection}
    (h : Below fragments path ys) (hsub : ∀ name, Spreads name xs → Spreads name ys) :
    Below fragments path xs :=
  fun outer houter name hname => h outer houter name (hsub name hname)

theorem Below.enter {fragments : List Fragment} {path : List String} {name : String}
    {directives : List Directive} {xs selections : List Selection} {fragment : Fragment}
    (h : Below fragments path (.spread name directives none :: xs))
    (hfound : Fragment.find? fragments name = some fragment)
    (hset : fragment.selections = some selections) :
    Below fragments (name :: path) selections := by
  intro outer houter inner hinner
  have huses : Fragment.Uses fragments name inner := ⟨fragment, selections, hfound, hset, hinner⟩
  rcases List.mem_cons.mp houter with rfl | houter
  · exact .single huses
  · exact .tail (h outer houter name (.here List.mem_cons_self)) huses

/-- Without cyclic fragments, a selection opens the same set below any fragments that use all
it spreads. -/
theorem opened_of_below {fragments : List Fragment}
    (hacyclic : ∀ name, ¬ Relation.TransGen (Fragment.Uses fragments) name name)
    {path path' : List String} {x : Selection} {xs : List Selection}
    (h : Below fragments path (x :: xs)) (h' : Below fragments path' (x :: xs)) :
    Option.Rel (fun p q => p.1 = q.1 ∧ Below fragments p.2 p.1 ∧ Below fragments q.2 q.1)
      (DepthMeter.opened (some fragments) path x) (DepthMeter.opened (some fragments) path' x) := by
  have hbody : ∀ path, Below fragments path (x :: xs) → ∀ selections, x.body = some selections →
      Below fragments path selections :=
    fun path h selections hset => h.mono fun name hname => .inside List.mem_cons_self hset hname
  have hrel : ∀ body, x.body = body →
      Option.Rel (fun p q : List Selection × List String =>
        p.1 = q.1 ∧ Below fragments p.2 p.1 ∧ Below fragments q.2 q.1)
        (body.map (·, path)) (body.map (·, path')) := by
    intro body hset
    cases body with
    | none => exact .none
    | some selections => exact .some ⟨rfl, hbody path h _ hset, hbody path' h' _ hset⟩
  cases x with
  | field label name arguments directives body => exact hrel body rfl
  | inline on directives body => exact hrel body rfl
  | other => exact .none
  | spread name directives body =>
    cases body with
    | some selections => exact hrel (some selections) rfl
    | none =>
      have hout : ∀ path, Below fragments path (.spread name directives none :: xs) →
          name ∉ path := fun path h hmem =>
        hacyclic name (h name hmem name (.here List.mem_cons_self))
      rw [DepthMeter.opened_spread, DepthMeter.opened_spread, if_neg (hout path h),
        if_neg (hout path' h'), Option.bind_some]
      cases hfound : Fragment.find? fragments name with
      | none => exact .none
      | some fragment =>
        cases hset : fragment.selections with
        | none =>
          rw [Option.bind_some, hset]
          exact .none
        | some selections =>
          rw [Option.bind_some, hset]
          exact .some ⟨rfl, h.enter hfound hset, h'.enter hfound hset⟩

/-- Without cyclic fragments, inlining does not depend on the fragments it is below. -/
theorem inlined_of_below {fragments : List Fragment}
    (hacyclic : ∀ name, ¬ Relation.TransGen (Fragment.Uses fragments) name name)
    (path : List String) (xs : List Selection) :
    ∀ path', Below fragments path xs → Below fragments path' xs →
      inlined fragments path xs = inlined fragments path' xs := by
  induction path, xs using inlined.induct fragments with
  | case1 path =>
    intro path' _ _
    rw [inlined_nil, inlined_nil]
  | case2 path x rest hopened ih =>
    intro path' h h'
    have hrest : ∀ path, Below fragments path (x :: rest) → Below fragments path rest :=
      fun path h => h.mono fun name hname => hname.mono (List.subset_cons_self x rest)
    have hrel := opened_of_below hacyclic h h'
    rw [inlined_cons, inlined_cons, ih path' (hrest path h) (hrest path' h')]
    rw [hopened] at hrel ⊢
    generalize DepthMeter.opened (some fragments) path' x = found at hrel ⊢
    cases hrel
    rfl
  | case3 path x rest inner inside hopened ihi ih =>
    intro path' h h'
    have hrest : ∀ path, Below fragments path (x :: rest) → Below fragments path rest :=
      fun path h => h.mono fun name hname => hname.mono (List.subset_cons_self x rest)
    have hrel := opened_of_below hacyclic h h'
    rw [inlined_cons, inlined_cons, ih path' (hrest path h) (hrest path' h')]
    rw [hopened] at hrel ⊢
    generalize DepthMeter.opened (some fragments) path' x = found at hrel ⊢
    cases hrel with
    | @some _ q hinner =>
      obtain ⟨hset, hbelow, hbelow'⟩ := hinner
      simp only at hset hbelow
      subst hset
      rw [Option.map_some, Option.map_some, ihi _ hbelow hbelow']

/-- Without cyclic fragments, a spread of a fragment is replaced by an inline fragment with the
set of the fragment, inlined in turn. -/
theorem inlined_spread {fragments : List Fragment}
    (hacyclic : ∀ name, ¬ Relation.TransGen (Fragment.Uses fragments) name name)
    {name : String} {fragment : Fragment} (hfound : Fragment.find? fragments name = some fragment)
    (directives : List Directive) (rest : List Selection) :
    inlined fragments [] (.spread name directives none :: rest) =
      .inline (some fragment.on) directives (fragment.selections.map (inlined fragments [])) ::
        inlined fragments [] rest := by
  have hnil : ∀ xs, Below fragments [] xs := fun xs outer houter => by cases houter
  rw [inlined_cons, DepthMeter.opened_spread, if_neg List.not_mem_nil, Option.bind_some, hfound,
    Option.bind_some]
  simp only [Selection.withSet, hfound]
  cases hset : fragment.selections with
  | none => rfl
  | some selections =>
    have hbelow : Below fragments [name] selections :=
      (hnil (.spread name directives none :: rest)).enter hfound hset
    simp only [Option.map_some]
    rw [inlined_of_below hacyclic [name] selections [] hbelow (hnil _)]

/-- A set, and what inlining makes of it below some fragments that use all it spreads. -/
def InlinedBelow (fragments : List Fragment) (a b : SelectionSet) : Prop :=
  ∃ path, (∀ xs, a = some xs → Below fragments path xs) ∧ b = a.map (inlined fragments path)

theorem inlinedBelow_none (fragments : List Fragment) : InlinedBelow fragments none none :=
  ⟨[], (fun _ h => by cases h), rfl⟩

theorem inlinedBelow_some {fragments : List Fragment} {path : List String} {xs : List Selection}
    (h : Below fragments path xs) :
    InlinedBelow fragments (some xs) (some (inlined fragments path xs)) := by
  refine ⟨path, ?_, rfl⟩
  intro ys hys
  cases hys
  exact h

/-- Without cyclic fragments, a selection adds what it adds inlined. -/
theorem Scorer.addsAlike_inlined {s : Scorer} {fragments fragments' : List Fragment}
    (hacyclic : ∀ name, ¬ Relation.TransGen (Fragment.Uses fragments) name name)
    (hnames : ∀ name, Fragment.find? fragments name = none → Fragment.find? fragments' name = none)
    {path : List String} {x : Selection} {xs : List Selection}
    (hbelow : Below fragments path (x :: xs)) :
    s.AddsAlike (some fragments) (some fragments') (InlinedBelow fragments) x
      (x.withSet fragments ((DepthMeter.opened (some fragments) path x).map
        fun p => inlined fragments p.2 p.1)) := by
  intro inner inner' hinner total
  have hnone : inner none = inner' none := hinner _ _ (inlinedBelow_none fragments)
  have hbody : ∀ selections, x.body = some selections →
      inner (some selections) = inner' (some (inlined fragments path selections)) := by
    intro selections hbody
    exact hinner _ _ (inlinedBelow_some (hbelow.mono fun name hname =>
      .inside List.mem_cons_self hbody hname))
  cases x with
  | field label name arguments directives body =>
    cases body with
    | none => rfl
    | some selections =>
      simp only [addPlain, hbody selections rfl]
      rfl
  | inline on directives body =>
    cases body with
    | none =>
      simp only [addPlain, hnone]
      rfl
    | some selections =>
      simp only [addPlain, hbody selections rfl]
      rfl
  | other => rfl
  | spread name directives body =>
    cases body with
    | some selections =>
      simp only [addPlain, hbody selections rfl]
      rfl
    | none =>
      cases hfound : Fragment.find? fragments name with
      | none =>
        simp only [addPlain, Selection.withSet, resolve?, Option.bind_some, hfound,
          hnames name hfound, Option.map_none]
      | some fragment =>
        have hpath : name ∉ path := fun hmem =>
          hacyclic name (hbelow name hmem name (.here List.mem_cons_self))
        simp only [addPlain, Selection.withSet, resolve?, Option.bind_some, hfound,
          DepthMeter.opened_spread, if_neg hpath, Option.map_some]
        cases hset : fragment.selections with
        | none => simp only [hnone, Option.map_none]
        | some selections =>
          simp only [hinner _ _ (inlinedBelow_some (hbelow.enter hfound hset)), Option.map_some]

theorem Scorer.score_inlined (s : Scorer) {fragments fragments' : List Fragment}
    (hacyclic : ∀ name, ¬ Relation.TransGen (Fragment.Uses fragments) name name)
    (hnames : ∀ name, Fragment.find? fragments name = none → Fragment.find? fragments' name = none)
    (selections : SelectionSet) (level : Int) :
    s.score (some fragments) selections level =
      s.score (some fragments') (selections.map (inlined fragments [])) level := by
  refine score_congr (R := InlinedBelow fragments) ?_ ⟨[], fun _ _ _ h => (by cases h), rfl⟩ level
  rintro a _ ⟨path, hbelow, rfl⟩
  cases a with
  | none => exact .none
  | some xs =>
    refine .some ?_
    replace hbelow := hbelow xs rfl
    induction xs with
    | nil =>
      rw [inlined_nil]
      exact .nil
    | cons x xs ih =>
      rw [inlined_cons]
      exact .cons (addsAlike_inlined hacyclic hnames hbelow)
        (ih (hbelow.mono fun name hname => hname.mono (List.subset_cons_self x xs)))

/-! ## Documents -/

theorem Document.find?_fragments_inlined {document : Document} {name : String}
    (h : Fragment.find? document.fragments name = none) :
    Fragment.find? document.inlined.fragments name = none := by
  have hname := document.matches_inlined.fragments name
  rw [Option.bind_some, Option.bind_some, h] at hname
  generalize Fragment.find? document.inlined.fragments name = found at hname
  cases hname
  rfl

/-- A gate that resolves fragments finds the same of a document without cyclic fragments and
of the document with its fragments put in. -/
theorem Gate.findings_inlined {gate : Gate} (hresolve : gate.resolveFragments = true)
    {document : Document} (hacyclic : document.Acyclic) (name : Option String) :
    gate.findings (some document) name = gate.findings (some document.inlined) name := by
  have hbound : ∀ d, gate.bound d = some d.fragments := fun d => by
    simp only [bound, hresolve, if_true]
  refine findings_congr (optionRel_imp ?_ (document.matches_inlined.target? name))
  rintro o o' ⟨htype, hname, hset⟩
  rw [hbound, hbound, hset]
  refine ⟨htype, hname, ?_, ?_⟩
  · exact Scorer.score_inlined _ hacyclic (fun _ => Document.find?_fragments_inlined) _ _
  · exact DepthMeter.measure_congr _
      (outline_inlined (fun _ => Document.find?_fragments_inlined) _) _

/-- Fragments give no discount. A document without cyclic fragments has the findings of the
document in which every bare spread of a fragment is an inline fragment with its set; a
spread that carries a set has the findings of an inline fragment with that set. -/
theorem Gate.findings_without_discount (gate : Gate) (document : Document)
    (name : Option String) :
    (gate.resolveFragments = true → document.Acyclic →
      (∀ definition ∈ document.inlined.definitions, ∀ selections spread,
        definition.set = some selections → Spreads spread selections →
          Fragment.find? document.fragments spread = none) ∧
      gate.findings (some document) name = gate.findings (some document.inlined) name) ∧
    ∀ document', document.Matches SetsAsInline document' →
      gate.findings (some document) name = gate.findings (some document') name := by
  refine ⟨fun hresolve hacyclic => ⟨?_, findings_inlined hresolve hacyclic name⟩,
    fun document' h => gate.findings_of_asInline h name⟩
  intro definition hmem selections spread hset hspreads
  obtain ⟨original, _, rfl⟩ := List.mem_map.mp hmem
  have hinlined : ∃ xs, selections = inlined document.fragments [] xs := by
    cases original with
    | operation o =>
      obtain ⟨xs, _, rfl⟩ := Option.map_eq_some_iff.mp hset
      exact ⟨xs, rfl⟩
    | fragment f =>
      obtain ⟨xs, _, rfl⟩ := Option.map_eq_some_iff.mp hset
      exact ⟨xs, rfl⟩
    | typeSystem => cases hset
  obtain ⟨xs, rfl⟩ := hinlined
  exact find?_of_spreads_inlined [] xs hspreads

/-- A query that spreads one fragment directly and through another. -/
def sharedDocument : Document :=
  ⟨[.operation ⟨.query, none, [], [], some [.spread "a" [] none, .spread "b" [] none]⟩,
    .fragment ⟨"a", "Query", [], some [.spread "b" [] none]⟩,
    .fragment ⟨"b", "Query", [], some [.field none "me" [] [] none]⟩]⟩

/-- A query of one selection, beside a fragment without a set. -/
def carryingDocument (selection : Selection) : Document :=
  ⟨[.operation ⟨.query, none, [], [], some [selection]⟩,
    .fragment ⟨"b", "Query", [], none⟩]⟩

theorem uses_sharedDocument {x y : String}
    (h : Fragment.Uses sharedDocument.fragments x y) : x = "a" ∧ y = "b" := by
  obtain ⟨fragment, selections, hfound, hset, hspreads⟩ := h
  have hmem := List.mem_of_find?_eq_some hfound
  have hname : fragment.name = x := by simpa using List.find?_some hfound
  have hfragments : sharedDocument.fragments =
      [⟨"a", "Query", [], some [.spread "b" [] none]⟩,
        ⟨"b", "Query", [], some [.field none "me" [] [] none]⟩] := rfl
  rw [hfragments] at hmem
  simp only [List.mem_cons, List.not_mem_nil, or_false] at hmem
  rcases hmem with rfl | rfl
  · obtain rfl := Option.some.inj hset
    rcases spreads_cons hspreads with ⟨_, hbare⟩ | ⟨inner, hbody, _⟩ | hrest
    · cases hbare
      exact ⟨hname.symm, rfl⟩
    · cases hbody
    · exact absurd hrest spreads_nil
  · obtain rfl := Option.some.inj hset
    rcases spreads_cons hspreads with ⟨_, hbare⟩ | ⟨inner, hbody, _⟩ | hrest
    · cases hbare
    · cases hbody
    · exact absurd hrest spreads_nil

theorem acyclic_sharedDocument : sharedDocument.Acyclic := by
  intro name h
  obtain ⟨_, hfirst, _⟩ := Relation.TransGen.head'_iff.mp h
  obtain ⟨_, _, hlast⟩ := Relation.TransGen.tail'_iff.mp h
  have hname := (uses_sharedDocument hfirst).1.symm.trans (uses_sharedDocument hlast).2
  exact absurd hname (by decide)

/-- The shared fragment can be put in; and a spread may carry any set, though its name stands
for a fragment without one. -/
theorem findings_without_discount_shared :
    (sharedDocument.Acyclic ∧
      Gate.standard.findings (some sharedDocument) none =
        Gate.standard.findings (some sharedDocument.inlined) none) ∧
    ∀ set, Gate.standard.findings (some (carryingDocument (.spread "b" [] (some set)))) none =
      Gate.standard.findings (some (carryingDocument (.inline none [] (some set)))) none := by
  refine ⟨⟨acyclic_sharedDocument, ?_⟩, fun set => ?_⟩
  · exact ((Gate.findings_without_discount Gate.standard sharedDocument none).1 rfl
      acyclic_sharedDocument).2
  · refine (Gate.findings_without_discount Gate.standard _ none).2 _ ?_
    have hset : List.Forall₂ Selection.AsInline set set :=
      List.forall₂_same.mpr fun selection _ => .same selection
    exact .cons (.operation rfl rfl (.some (.cons (.carried hset) .nil)))
      (.cons (.fragment rfl .none) .nil)
end QueryAdmission
