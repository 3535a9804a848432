import Mathlib.Data.List.Forall2
import QueryAdmission.Proofs.MatchingDocuments
import QueryAdmission.Proofs.Outline

/-! # The order of siblings

Reordering a selection set moves its selections and those of the sets below it, in fragments
as well as in operations. Its outline is then shuffled: the same branches and leaves stand
in another order at every level, so height and number of selections are as before. -/

namespace QueryAdmission

/-- The same selection, but that the set it carries may have been changed by `R`. -/
inductive Selection.Keeps (R : List Selection → List Selection → Prop) :
    Selection → Selection → Prop
  | field {label : Option String} {name : String} {arguments : List Argument}
      {directives : List Directive} {a b : SelectionSet} (h : Option.Rel R a b) :
      Keeps R (.field label name arguments directives a) (.field label name arguments directives b)
  | inline {on : Option String} {directives : List Directive} {a b : SelectionSet}
      (h : Option.Rel R a b) : Keeps R (.inline on directives a) (.inline on directives b)
  | spread {name : String} {directives : List Directive} {a b : SelectionSet}
      (h : Option.Rel R a b) : Keeps R (.spread name directives a) (.spread name directives b)
  | other : Keeps R .other .other

/-- The same selections in any order, and so on in the sets that they carry. -/
inductive SelectionsReordered : List Selection → List Selection → Prop
  | intro {xs zs ys : List Selection}
      (keeps : List.Forall₂ (Selection.Keeps SelectionsReordered) xs zs) (order : zs.Perm ys) :
      SelectionsReordered xs ys

/-- A set that is reordered, or none in both places. -/
abbrev SetReordered : SelectionSet → SelectionSet → Prop := Option.Rel SelectionsReordered

namespace Outline

/-- An outline with one more selection in front, which opens a set or none. -/
def cons : Option Outline → Outline → Outline
  | none, rest => .leaf rest
  | some inner, rest => .branch inner rest

/-- The same branches and leaves in another order, at any level. -/
inductive Shuffled : Outline → Outline → Prop
  | refl (a : Outline) : Shuffled a a
  | leaf {a b : Outline} (h : Shuffled a b) : Shuffled (.leaf a) (.leaf b)
  | branch {i j a b : Outline} (hinner : Shuffled i j) (h : Shuffled a b) :
      Shuffled (.branch i a) (.branch j b)
  | swap (x y : Option Outline) (a : Outline) : Shuffled (cons x (cons y a)) (cons y (cons x a))
  | trans {a b c : Outline} (h : Shuffled a b) (h' : Shuffled b c) : Shuffled a c

theorem Shuffled.cons {a b : Outline} (x : Option Outline) (h : a.Shuffled b) :
    (Outline.cons x a).Shuffled (Outline.cons x b) := by
  cases x with
  | none => exact .leaf h
  | some inner => exact .branch (.refl inner) h

theorem Shuffled.height_eq {a b : Outline} (h : a.Shuffled b) : a.height = b.height := by
  induction h with
  | refl a => rfl
  | leaf _ ih => exact ih
  | branch _ _ ihi ih => rw [height, height, ihi, ih]
  | swap x y a =>
    cases x <;> cases y <;> simp only [Outline.cons, height]
    omega
  | trans _ _ ih ih' => exact ih.trans ih'

theorem Shuffled.sizeTo_eq {a b : Outline} (h : a.Shuffled b) (levels : Nat) :
    a.sizeTo levels = b.sizeTo levels := by
  induction h generalizing levels with
  | refl a => rfl
  | leaf _ ih => rw [sizeTo, sizeTo, ih]
  | branch _ _ ihi ih =>
    cases levels with
    | zero => rw [sizeTo, sizeTo, ih]
    | succ levels => rw [sizeTo, sizeTo, ihi, ih]
  | swap x y a =>
    cases x <;> cases y <;> cases levels <;> simp only [Outline.cons, sizeTo] <;> omega
  | trans _ _ ih ih' => exact (ih levels).trans (ih' levels)

end Outline

namespace DepthMeter

variable {fragments fragments' : Option (List Fragment)}

/-- What selections open is changed as the sets are that they carry or stand for. -/
theorem opened_of_keeps {R : List Selection → List Selection → Prop}
    (hfragments : FragmentsMatch (Option.Rel R) fragments fragments') (path : List String)
    {x y : Selection} (h : x.Keeps R y) :
    Option.Rel (fun p q => R p.1 q.1 ∧ p.2 = q.2)
      (opened fragments path x) (opened fragments' path y) := by
  have hbody : ∀ {a b : SelectionSet}, Option.Rel R a b →
      Option.Rel (fun p q => R p.1 q.1 ∧ p.2 = q.2) (a.map (·, path)) (b.map (·, path)) := by
    intro a b hab
    cases hab with
    | none => exact .none
    | some hxy => exact .some ⟨hxy, rfl⟩
  cases h with
  | field h => exact hbody h
  | inline h => exact hbody h
  | spread h =>
    cases h with
    | none => exact opened_spread_match hfragments path _ _ _
    | some hxy => exact .some ⟨hxy, rfl⟩
  | other => exact .none

theorem outline_eq_cons (fragments : Option (List Fragment)) (path : List String)
    (selection : Selection) (rest : List Selection) :
    outline fragments path (selection :: rest) =
      .cons ((opened fragments path selection).map fun p => outline fragments p.2 p.1)
        (outline fragments path rest) := by
  rw [outline_cons]
  cases opened fragments path selection <;> rfl

theorem outline_perm (fragments : Option (List Fragment)) (path : List String)
    {xs ys : List Selection} (h : xs.Perm ys) :
    (outline fragments path xs).Shuffled (outline fragments path ys) := by
  induction h with
  | nil => exact .refl _
  | cons x _ ih =>
    rw [outline_eq_cons, outline_eq_cons]
    exact ih.cons _
  | swap x y xs =>
    simp only [outline_eq_cons]
    exact .swap _ _ _
  | trans _ _ ih ih' => exact ih.trans ih'

theorem outline_reordered (hfragments : FragmentsMatch SetReordered fragments fragments')
    (path : List String) (xs : List Selection) :
    ∀ ys, SelectionsReordered xs ys →
      (outline fragments path xs).Shuffled (outline fragments' path ys) := by
  -- the sets are followed in the order of the first; the other order comes last, as a shuffle
  induction path, xs using outline.induct fragments with
  | case1 path =>
    rintro ys ⟨keeps, order⟩
    cases keeps
    rw [List.nil_perm.mp order, outline_nil, outline_nil]
    exact .refl _
  | case2 path x xs hx ih =>
    rintro ys ⟨keeps, order⟩
    refine .trans ?_ (outline_perm fragments' path order)
    cases keeps with
    | @cons _ z _ zs hxz hrest =>
      have hz := opened_of_keeps hfragments path hxz
      rw [hx] at hz
      rw [outline_cons, hx, outline_cons]
      generalize opened fragments' path z = found at hz ⊢
      cases hz
      exact .leaf (ih zs ⟨hrest, .refl zs⟩)
  | case3 path x xs inner path' hx ihi ih =>
    rintro ys ⟨keeps, order⟩
    refine .trans ?_ (outline_perm fragments' path order)
    cases keeps with
    | @cons _ z _ zs hxz hrest =>
      have hz := opened_of_keeps hfragments path hxz
      rw [hx] at hz
      rw [outline_cons, hx, outline_cons]
      generalize opened fragments' path z = found at hz ⊢
      cases hz with
      | @some _ q h =>
        obtain ⟨inner', inside⟩ := q
        obtain ⟨hinner, rfl⟩ := h
        exact .branch (ihi inner' hinner) (ih zs ⟨hrest, .refl zs⟩)

/-- Reordering siblings anywhere shuffles the outline and does no more. -/
theorem outlineOf_reordered (hfragments : FragmentsMatch SetReordered fragments fragments')
    {a b : SelectionSet} (h : SetReordered a b) :
    (outlineOf fragments a).Shuffled (outlineOf fragments' b) := by
  cases h with
  | none =>
    rw [outlineOf, outlineOf, Option.getD_none, outline_nil, outline_nil]
    exact .refl _
  | some h => exact outline_reordered hfragments [] _ _ h

end DepthMeter

end QueryAdmission
