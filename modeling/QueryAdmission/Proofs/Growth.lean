import Mathlib.Data.List.Forall2
import Mathlib.Logic.Relation
import QueryAdmission.Proofs.Outline
import QueryAdmission.Proofs.PlainScore
import QueryAdmission.Proofs.Prices

/-! # Larger selection sets

A set grows when it is joined by selections, when arguments are added or whole-number
literals raised, and when the sets of its selections grow, or appear. What grows further
down is left to a relation `R`; if sets in this relation grow within it (`Growing`), larger
sets score no less and have an outline in which that of the smaller set can be found. New
spreads may make fragments cyclic. -/

namespace QueryAdmission

/-- The whole number that a text writes, however many digits it has. -/
def WholeNumber.value? (text : String) : Option Int :=
  let (negative, unsigned) := splitSign (trimBlanks text.toList)
  if (unsigned.dropWhile isDigitPart).isEmpty then
    (digits? (unsigned.takeWhile isDigitPart)).map fun digits =>
      if negative then -(ofDigits digits : Int) else ofDigits digits
  else none

theorem WholeNumber.value?_of_read {text : String} {n : Int} (h : read text = .ok n) :
    value? text = some n := by
  simp only [read] at h
  split at h
  · cases h
  · rename_i digits hdigits
    split at h
    · cases h
    · split at h
      · cases h
      · rename_i hrest
        simp only [value?, hdigits, Option.map_some]
        rw [if_pos (by simpa using hrest), Except.ok.inj h]

/-- The same argument, or a whole-number literal under the same name that is no smaller. -/
inductive Argument.Raised : Argument → Argument → Prop
  | same (argument : Argument) : Raised argument argument
  | literal {name text text' : String} {m n : Int} (hm : WholeNumber.value? text = some m)
      (hn : WholeNumber.value? text' = some n) (hmn : m ≤ n) :
      Raised ⟨name, .int text⟩ ⟨name, .int text'⟩

theorem Argument.Raised.trans {a b c : Argument} (hab : a.Raised b) (hbc : b.Raised c) :
    a.Raised c := by
  cases hab with
  | same => exact hbc
  | literal hm hn hmn =>
    cases hbc with
    | same => exact .literal hm hn hmn
    | literal hm' hn' hmn' =>
      rw [hn] at hm'
      obtain rfl := Option.some.inj hm'
      exact .literal hm hn' (hmn.trans hmn')

/-- What was raised reads as no less, as far as it can be read. -/
theorem Argument.Raised.cases {a b : Argument} (h : a.Raised b) :
    (a = b ∧ ∀ text, a.value ≠ .int text) ∨
      ∃ name text text', a = ⟨name, .int text⟩ ∧ b = ⟨name, .int text'⟩ ∧
        ∀ m n, WholeNumber.read text = .ok m → WholeNumber.read text' = .ok n → m ≤ n := by
  cases h with
  | same =>
    obtain ⟨name, value⟩ := a
    cases value with
    | int text =>
      refine .inr ⟨name, text, text, rfl, rfl, ?_⟩
      intro m n hm hn
      rw [hm] at hn
      obtain rfl := Except.ok.inj hn
      exact Int.le_refl m
    | _ => exact .inl ⟨rfl, fun text htext => by cases htext⟩
  | @literal name text text' m n hm hn hmn =>
    refine .inr ⟨name, text, text', rfl, rfl, ?_⟩
    intro m' n' hm' hn'
    rw [WholeNumber.value?_of_read hm'] at hm
    rw [WholeNumber.value?_of_read hn'] at hn
    obtain rfl := Option.some.inj hm
    obtain rfl := Option.some.inj hn
    exact hmn

/-! ## Growth -/

/-- The selection, but that its arguments may have been raised and joined by others, and
that its set may have grown. A bare spread stays bare. -/
inductive Selection.Grows (R : SelectionSet → SelectionSet → Prop) : Selection → Selection → Prop
  | field {label label' : Option String} {name : String} {arguments arguments' : List Argument}
      {directives directives' : List Directive} {body body' : SelectionSet}
      (harguments : List.SublistForall₂ Argument.Raised arguments arguments')
      (hbody : R body body') :
      Grows R (.field label name arguments directives body)
        (.field label' name arguments' directives' body')
  | inline {on on' : Option String} {directives directives' : List Directive}
      {body body' : SelectionSet} (hbody : R body body') :
      Grows R (.inline on directives body) (.inline on' directives' body')
  | spread {name name' : String} {directives directives' : List Directive}
      {a b : List Selection} (hbody : R (some a) (some b)) :
      Grows R (.spread name directives (some a)) (.spread name' directives' (some b))
  | bare {name : String} {directives directives' : List Directive} :
      Grows R (.spread name directives none) (.spread name directives' none)
  | other : Grows R .other .other

/-- The set, but that its selections may have grown and been joined by others. Where there
was none, any set may have appeared. -/
inductive SetGrows (R : SelectionSet → SelectionSet → Prop) : SelectionSet → SelectionSet → Prop
  | none (b : SelectionSet) : SetGrows R none b
  | some {a b : List Selection} (h : List.SublistForall₂ (Selection.Grows R) a b) :
      SetGrows R (some a) (some b)

instance : Std.Refl Argument.Raised := ⟨.same⟩

instance : IsTrans Argument Argument.Raised := ⟨fun _ _ _ => Argument.Raised.trans⟩

theorem Selection.Grows.refl {R : SelectionSet → SelectionSet → Prop} (hR : ∀ a, R a a)
    (selection : Selection) : selection.Grows R selection := by
  cases selection with
  | field label name arguments directives body => exact .field (Std.Refl.refl arguments) (hR body)
  | inline on directives body => exact .inline (hR body)
  | spread name directives body =>
    cases body with
    | none => exact .bare
    | some selections => exact .spread (hR _)
  | other => exact .other

theorem Selection.Grows.trans {R : SelectionSet → SelectionSet → Prop}
    (hR : ∀ a b c, R a b → R b c → R a c) {x y z : Selection} (hxy : x.Grows R y)
    (hyz : y.Grows R z) : x.Grows R z := by
  cases hxy with
  | field harguments hbody =>
    cases hyz with
    | field harguments' hbody' =>
      exact .field (IsTrans.trans _ _ _ harguments harguments') (hR _ _ _ hbody hbody')
  | inline hbody =>
    cases hyz with
    | inline hbody' => exact .inline (hR _ _ _ hbody hbody')
  | spread hbody =>
    cases hyz with
    | spread hbody' => exact .spread (hR _ _ _ hbody hbody')
  | bare =>
    cases hyz with
    | bare => exact .bare
  | other => exact hyz

theorem SetGrows.refl {R : SelectionSet → SelectionSet → Prop} (hR : ∀ a, R a a)
    (set : SelectionSet) : SetGrows R set set := by
  have : Std.Refl (Selection.Grows R) := ⟨Selection.Grows.refl hR⟩
  cases set with
  | none => exact .none _
  | some selections => exact .some (Std.Refl.refl selections)

theorem SetGrows.trans {R : SelectionSet → SelectionSet → Prop}
    (hR : ∀ a b c, R a b → R b c → R a c) {a b c : SelectionSet} (hab : SetGrows R a b)
    (hbc : SetGrows R b c) : SetGrows R a c := by
  have : IsTrans Selection (Selection.Grows R) := ⟨fun _ _ _ => Selection.Grows.trans hR⟩
  cases hab with
  | none => exact .none c
  | some hab =>
    cases hbc with
    | some hbc => exact .some (IsTrans.trans _ _ _ hab hbc)

/-- Related sets grow, and the sets in them do so within the relation. -/
def Growing (R : SelectionSet → SelectionSet → Prop) : Prop := ∀ a b, R a b → SetGrows R a b

/-- Steps by each of which sets grow make them grow together. -/
theorem growing_reflTransGen {E : SelectionSet → SelectionSet → Prop}
    (hE : ∀ a b, E a b → SetGrows (Relation.ReflTransGen E) a b) :
    Growing (Relation.ReflTransGen E) := by
  intro a b hab
  induction hab with
  | refl => exact .refl (fun _ => .refl) a
  | tail _ hstep ih => exact ih.trans (fun _ _ _ => .trans) (hE _ _ hstep)

/-- Every name that stands for a fragment still does, with a set that may have grown. -/
def FragmentsGrow (R : SelectionSet → SelectionSet → Prop)
    (fragments fragments' : Option (List Fragment)) : Prop :=
  ∀ name f, fragments.bind (Fragment.find? · name) = some f →
    ∃ f', fragments'.bind (Fragment.find? · name) = some f' ∧ R f.selections f'.selections

variable {R : SelectionSet → SelectionSet → Prop} {fragments fragments' : Option (List Fragment)}

/-! ## Scores -/

/-- Totals that no item lowers are not lowered by a list of them. -/
theorem atMost_foldlM {β : Type} {g : Binary64 → β → Except Failure Binary64}
    (hgrow : ∀ b, ∀ x y z : Binary64, x.AtMost y → g y b = .ok z → x.AtMost z) (ys : List β) :
    ∀ x y z : Binary64, x.AtMost y → ys.foldlM g y = .ok z → x.AtMost z := by
  induction ys with
  | nil =>
    intro x y z hxy hz
    rw [← Except.ok.inj hz]
    exact hxy
  | cons b ys ih =>
    intro x y z hxy hz
    rw [List.foldlM_cons] at hz
    obtain ⟨y', hy', hz⟩ := bind_eq_ok hz
    exact ih x y' z (hgrow b x y y' hxy hy') hz

/-- Totals keep their order over lists of which one is matched within the other, if matched
items keep the order and the others lower no total. -/
theorem foldlM_atMost {α β : Type} {r : α → β → Prop}
    {f : Binary64 → α → Except Failure Binary64} {g : Binary64 → β → Except Failure Binary64}
    (hgrow : ∀ b, ∀ x y z : Binary64, x.AtMost y → g y b = .ok z → x.AtMost z)
    (hkeep : ∀ a b, ∀ x y x' y' : Binary64, r a b → x.AtMost y → f x a = .ok x' →
      g y b = .ok y' → x'.AtMost y') {xs : List α} {ys : List β}
    (h : List.SublistForall₂ r xs ys) :
    ∀ x y x' y' : Binary64, x.AtMost y → xs.foldlM f x = .ok x' → ys.foldlM g y = .ok y' →
      x'.AtMost y' := by
  induction h with
  | nil =>
    intro x y x' y' hxy hx hy
    rw [← Except.ok.inj hx]
    exact atMost_foldlM hgrow _ x y y' hxy hy
  | cons hab _ ih =>
    intro x y x' y' hxy hx hy
    rw [List.foldlM_cons] at hx hy
    obtain ⟨x₁, hx₁, hx⟩ := bind_eq_ok hx
    obtain ⟨y₁, hy₁, hy⟩ := bind_eq_ok hy
    exact ih x₁ y₁ x' y' (hkeep _ _ x y x₁ y₁ hab hxy hx₁ hy₁) hx hy
  | cons_right _ ih =>
    intro x y x' y' hxy hx hy
    rw [List.foldlM_cons] at hy
    obtain ⟨y₁, hy₁, hy⟩ := bind_eq_ok hy
    exact ih x y₁ x' y' (hgrow _ x y y₁ hxy hy₁) hx hy

namespace Scorer

variable {s t : Scorer}

theorem addTo_eq_ok {total sum : Binary64} {q : Quantity} (h : addTo total q = .ok sum) :
    ∃ x, q.toBinary64? = some x ∧ total + x = sum := by
  simp only [addTo, Binary64.plus?] at h
  cases hx : q.toBinary64? with
  | none => simp only [hx, Option.map_none, reduceCtorEq] at h
  | some x =>
    simp only [hx, Option.map_some, Except.ok.injEq] at h
    exact ⟨x, rfl, h⟩

theorem addTo_atMost {p q : Quantity} (hpq : p.AtMost q) {x y x' y' : Binary64}
    (hxy : x.AtMost y) (hx : addTo x p = .ok x') (hy : addTo y q = .ok y') : x'.AtMost y' := by
  obtain ⟨u, hu, rfl⟩ := addTo_eq_ok hx
  obtain ⟨v, hv, rfl⟩ := addTo_eq_ok hy
  exact hxy.add (hpq u v hu hv)

theorem atMost_addTo {q : Quantity} (hq : q.AtMost q) {x y z : Binary64} (hxy : x.AtMost y)
    (h : addTo y q = .ok z) : x.AtMost z := by
  obtain ⟨v, hv, rfl⟩ := addTo_eq_ok h
  exact hxy.add_right (hq v v hv hv)

/-- An argument that is no page literal leaves the surcharge as it is. -/
theorem addSurcharge_of_ne {argument : Argument}
    (h : argument.name = s.pageArgument → ∀ text, argument.value ≠ .int text)
    (total : Binary64) : s.addSurcharge total argument = .ok total := by
  unfold addSurcharge
  split
  · rename_i hname
    split
    · rename_i text hvalue
      exact absurd hvalue (h hname text)
    · rfl
  · rfl

/-- An argument is a page literal, or leaves every surcharge as it is. -/
theorem addSurcharge_cases (s : Scorer) (argument : Argument) :
    (∃ text, argument = ⟨s.pageArgument, .int text⟩) ∨
      ∀ total, s.addSurcharge total argument = .ok total := by
  by_cases hpage : ∃ text, argument = ⟨s.pageArgument, .int text⟩
  · exact .inl hpage
  · refine .inr (addSurcharge_of_ne fun hname text hvalue => ?_)
    exact hpage ⟨text, by rw [← hname, ← hvalue]⟩

theorem addSurcharge_eq_ok {text : String} {x y : Binary64}
    (h : s.addSurcharge x ⟨s.pageArgument, .int text⟩ = .ok y) :
    ∃ limit price, WholeNumber.read text = .ok limit ∧ s.pagePrice limit = .ok price ∧
      addTo x price = .ok y := by
  simp only [addSurcharge, if_true] at h
  split at h
  · cases h
  · rename_i limit hlimit
    obtain ⟨price, hprice, hy⟩ := bind_eq_ok h
    exact ⟨limit, price, hlimit, hprice, hy⟩

theorem addField_eq_ok {x z : Binary64} {name : String} {arguments : List Argument}
    (h : s.addField x name arguments = .ok z) :
    ∃ priced page, addTo x (s.table.costOf name) = .ok priced ∧
      s.surcharge arguments = .ok page ∧ priced + page = z := by
  obtain ⟨priced, hpriced, h⟩ := bind_eq_ok h
  obtain ⟨page, hpage, h⟩ := map_eq_ok h
  exact ⟨priced, page, hpriced, hpage, h⟩

/-! ### Prices of at least zero -/

/-- No field and no page has a price below zero. -/
structure ChargesUp (t : Scorer) : Prop where
  cost : ∀ name, (t.table.costOf name).AtMost (t.table.costOf name)
  page : ∀ n q, t.pagePrice n = .ok q → q.AtMost q

namespace ChargesUp

theorem atMost_addSurcharge (h : t.ChargesUp) {b : Argument} {x y z : Binary64}
    (hxy : x.AtMost y) (hz : t.addSurcharge y b = .ok z) : x.AtMost z := by
  rcases t.addSurcharge_cases b with ⟨text, rfl⟩ | hstay
  · obtain ⟨n, q, _, hq, hz⟩ := addSurcharge_eq_ok hz
    exact atMost_addTo (h.page n q hq) hxy hz
  · rw [hstay] at hz
    rwa [← Except.ok.inj hz]

theorem zero_atMost_surcharge (h : t.ChargesUp) {bs : List Argument} {y : Binary64}
    (hy : t.surcharge bs = .ok y) : Binary64.zero.AtMost y :=
  atMost_foldlM (fun _ _ _ _ => h.atMost_addSurcharge) bs _ _ _ Binary64.atMost_zero hy

theorem atMost_addField (h : t.ChargesUp) {name : String} {bs : List Argument}
    {x y z : Binary64} (hxy : x.AtMost y) (hz : t.addField y name bs = .ok z) : x.AtMost z := by
  obtain ⟨_, _, hcost, hpage, rfl⟩ := addField_eq_ok hz
  exact (atMost_addTo (h.cost name) hxy hcost).add_right (h.zero_atMost_surcharge hpage)

/-- No selection lowers a total, if no set one level deeper scores below zero. -/
theorem atMost_addPlain (h : t.ChargesUp) {inner : SelectionSet → Except Failure Binary64}
    (hinner : ∀ b y, inner b = .ok y → Binary64.zero.AtMost y) (b : Selection)
    {x y z : Binary64} (hxy : x.AtMost y) (hz : t.addPlain fragments inner y b = .ok z) :
    x.AtMost z := by
  have hnested : ∀ body y, x.AtMost y → (do return y + (← inner body)) = Except.ok z →
      x.AtMost z := by
    intro body y hxy hz
    obtain ⟨nested, hnested, rfl⟩ := map_eq_ok hz
    exact hxy.add_right (hinner body nested hnested)
  cases b with
  | field label name arguments directives body =>
    cases body with
    | none => exact h.atMost_addField hxy hz
    | some selections =>
      obtain ⟨total, htotal, hz⟩ := bind_eq_ok hz
      exact hnested _ total (h.atMost_addField hxy htotal) hz
  | inline on directives body => exact hnested body y hxy hz
  | spread name directives body =>
    cases body with
    | some selections => exact hnested _ y hxy hz
    | none =>
      simp only [addPlain] at hz
      split at hz
      · rw [← Except.ok.inj hz]
        exact hxy.add_right Binary64.atMost_zero
      · exact hnested _ y hxy hz
  | other =>
    rw [← Except.ok.inj hz]
    exact hxy

/-- No set scores below zero. -/
theorem zero_atMost_plainScore (h : t.ChargesUp) (level : Int) :
    ∀ b y, t.plainScore fragments b level = .ok y → Binary64.zero.AtMost y := by
  induction level using t.level_induction with
  | below level hlevel =>
    intro b y hy
    rw [plainScore_above hlevel] at hy
    rw [← Except.ok.inj hy]
    exact Binary64.atMost_zero
  | within level hlevel ih =>
    intro b y hy
    cases b with
    | none =>
      rw [plainScore_none] at hy
      rw [← Except.ok.inj hy]
      exact Binary64.atMost_zero
    | some selections =>
      rw [plainScore_some hlevel] at hy
      exact atMost_foldlM (fun b _ _ _ => h.atMost_addPlain ih b) selections _ _ _
        Binary64.atMost_zero hy

end ChargesUp

namespace NoDearer

theorem chargesUp (h : t.NoDearer t) : t.ChargesUp where
  cost := h.cost
  page n q hq := h.page n n q q (Int.le_refl n) hq hq

/-! ### One argument, one field -/

theorem addSurcharge_atMost (h : s.NoDearer t) {a b : Argument} {x y x' y' : Binary64}
    (hab : a.Raised b) (hxy : x.AtMost y) (hx : s.addSurcharge x a = .ok x')
    (hy : t.addSurcharge y b = .ok y') : x'.AtMost y' := by
  rcases hab.cases with ⟨rfl, hvalue⟩ | ⟨name, text, text', rfl, rfl, hread⟩
  · rw [addSurcharge_of_ne fun _ => hvalue] at hx hy
    rwa [← Except.ok.inj hx, ← Except.ok.inj hy]
  · by_cases hname : name = s.pageArgument
    · subst hname
      rw [h.pageArgument] at hy
      obtain ⟨m, p, hm, hp, hx⟩ := addSurcharge_eq_ok hx
      obtain ⟨n, q, hn, hq, hy⟩ := addSurcharge_eq_ok hy
      exact addTo_atMost (h.page m n p q (hread m n hm hn) hp hq) hxy hx hy
    · rw [addSurcharge_of_ne fun heq => absurd heq hname] at hx
      rw [addSurcharge_of_ne fun heq => absurd heq (h.pageArgument ▸ hname)] at hy
      rwa [← Except.ok.inj hx, ← Except.ok.inj hy]

theorem surcharge_atMost (h : s.NoDearer t) (ht : t.ChargesUp) {as bs : List Argument}
    {x y : Binary64} (hab : List.SublistForall₂ Argument.Raised as bs)
    (hx : s.surcharge as = .ok x) (hy : t.surcharge bs = .ok y) : x.AtMost y :=
  foldlM_atMost (r := Argument.Raised) (fun _ _ _ _ => ht.atMost_addSurcharge)
    (fun _ _ _ _ _ _ => h.addSurcharge_atMost) hab _ _ _ _ Binary64.atMost_zero hx hy

theorem addField_atMost (h : s.NoDearer t) (ht : t.ChargesUp) {name : String}
    {as bs : List Argument} {x y x' y' : Binary64}
    (hab : List.SublistForall₂ Argument.Raised as bs) (hxy : x.AtMost y)
    (hx : s.addField x name as = .ok x') (hy : t.addField y name bs = .ok y') :
    x'.AtMost y' := by
  obtain ⟨_, _, hcost, hpage, rfl⟩ := addField_eq_ok hx
  obtain ⟨_, _, hcost', hpage', rfl⟩ := addField_eq_ok hy
  exact (addTo_atMost (h.cost name) hxy hcost hcost').add (h.surcharge_atMost ht hab hpage hpage')

/-! ### One selection, one set -/

/-- A selection that has grown adds no less, if sets one level deeper score no less. -/
theorem addPlain_atMost (h : s.NoDearer t) (ht : t.ChargesUp) (hR : Growing R)
    (hfragments : FragmentsGrow R fragments fragments')
    {inner inner' : SelectionSet → Except Failure Binary64}
    (hinner : ∀ a b x y, R a b → inner a = .ok x → inner' b = .ok y → x.AtMost y)
    (hinner' : ∀ b y, inner' b = .ok y → Binary64.zero.AtMost y) {a b : Selection}
    (hab : a.Grows R b) {x y x' y' : Binary64} (hxy : x.AtMost y)
    (hx : s.addPlain fragments inner x a = .ok x')
    (hy : t.addPlain fragments' inner' y b = .ok y') : x'.AtMost y' := by
  have hnested : ∀ body body' x y, R body body' → x.AtMost y →
      (do return x + (← inner body)) = Except.ok x' →
      (do return y + (← inner' body')) = Except.ok y' → x'.AtMost y' := by
    intro body body' x y hbody hxy hx hy
    obtain ⟨u, hu, rfl⟩ := map_eq_ok hx
    obtain ⟨v, hv, rfl⟩ := map_eq_ok hy
    exact hxy.add (hinner body body' u v hbody hu hv)
  cases hab with
  | @field _ _ _ _ _ _ _ body body' harguments hbody =>
    cases body with
    | none =>
      cases body' with
      | none => exact h.addField_atMost ht harguments hxy hx hy
      | some selections =>
        obtain ⟨total, htotal, hy⟩ := bind_eq_ok hy
        obtain ⟨v, hv, rfl⟩ := map_eq_ok hy
        exact (h.addField_atMost ht harguments hxy hx htotal).add_right (hinner' _ v hv)
    | some selections =>
      cases hR _ _ hbody with
      | some _ =>
        obtain ⟨total, htotal, hx⟩ := bind_eq_ok hx
        obtain ⟨total', htotal', hy⟩ := bind_eq_ok hy
        exact hnested _ _ _ _ hbody (h.addField_atMost ht harguments hxy htotal htotal') hx hy
  | inline hbody => exact hnested _ _ x y hbody hxy hx hy
  | spread hbody => exact hnested _ _ x y hbody hxy hx hy
  | @bare name _ _ =>
    simp only [addPlain, resolve?] at hx hy
    cases hfound : fragments.bind (Fragment.find? · name) with
    | none =>
      simp only [hfound, Option.map_none] at hx
      rw [← Except.ok.inj hx]
      split at hy
      · rw [← Except.ok.inj hy]
        exact hxy.add Binary64.atMost_zero
      · obtain ⟨v, hv, rfl⟩ := map_eq_ok hy
        exact hxy.add (hinner' _ v hv)
    | some f =>
      obtain ⟨f', hfound', hset⟩ := hfragments name f hfound
      simp only [hfound, Option.map_some] at hx
      simp only [hfound', Option.map_some] at hy
      exact hnested _ _ x y hset hxy hx hy
  | other =>
    rw [← Except.ok.inj hx, ← Except.ok.inj hy]
    exact hxy

theorem plainScore_atMost (h : s.NoDearer t) (ht : t.ChargesUp) (hR : Growing R)
    (hfragments : FragmentsGrow R fragments fragments') (level : Int) :
    ∀ a b x y, R a b → s.plainScore fragments a level = .ok x →
      t.plainScore fragments' b level = .ok y → x.AtMost y := by
  -- on the levels of `t`, which looks at least as deep
  induction level using t.level_induction with
  | below level hlevel =>
    intro a b x y _ hx hy
    have hcutoff := h.cutoff
    rw [plainScore_above (by omega)] at hx
    rw [plainScore_above hlevel] at hy
    rw [← Except.ok.inj hx, ← Except.ok.inj hy]
    exact Binary64.atMost_zero
  | within level hlevel ih =>
    intro a b x y hab hx hy
    by_cases hs : (s.cutoff : Int) < level
    · rw [plainScore_above hs] at hx
      rw [← Except.ok.inj hx]
      exact ht.zero_atMost_plainScore level b y hy
    · cases hR a b hab with
      | none =>
        rw [plainScore_none] at hx
        rw [← Except.ok.inj hx]
        exact ht.zero_atMost_plainScore level b y hy
      | some hselections =>
        rw [plainScore_some (by omega)] at hx
        rw [plainScore_some hlevel] at hy
        have hnonneg : ∀ b y, t.plainScore fragments' b (level + 1) = .ok y →
            Binary64.zero.AtMost y := ht.zero_atMost_plainScore (level + 1)
        exact foldlM_atMost (r := Selection.Grows R)
          (fun b _ _ _ => ht.atMost_addPlain hnonneg b)
          (fun _ _ _ _ _ _ hgrows => h.addPlain_atMost ht hR hfragments ih hnonneg hgrows)
          hselections _ _ _ _ Binary64.atMost_zero hx hy

/-- A set that has grown scores no less. -/
theorem score_atMost (h : s.NoDearer t) (ht : t.NoDearer t) (hR : Growing R)
    (hfragments : FragmentsGrow R fragments fragments') {a b : SelectionSet} (hab : R a b)
    {level : Int} {x y : Binary64} (hx : s.score fragments a level = .ok x)
    (hy : t.score fragments' b level = .ok y) : x.AtMost y := by
  unfold score at hx hy
  rw [(s.scoreWithin_agree fragments level a [] memoSound_nil).1] at hx
  rw [(t.scoreWithin_agree fragments' level b [] memoSound_nil).1] at hy
  exact h.plainScore_atMost ht.chargesUp hR hfragments level a b x y hab hx hy

end NoDearer

end Scorer

/-! ## Outlines -/

namespace Outline

/-- The first outline is what is left of the second once selections are left out, and sets
are taken from the selections that open them. -/
inductive Embeds : Outline → Outline → Prop
  | done (b : Outline) : Embeds .done b
  | skipLeaf {a b : Outline} (h : Embeds a b) : Embeds a (.leaf b)
  | skipBranch {a b : Outline} (j : Outline) (h : Embeds a b) : Embeds a (.branch j b)
  | leaf {a b : Outline} (h : Embeds a b) : Embeds (.leaf a) (.leaf b)
  | opens {a b : Outline} (j : Outline) (h : Embeds a b) : Embeds (.leaf a) (.branch j b)
  | branch {i j a b : Outline} (hinner : Embeds i j) (h : Embeds a b) :
      Embeds (.branch i a) (.branch j b)

theorem Embeds.height_le {a b : Outline} (h : a.Embeds b) : a.height ≤ b.height := by
  induction h with
  | done b => exact Nat.zero_le _
  | skipLeaf _ ih => exact ih
  | skipBranch j _ ih => exact ih.trans (Nat.le_max_right _ _)
  | leaf _ ih => exact ih
  | opens j _ ih => exact ih.trans (Nat.le_max_right _ _)
  | branch _ _ ihi ih =>
    simp only [height]
    omega

theorem Embeds.sizeTo_le {a b : Outline} (h : a.Embeds b) (levels : Nat) :
    a.sizeTo levels ≤ b.sizeTo levels := by
  induction h generalizing levels with
  | done b => exact Nat.zero_le _
  | skipLeaf _ ih =>
    have := ih levels
    simp only [sizeTo]
    omega
  | skipBranch j _ ih =>
    have := ih levels
    cases levels <;> simp only [sizeTo] <;> omega
  | leaf _ ih =>
    have := ih levels
    simp only [sizeTo]
    omega
  | opens j _ ih =>
    have := ih levels
    cases levels <;> simp only [sizeTo] <;> omega
  | branch _ _ ihi ih =>
    have := ih levels
    cases levels with
    | zero =>
      simp only [sizeTo]
      omega
    | succ levels =>
      have := ihi levels
      simp only [sizeTo]
      omega

end Outline

namespace DepthMeter

/-- What a selection opens, it still opens once it has grown, below the same fragments. -/
theorem opened_grows (hR : Growing R) (hfragments : FragmentsGrow R fragments fragments')
    {path path' : List String} {x y : Selection} {xs : List Selection} (hxy : x.Grows R y)
    (hx : opened fragments path x = some (xs, path')) :
    ∃ ys, opened fragments' path y = some (ys, path') ∧
      List.SublistForall₂ (Selection.Grows R) xs ys := by
  have hset : ∀ {a b : SelectionSet} {p : List String}, R a b →
      a.map (·, p) = some (xs, path') →
      ∃ ys, b.map (·, p) = some (ys, path') ∧ List.SublistForall₂ (Selection.Grows R) xs ys := by
    intro a b p hab ha
    cases hR a b hab with
    | none => cases ha
    | some h =>
      cases ha
      exact ⟨_, rfl, h⟩
  cases hxy with
  | field _ hbody => exact hset hbody hx
  | inline hbody => exact hset hbody hx
  | spread hbody => exact hset hbody hx
  | @bare name _ _ =>
    rw [opened_spread] at hx ⊢
    split at hx
    · cases hx
    · rename_i hpath
      obtain ⟨set, hfound, hx⟩ := Option.map_eq_some_iff.mp hx
      obtain ⟨f, hf, hfset⟩ := Option.bind_eq_some_iff.mp hfound
      obtain ⟨f', hf', hff'⟩ := hfragments name f hf
      rw [if_neg hpath, hf', Option.bind_some]
      exact hset hff' (by rw [hfset, Option.map_some, hx])
  | other => cases hx

theorem outline_embeds (hR : Growing R) (hfragments : FragmentsGrow R fragments fragments')
    (path : List String) (ys : List Selection) :
    ∀ xs, List.SublistForall₂ (Selection.Grows R) xs ys →
      (outline fragments path xs).Embeds (outline fragments' path ys) := by
  -- on the larger set: what joined is passed over, and what was there is met in its place
  induction path, ys using outline.induct fragments' with
  | case1 path =>
    intro xs h
    cases h
    rw [outline_nil]
    exact .done _
  | case2 path y ys hy ih =>
    intro xs h
    rw [outline_cons fragments', hy]
    cases h with
    | nil =>
      rw [outline_nil]
      exact .done _
    | @cons x _ xs _ hxy h =>
      rw [outline_cons]
      cases hx : opened fragments path x with
      | none => exact .leaf (ih xs h)
      | some p =>
        obtain ⟨inner, hinner, _⟩ := opened_grows hR hfragments hxy hx
        rw [hy] at hinner
        cases hinner
    | cons_right h => exact .skipLeaf (ih xs h)
  | case3 path y ys inner path' hy ihi ih =>
    intro xs h
    rw [outline_cons fragments', hy]
    cases h with
    | nil =>
      rw [outline_nil]
      exact .done _
    | @cons x _ xs _ hxy h =>
      rw [outline_cons]
      cases hx : opened fragments path x with
      | none => exact .opens _ (ih xs h)
      | some p =>
        obtain ⟨inner', hinner, hgrows⟩ := opened_grows hR hfragments hxy hx
        rw [hy] at hinner
        cases hinner
        exact .branch (ihi _ hgrows) (ih xs h)
    | cons_right h => exact .skipBranch _ (ih xs h)

/-- The outline of a set can be found in that of the set it has grown to. -/
theorem outlineOf_embeds (hR : Growing R) (hfragments : FragmentsGrow R fragments fragments')
    {a b : SelectionSet} (hab : R a b) :
    (outlineOf fragments a).Embeds (outlineOf fragments' b) := by
  cases hR a b hab with
  | none =>
    unfold outlineOf
    rw [Option.getD_none, outline_nil]
    exact .done _
  | some h => exact outline_embeds hR hfragments [] _ _ h

end DepthMeter

end QueryAdmission
