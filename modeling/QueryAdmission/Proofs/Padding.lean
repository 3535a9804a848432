import QueryAdmission.Proofs.Growth
import QueryAdmission.Proofs.MatchingDocuments
import QueryAdmission.Proofs.Verdict

/-! # Padding a rejected document

Padding inserts selections anywhere, in operations and in fragments, turns leaf fields
into branches, adds page literals and raises them. A request that a gate rejects is
rejected after any amount of it: the score does not fall, the nesting does not get
flatter, and no selection that was counted against the budget is lost. That early
selections may now use up the budget, and that fragments may have become cyclic, makes no
difference. -/

namespace QueryAdmission

/-- One step of padding on a selection; sets nested in it are padded by `P`. -/
inductive Selection.Padded (P : List Selection → List Selection → Prop) :
    Selection → Selection → Prop
  | leaf {label : Option String} {name : String} {arguments : List Argument}
      {directives : List Directive} (set : List Selection) :
      Padded P (.field label name arguments directives none)
        (.field label name arguments directives (some set))
  | addLimit {label : Option String} {name : String} {directives : List Directive}
      {body : SelectionSet} (before after : List Argument) (text : String) :
      Padded P (.field label name (before ++ after) directives body)
        (.field label name (before ++ ⟨Scorer.standardPageArgument, .int text⟩ :: after)
          directives body)
  | raiseLimit {label : Option String} {name : String} {directives : List Directive}
      {body : SelectionSet} (before after : List Argument) {text text' : String} {m n : Int}
      (hm : WholeNumber.value? text = some m) (hn : WholeNumber.value? text' = some n)
      (hmn : m ≤ n) :
      Padded P
        (.field label name (before ++ ⟨Scorer.standardPageArgument, .int text⟩ :: after)
          directives body)
        (.field label name (before ++ ⟨Scorer.standardPageArgument, .int text'⟩ :: after)
          directives body)
  | field {label : Option String} {name : String} {arguments : List Argument}
      {directives : List Directive} {a b : List Selection} (h : P a b) :
      Padded P (.field label name arguments directives (some a))
        (.field label name arguments directives (some b))
  | inline {on : Option String} {directives : List Directive} {a b : List Selection}
      (h : P a b) : Padded P (.inline on directives (some a)) (.inline on directives (some b))
  | spread {name : String} {directives : List Directive} {a b : List Selection} (h : P a b) :
      Padded P (.spread name directives (some a)) (.spread name directives (some b))

/-- One step of padding on a selection set: a selection is inserted, or one of those that are
there is padded, at any depth. -/
inductive SelectionsPadded : List Selection → List Selection → Prop
  | insert (before after : List Selection) (selection : Selection) :
      SelectionsPadded (before ++ after) (before ++ selection :: after)
  | change (before after : List Selection) {x y : Selection} (h : x.Padded SelectionsPadded y) :
      SelectionsPadded (before ++ x :: after) (before ++ y :: after)

/-- One step of padding on a document: the set of an operation or of a fragment is padded. -/
inductive Document.Padded : Document → Document → Prop
  | operation (before after : List Definition) (o : Operation) {a b : List Selection}
      (ha : o.selections = some a) (h : SelectionsPadded a b) :
      Padded ⟨before ++ .operation o :: after⟩
        ⟨before ++ .operation { o with selections := some b } :: after⟩
  | fragment (before after : List Definition) (f : Fragment) {a b : List Selection}
      (ha : f.selections = some a) (h : SelectionsPadded a b) :
      Padded ⟨before ++ .fragment f :: after⟩
        ⟨before ++ .fragment { f with selections := some b } :: after⟩

/-! ## Padding is growth -/

/-- One step of padding on a set, where that of a leaf is none. -/
inductive SetPadded : SelectionSet → SelectionSet → Prop
  | leaf (set : List Selection) : SetPadded none (some set)
  | within {a b : List Selection} (h : SelectionsPadded a b) : SetPadded (some a) (some b)

/-- Any number of steps of padding on a set. -/
abbrev SetPaddedTo : SelectionSet → SelectionSet → Prop := Relation.ReflTransGen SetPadded

theorem forall₂_change {α : Type} {r : α → α → Prop} [Std.Refl r] (before after : List α)
    {x y : α} (hxy : r x y) : List.Forall₂ r (before ++ x :: after) (before ++ y :: after) :=
  List.rel_append (List.forall₂_refl before) (.cons hxy (List.forall₂_refl after))

theorem sublistForall₂_change {α : Type} {r : α → α → Prop} [Std.Refl r] (before after : List α)
    {x y : α} (hxy : r x y) :
    List.SublistForall₂ r (before ++ x :: after) (before ++ y :: after) :=
  List.sublistForall₂_iff.mpr ⟨_, forall₂_change before after hxy, .refl _⟩

theorem sublistForall₂_insert {α : Type} {r : α → α → Prop} [Std.Refl r] (before after : List α)
    (x : α) : List.SublistForall₂ r (before ++ after) (before ++ x :: after) :=
  ((List.sublist_cons_self x after).append_left before).sublistForall₂

theorem Selection.Padded.grows {x y : Selection} (h : x.Padded SelectionsPadded y) :
    x.Grows SetPaddedTo y := by
  cases h with
  | leaf set => exact .field (Std.Refl.refl _) (.single (.leaf set))
  | addLimit before after text => exact .field (sublistForall₂_insert before after _) .refl
  | raiseLimit before after hm hn hmn =>
    exact .field (sublistForall₂_change before after (.literal hm hn hmn)) .refl
  | field h => exact .field (Std.Refl.refl _) (.single (.within h))
  | inline h => exact .inline (.single (.within h))
  | spread h => exact .spread (.single (.within h))

theorem SetPadded.grows {a b : SelectionSet} (h : SetPadded a b) : SetGrows SetPaddedTo a b := by
  have : Std.Refl (Selection.Grows SetPaddedTo) := ⟨Selection.Grows.refl fun _ => .refl⟩
  cases h with
  | leaf set => exact .none _
  | within h =>
    cases h with
    | insert before after selection => exact .some (sublistForall₂_insert before after selection)
    | change before after h => exact .some (sublistForall₂_change before after h.grows)

theorem growing_setPaddedTo : Growing SetPaddedTo :=
  growing_reflTransGen fun _ _ => SetPadded.grows

/-- However much a document is padded, its definitions match one by one, and their sets are
padded. -/
theorem Document.matches_of_padded {d d' : Document}
    (h : Relation.ReflTransGen Document.Padded d d') : d.Matches SetPaddedTo d' := by
  have : Std.Refl (Definition.Matches SetPaddedTo) := ⟨Definition.matches_refl fun _ => .refl⟩
  induction h with
  | refl => exact Document.matches_refl (fun _ => .refl) d
  | tail _ hstep ih =>
    refine ih.trans (fun _ _ _ => .trans) ?_
    cases hstep with
    | operation before after o ha h =>
      exact forall₂_change before after (.operation rfl rfl (ha ▸ .single (.within h)))
    | fragment before after f ha h =>
      exact forall₂_change before after (.fragment rfl (ha ▸ .single (.within h)))

theorem FragmentsMatch.grow {R : SelectionSet → SelectionSet → Prop}
    {fragments fragments' : Option (List Fragment)} (h : FragmentsMatch R fragments fragments') :
    FragmentsGrow R fragments fragments' := by
  intro name f hf
  have hname := h name
  rw [hf] at hname
  generalize fragments'.bind (Fragment.find? · name) = found at hname ⊢
  cases hname with
  | some hset => exact ⟨_, rfl, hset⟩

/-! ## Verdicts -/

namespace Gate

variable {gate : Gate} {limit : Nat}

/-- What is rejected stays rejected at a higher score and with a larger outline. -/
theorem verdict_mono {x y : Binary64} (hxy : x.AtMost y) {o o' : Outline} (ho : o.Embeds o')
    (h : gate.verdict limit y o' = .allowed) : gate.verdict limit x o = .allowed := by
  obtain ⟨hcomplex, hheight, hsize⟩ := verdict_eq_allowed.mp h
  refine verdict_eq_allowed.mpr ⟨?_, ho.height_le.trans hheight, (ho.sizeTo_le limit).trans hsize⟩
  rw [Bool.eq_false_iff]
  intro hlt
  rw [Quantity.lt_of_lt_of_le hlt hxy.le] at hcomplex
  cases hcomplex

/-- Padding gets nothing admitted. -/
theorem rejected_of_padded {settings : Settings} (hgate : settings.gate = .ok gate)
    (hnan : ∀ entry ∈ settings.fieldCosts, entry.2 ≠ .nan) {d d' : Document}
    (hpadded : Relation.ReflTransGen Document.Padded d d') {name : Option String}
    {e e' : Evaluation} {logs logs' : List LogRecord}
    (heval : gate.evaluate (some d) name = .ok (e, logs)) (hrejected : e.decision.isAllowed = false)
    (heval' : gate.evaluate (some d') name = .ok (e', logs')) :
    e'.decision.isAllowed = false := by
  have hmatches := Document.matches_of_padded hpadded
  have hlimited := (Built.ofSettings hgate rfl).limited
  obtain ⟨hscorer, _⟩ := Settings.gate_eq_ok hgate
  have hprices := Settings.noDearer_self hscorer hnan
  have hfragments := (gate.bound_match hmatches).grow
  have htarget := hmatches.target? name
  rcases evaluate_eq_ok hlimited heval with ⟨_, rfl⟩ | ⟨o, x, ho, hx, rfl⟩
  · cases hrejected
  rcases evaluate_eq_ok hlimited heval' with ⟨ho', rfl⟩ | ⟨o', y, ho', hy, rfl⟩
  · rw [ho, ho'] at htarget
    cases htarget
  rw [ho, ho'] at htarget
  cases htarget with
  | some hoo' =>
    obtain ⟨_, _, hset⟩ := hoo'
    have hscore := hprices.score_atMost hprices growing_setPaddedTo hfragments hset hx hy
    have houtline : (gate.outlineOf d o).Embeds (gate.outlineOf d' o') :=
      DepthMeter.outlineOf_embeds growing_setPaddedTo hfragments hset
    cases hdecision : gate.verdict settings.maxDepth y (gate.outlineOf d' o') with
    | rejected r' => rfl
    | allowed =>
      rw [verdict_mono hscore houtline hdecision] at hrejected
      cases hrejected

end Gate

/-! ### A rejected document that is padded into a cycle -/

/-- Settings that allow a complexity of two. -/
def strictSettings : Settings where
  host := "127.0.0.1"
  port := 8000
  debug := false
  enableGraphiql := false
  maxComplexity := ⟨.ofInt 2, by decide +kernel⟩
  maxDepth := 3
  complexityCutoff := 3
  defaultFieldCost := ⟨.ofInt 1, by decide +kernel⟩
  fieldCosts := [("owner", .infinite false)]
  resolveFragments := true
  depthNodeBudget := 9
  publicQueries := []
  noStoreOnRejection := true
  logLevel := "INFO"
  logEvaluations := false
  budget_pos := by decide
  cutoff_le := by decide

/-- A query of the given selections, and a fragment of the given selections. -/
def queryWith (query fragment : List Selection) : Document :=
  ⟨[.operation ⟨.query, none, [], [], some query⟩, .fragment ⟨"rest", "Query", [], some fragment⟩]⟩

def leafOf (name : String) : Selection := .field none name [] [] none

def threeFields : Document :=
  queryWith [leafOf "me", leafOf "users", leafOf "lists"] [leafOf "me"]

def threeFieldsInCycle : Document :=
  queryWith [leafOf "me", .spread "rest" [] none, leafOf "users", leafOf "lists"]
    [leafOf "me", .spread "rest" [] none]

theorem Decision.isAllowed_iff {decision : Decision} :
    decision.isAllowed = true ↔ decision = .allowed := by
  cases decision <;> simp [isAllowed]

theorem Decision.isAllowed_eq_false_iff {decision : Decision} :
    decision.isAllowed = false ↔ ∃ rejection, decision = .rejected rejection := by
  cases decision <;> simp [isAllowed]

theorem Settings.exists_evaluation {settings : Settings} {gate : Gate}
    (hgate : settings.gate = .ok gate) {document : Option Document} {name : Option String}
    {allowed : Bool}
    (h : (settings.gate.toOption.bind fun gate => (gate.evaluate document name).toOption).map
      (·.1.decision.isAllowed) = some allowed) :
    ∃ e logs, gate.evaluate document name = .ok (e, logs) ∧ e.decision.isAllowed = allowed := by
  rw [hgate] at h
  obtain ⟨⟨e, logs⟩, heval, hallowed⟩ := Option.map_eq_some_iff.mp h
  exact ⟨e, logs, eq_ok_of_toOption heval, hallowed⟩

/-- Three fields are too many for the settings; they still are once the query and the fragment
spread the fragment, which makes it cyclic. -/
theorem rejected_of_padded_cyclic :
    ∃ gate e e' logs logs', strictSettings.gate = .ok gate ∧
      gate.evaluate (some threeFields) none = .ok (e, logs) ∧ e.decision.isAllowed = false ∧
      gate.evaluate (some threeFieldsInCycle) none = .ok (e', logs') ∧
      e'.decision.isAllowed = false := by
  have hbefore : (strictSettings.gate.toOption.bind fun gate =>
      (gate.evaluate (some threeFields) none).toOption).map (·.1.decision.isAllowed) =
        some false := by decide +kernel
  have hafter : (strictSettings.gate.toOption.bind fun gate =>
      (gate.evaluate (some threeFieldsInCycle) none).toOption).map (·.1.decision.isAllowed) =
        some false := by decide +kernel
  have hnan : ∀ entry ∈ strictSettings.fieldCosts, entry.2 ≠ .nan := by decide
  have hpadded : Relation.ReflTransGen Document.Padded threeFields threeFieldsInCycle :=
    .tail (.single (.operation [] _ _ rfl (.insert [leafOf "me"] _ (.spread "rest" [] none))))
      (.fragment [_] [] _ rfl (.insert [leafOf "me"] [] (.spread "rest" [] none)))
  cases hgate : strictSettings.gate with
  | error failure =>
    rw [hgate] at hbefore
    cases hbefore
  | ok gate =>
    obtain ⟨e, logs, heval, hrejected⟩ := Settings.exists_evaluation hgate hbefore
    obtain ⟨e', logs', heval', _⟩ := Settings.exists_evaluation hgate hafter
    exact ⟨gate, e, e', logs, logs', rfl, heval, hrejected, heval',
      Gate.rejected_of_padded hgate hnan hpadded heval hrejected heval'⟩

end QueryAdmission
