import QueryAdmission.Proofs.IntegerSpelling
import QueryAdmission.Syntax.Grammar

/-! # Whole numbers in parsed documents

Every rule of the grammar leaves a rest of the words it was given, and what it makes of them
holds no other literals than they do. So the whole numbers that fields have as arguments
in a parsed document are written plainly, however deep the fields stand. -/

namespace QueryAdmission

/-- Under the argument, if it is a whole number, stands one that is written plainly. -/
def Argument.IsPlain (argument : Argument) : Prop :=
  ∀ text, argument.value = .int text → WholeNumber.IsPlain text

/-- A field with the argument stands in the set, or in a set nested in it. -/
inductive HasArgument (argument : Argument) : List Selection → Prop
  | here {label : Option String} {name : String} {arguments : List Argument}
      {directives : List Directive} {body : SelectionSet} {selections : List Selection}
      (hmem : .field label name arguments directives body ∈ selections)
      (hargument : argument ∈ arguments) : HasArgument argument selections
  | inside {selection : Selection} {selections inner : List Selection}
      (hmem : selection ∈ selections) (hbody : selection.body = some inner)
      (h : HasArgument argument inner) : HasArgument argument selections

/-- All arguments of fields in the set and below it are plain. -/
def PlainSet (selections : List Selection) : Prop :=
  ∀ argument, HasArgument argument selections → argument.IsPlain

/-- The arguments of a selection and of the fields below it are plain. -/
structure Selection.IsPlain (selection : Selection) : Prop where
  arguments : ∀ label name arguments directives body,
    selection = .field label name arguments directives body →
      ∀ argument ∈ arguments, argument.IsPlain
  body : ∀ inner, selection.body = some inner → PlainSet inner

theorem plainSet_of_forall {selections : List Selection}
    (h : ∀ selection ∈ selections, selection.IsPlain) : PlainSet selections := by
  intro argument hargument
  cases hargument with
  | here hmem hargument => exact (h _ hmem).arguments _ _ _ _ _ rfl argument hargument
  | inside hmem hbody hinner => exact (h _ hmem).body _ hbody argument hinner

/-- The set of a definition, if it has one, is plain. -/
structure Definition.PlainLiterals (definition : Definition) : Prop where
  operation : ∀ o, definition = .operation o → ∀ selections, o.selections = some selections →
    PlainSet selections
  fragment : ∀ f, definition = .fragment f → ∀ selections, f.selections = some selections →
    PlainSet selections

/-- Every whole number that a field has as an argument is written as the grammar has it: a minus
or nothing, and then digits. -/
def Document.PlainLiterals (document : Document) : Prop :=
  ∀ d ∈ document.definitions, d.PlainLiterals

/-- The literals of a definition are plain, and the name of an operation, if it has one, is not
empty. -/
structure Definition.IsPlain (definition : Definition) : Prop extends
    Definition.PlainLiterals definition where
  name : ∀ o, definition = .operation o → o.name ≠ some ""

namespace Grammar

open Token (Plain)

variable {α β : Type}

/-- From plain words, a rule makes what satisfies `P`, and leaves plain words. -/
def Keeps (rule : Rule α) (P : α → Prop) : Prop :=
  ∀ words a rest, Plain words → rule words = some (a, rest) → P a ∧ Plain rest

/-- A rule that leaves plain words. -/
abbrev KeepsWords (rule : Rule α) : Prop := Keeps rule fun _ => True

/-- The first step of a sequence of rules. -/
theorem Keeps.step {rule : Rule α} {P : α → Prop} (hrule : Keeps rule P) {words : List Token}
    (hw : Plain words) {f : α × List Token → Option β} {b : β}
    (h : (rule words).bind f = some b) : ∃ a rest, P a ∧ Plain rest ∧ f (a, rest) = some b := by
  obtain ⟨⟨a, rest⟩, ha, h⟩ := Option.bind_eq_some_iff.mp h
  obtain ⟨hP, hrest⟩ := hrule words a rest hw ha
  exact ⟨a, rest, hP, hrest, h⟩

theorem plain_tail {words : List Token} (h : Plain words) : Plain words.tail :=
  fun word hmem => h word (List.mem_of_mem_tail hmem)

theorem plain_rest {word : Token} {words : List Token} (h : Plain (word :: words)) : Plain words :=
  fun other hmem => h other (List.mem_cons_of_mem word hmem)

/-! ## Words and sequences -/

theorem token_keeps (t : Token) : KeepsWords (token t) := by
  intro words a rest hw h
  cases words with
  | nil => cases h
  | cons u words =>
    simp only [token] at h
    split at h
    · obtain ⟨_, rfl⟩ := Prod.mk.inj (Option.some.inj h)
      exact ⟨trivial, plain_rest hw⟩
    · cases h

theorem punctuator_keeps (c : Char) : KeepsWords (punctuator c) := token_keeps _

theorem keyword_keeps (text : String) : KeepsWords (keyword text) := token_keeps _

theorem plain_dropIf (t : Token) {words : List Token} (h : Plain words) :
    Plain (dropIf t words).2 := by
  cases words with
  | nil => exact h
  | cons u words =>
    simp only [dropIf]
    split
    · exact plain_rest h
    · exact h

theorem name_keeps : KeepsWords name := by
  intro words a rest hw h
  unfold name at h
  split at h
  · obtain ⟨_, rfl⟩ := Prod.mk.inj (Option.some.inj h)
    exact ⟨trivial, plain_rest hw⟩
  · cases h

theorem itemsUntil_keeps (close : Char) {item : Rule α} {P : α → Prop} (hitem : Keeps item P)
    (fuel : Nat) {done : List α} (hdone : ∀ a ∈ done, P a) :
    Keeps (itemsUntil close item fuel done) fun items => ∀ a ∈ items, P a := by
  induction fuel generalizing done with
  | zero =>
    intro words items rest hw h
    cases h
  | succ fuel ih =>
    intro words items rest hw h
    unfold itemsUntil at h
    split at h
    · obtain ⟨rfl, rfl⟩ := Prod.mk.inj (Option.some.inj h)
      exact ⟨fun a ha => hdone a (List.mem_reverse.mp ha), plain_tail hw⟩
    · obtain ⟨a, words, ha, hw, h⟩ := hitem.step hw h
      refine ih ?_ words items rest hw h
      intro b hb
      rcases List.mem_cons.mp hb with rfl | hb
      · exact ha
      · exact hdone b hb

theorem many_keeps (opening close : Char) {item : Rule α} {P : α → Prop} (hitem : Keeps item P) :
    Keeps (many opening close item) fun items => ∀ a ∈ items, P a := by
  intro words items rest hw h
  obtain ⟨_, words, _, hw, h⟩ := (punctuator_keeps opening).step hw h
  exact itemsUntil_keeps close hitem _ (List.forall_mem_nil _) _ _ _ hw h

theorem some1_keeps (opening close : Char) {item : Rule α} {P : α → Prop} (hitem : Keeps item P) :
    Keeps (some1 opening close item) fun items => ∀ a ∈ items, P a := by
  intro words items rest hw h
  obtain ⟨_, words, _, hw, h⟩ := (punctuator_keeps opening).step hw h
  obtain ⟨found, words, hfound, hw, h⟩ :=
    (itemsUntil_keeps close hitem _ (List.forall_mem_nil _)).step hw h
  simp only at h
  split at h
  · cases h
  · obtain ⟨rfl, rfl⟩ := Prod.mk.inj (Option.some.inj h)
    exact ⟨hfound, hw⟩

theorem optional_keeps (opening close : Char) {item : Rule α} {P : α → Prop}
    (hitem : Keeps item P) : Keeps (optional opening close item) fun items => ∀ a ∈ items, P a := by
  intro words items rest hw h
  unfold optional at h
  split at h
  · exact some1_keeps opening close hitem words items rest hw h
  · obtain ⟨rfl, rfl⟩ := Prod.mk.inj (Option.some.inj h)
    exact ⟨List.forall_mem_nil _, hw⟩

theorem separated_keeps (separator : Char) {item : Rule α} (hitem : KeepsWords item) :
    KeepsWords (separated separator item) := by
  have hmore : ∀ fuel done, KeepsWords (separated.more separator item fuel done) := by
    intro fuel
    induction fuel with
    | zero =>
      intro done words items rest hw h
      cases h
    | succ fuel ih =>
      intro done words items rest hw h
      unfold separated.more at h
      obtain ⟨a, words, _, hw, h⟩ := hitem.step hw h
      simp only at h
      split at h
      · exact ih _ _ _ _ (plain_tail hw) h
      · obtain ⟨_, rfl⟩ := Prod.mk.inj (Option.some.inj h)
        exact ⟨trivial, hw⟩
  intro words items rest hw h
  exact hmore _ _ _ _ _ (plain_dropIf _ hw) h

/-! ## Values and arguments -/

theorem simpleValue_keeps (constant : Bool) :
    Keeps (simpleValue constant) fun v => ∀ text, v = .int text → WholeNumber.IsPlain text := by
  intro words v rest hw h
  have hother : ∀ {word : Token} {words : List Token} {u : Value}, Plain (word :: words) →
      (∀ text, u = .int text → WholeNumber.IsPlain text) → some (u, words) = some (v, rest) →
      (∀ text, v = .int text → WholeNumber.IsPlain text) ∧ Plain rest := by
    intro word words u hw hu h
    obtain ⟨rfl, rfl⟩ := Prod.mk.inj (Option.some.inj h)
    exact ⟨hu, plain_rest hw⟩
  unfold simpleValue at h
  split at h
  · refine hother hw ?_ h
    intro text he
    obtain rfl := Value.int.inj he
    exact hw (.int _) List.mem_cons_self
  · exact hother hw (fun _ he => by cases he) h
  · exact hother hw (fun _ he => by cases he) h
  · exact hother hw (fun _ he => by cases he) h
  · exact hother hw (fun _ he => by cases he) h
  · exact hother hw (fun _ he => by cases he) h
  · exact hother hw (fun _ he => by cases he) h
  · split at h
    · cases h
    · obtain ⟨⟨n, words⟩, hname, h⟩ := Option.map_eq_some_iff.mp h
      obtain ⟨rfl, rfl⟩ := Prod.mk.inj h
      refine ⟨?_, (name_keeps _ _ _ (plain_rest hw) hname).2⟩
      rintro text ⟨⟩
  · cases h

theorem value_keeps (constant : Bool) (levels : Nat) :
    Keeps (value constant levels) fun v => ∀ text, v = .int text → WholeNumber.IsPlain text := by
  induction levels with
  | zero => exact simpleValue_keeps constant
  | succ levels ih =>
    intro words v rest hw h
    unfold value at h
    split at h
    · obtain ⟨items, words, _, hw, h⟩ := (many_keeps _ _ ih).step hw h
      obtain ⟨rfl, rfl⟩ := Prod.mk.inj (Option.some.inj h)
      refine ⟨?_, hw⟩
      rintro text ⟨⟩
    · split at h
      · have hmember : KeepsWords fun words => (name words).bind fun n =>
            (punctuator ':' n.2).bind fun colon =>
              (value constant levels colon.2).bind fun v => some ((n.1, v.1), v.2) := by
          intro words v rest hw h
          obtain ⟨_, words, _, hw, h⟩ := name_keeps.step hw h
          obtain ⟨_, words, _, hw, h⟩ := (punctuator_keeps ':').step hw h
          obtain ⟨_, words, _, hw, h⟩ := ih.step hw h
          obtain ⟨_, rfl⟩ := Prod.mk.inj (Option.some.inj h)
          exact ⟨trivial, hw⟩
        obtain ⟨fields, words, _, hw, h⟩ := (many_keeps _ _ hmember).step hw h
        obtain ⟨rfl, rfl⟩ := Prod.mk.inj (Option.some.inj h)
        refine ⟨?_, hw⟩
        rintro text ⟨⟩
      · exact simpleValue_keeps constant words v rest hw h

theorem argument_keeps (constant : Bool) (levels : Nat) :
    Keeps (argument constant levels) Argument.IsPlain := by
  intro words a rest hw h
  obtain ⟨_, words, _, hw, h⟩ := name_keeps.step hw h
  obtain ⟨_, words, _, hw, h⟩ := (punctuator_keeps ':').step hw h
  obtain ⟨v, words, hv, hw, h⟩ := (value_keeps constant levels).step hw h
  obtain ⟨rfl, rfl⟩ := Prod.mk.inj (Option.some.inj h)
  exact ⟨hv, hw⟩

theorem arguments_keeps (constant : Bool) (levels : Nat) :
    Keeps (arguments constant levels) fun arguments => ∀ a ∈ arguments, a.IsPlain :=
  optional_keeps _ _ (argument_keeps constant levels)

theorem directives_keeps (constant : Bool) (levels : Nat) :
    KeepsWords (directives constant levels) := by
  have hmore : ∀ fuel done, KeepsWords (directives.more constant levels fuel done) := by
    intro fuel
    induction fuel with
    | zero =>
      intro done words ds rest hw h
      cases h
    | succ fuel ih =>
      intro done words ds rest hw h
      unfold directives.more at h
      split at h
      · obtain ⟨_, words, _, hw, h⟩ := name_keeps.step (plain_tail hw) h
        obtain ⟨_, words, _, hw, h⟩ := (arguments_keeps constant levels).step hw h
        exact ih _ _ _ _ hw h
      · obtain ⟨_, rfl⟩ := Prod.mk.inj (Option.some.inj h)
        exact ⟨trivial, hw⟩
  intro words ds rest hw h
  exact hmore _ _ _ _ _ hw h

/-! ## Selections -/

/-- A selection that is no field is plain with its set. -/
theorem isPlain_of_body {selection : Selection}
    (hfield : ∀ label name arguments directives body,
      selection ≠ .field label name arguments directives body)
    (hbody : ∀ inner, selection.body = some inner → PlainSet inner) : selection.IsPlain where
  arguments label name arguments directives body h :=
    absurd h (hfield label name arguments directives body)
  body := hbody

theorem isPlain_field {label : Option String} {name : String} {arguments : List Argument}
    {directives : List Directive} {body : SelectionSet} (harguments : ∀ a ∈ arguments, a.IsPlain)
    (hbody : ∀ inner, body = some inner → PlainSet inner) :
    (Selection.field label name arguments directives body).IsPlain where
  arguments := by
    rintro _ _ _ _ _ ⟨⟩
    exact harguments
  body := hbody

/-- What follows the name of a field: arguments, directives, and a set or none. -/
theorem fieldRest_keeps (levels : Nat) {set : Rule (List Selection)} (hset : Keeps set PlainSet)
    (label : Option String) (n : String) :
    Keeps (fun words => do
      let (args, rest) ← arguments false levels words
      let (ds, rest) ← directives false levels rest
      if opens '\x7b' rest then do
        let (selections, rest) ← set rest
        return (.field label n args ds (some selections), rest)
      else return (.field label n args ds none, rest)) Selection.IsPlain := by
  intro words selection rest hw h
  obtain ⟨args, words, hargs, hw, h⟩ := (arguments_keeps false levels).step hw h
  obtain ⟨_, words, _, hw, h⟩ := (directives_keeps false levels).step hw h
  simp only at h
  split at h
  · obtain ⟨selections, words, hselections, hw, h⟩ := hset.step hw h
    obtain ⟨rfl, rfl⟩ := Prod.mk.inj (Option.some.inj h)
    refine ⟨isPlain_field hargs ?_, hw⟩
    rintro _ ⟨⟩
    exact hselections
  · obtain ⟨rfl, rfl⟩ := Prod.mk.inj (Option.some.inj h)
    exact ⟨isPlain_field hargs nofun, hw⟩

theorem selectionWith_keeps (levels : Nat) {set : Rule (List Selection)}
    (hset : Keeps set PlainSet) : Keeps (selectionWith levels set) Selection.IsPlain := by
  intro words selection rest hw h
  unfold selectionWith at h
  split at h
  · have hw := plain_tail hw
    generalize words.tail = words at hw h
    split at h
    · obtain ⟨_, words, _, hw, h⟩ := name_keeps.step (plain_rest hw) h
      obtain ⟨_, words, _, hw, h⟩ := (directives_keeps false levels).step hw h
      obtain ⟨selections, words, hselections, hw, h⟩ := hset.step hw h
      obtain ⟨rfl, rfl⟩ := Prod.mk.inj (Option.some.inj h)
      refine ⟨isPlain_of_body nofun ?_, hw⟩
      rintro _ ⟨⟩
      exact hselections
    · obtain ⟨_, words, _, hw, h⟩ := (directives_keeps false levels).step (plain_rest hw) h
      obtain ⟨rfl, rfl⟩ := Prod.mk.inj (Option.some.inj h)
      exact ⟨isPlain_of_body nofun nofun, hw⟩
    · obtain ⟨_, words, _, hw, h⟩ := (directives_keeps false levels).step hw h
      obtain ⟨selections, words, hselections, hw, h⟩ := hset.step hw h
      obtain ⟨rfl, rfl⟩ := Prod.mk.inj (Option.some.inj h)
      refine ⟨isPlain_of_body nofun ?_, hw⟩
      rintro _ ⟨⟩
      exact hselections
  · obtain ⟨first, words, _, hw, h⟩ := name_keeps.step hw h
    simp only at h
    split at h
    · -- the first name is a label, and the name of the field follows it
      obtain ⟨⟨label, n, words⟩, hlabel, h⟩ := Option.bind_eq_some_iff.mp h
      obtain ⟨⟨_, _⟩, hname, he⟩ := Option.map_eq_some_iff.mp hlabel
      obtain ⟨_, he⟩ := Prod.mk.inj he
      obtain ⟨_, rfl⟩ := Prod.mk.inj he
      have hw := (name_keeps _ _ _ (plain_tail hw) hname).2
      exact fieldRest_keeps levels hset label n _ selection rest hw h
    · exact fieldRest_keeps levels hset none first words selection rest hw h

theorem selectionSet_keeps (levels : Nat) : Keeps (selectionSet levels) PlainSet := by
  induction levels with
  | zero =>
    intro words selections rest hw h
    cases h
  | succ levels ih =>
    intro words selections rest hw h
    obtain ⟨hall, hrest⟩ :=
      some1_keeps '\x7b' '\x7d' (selectionWith_keeps levels ih) words selections rest hw h
    exact ⟨plainSet_of_forall hall, hrest⟩

/-! ## Types and variables -/

theorem plain_marked (type : TypeRef) {words : List Token} (h : Plain words) :
    Plain (marked type words).2 := by
  unfold marked
  split
  · exact plain_tail h
  · exact h

theorem namedType_keeps : KeepsWords namedType := by
  intro words type rest hw h
  obtain ⟨n, words, _, hw, h⟩ := name_keeps.step hw h
  have hmarked := plain_marked (.named n) hw
  rw [Option.some.inj h] at hmarked
  exact ⟨trivial, hmarked⟩

theorem typeRef_keeps (levels : Nat) : KeepsWords (typeRef levels) := by
  induction levels with
  | zero => exact namedType_keeps
  | succ levels ih =>
    intro words type rest hw h
    unfold typeRef at h
    split at h
    · obtain ⟨item, words, _, hw, h⟩ := ih.step (plain_tail hw) h
      obtain ⟨_, words, _, hw, h⟩ := (punctuator_keeps ']').step hw h
      have hmarked := plain_marked (.list item) hw
      rw [Option.some.inj h] at hmarked
      exact ⟨trivial, hmarked⟩
    · exact namedType_keeps words type rest hw h

theorem plain_dropDescription {words : List Token} (h : Plain words) :
    Plain (dropDescription words) := by
  unfold dropDescription
  split
  · exact plain_rest h
  · exact h

theorem variableDefinition_keeps : KeepsWords variableDefinition := by
  intro words v rest hw h
  obtain ⟨_, words, _, hw, h⟩ := (punctuator_keeps '$').step (plain_dropDescription hw) h
  obtain ⟨_, words, _, hw, h⟩ := name_keeps.step hw h
  obtain ⟨_, words, _, hw, h⟩ := (punctuator_keeps ':').step hw h
  obtain ⟨_, words, _, hw, h⟩ := (typeRef_keeps nestingLimit).step hw h
  simp only at h
  split at h
  · obtain ⟨⟨_, words⟩, hdefault, h⟩ := Option.bind_eq_some_iff.mp h
    obtain ⟨⟨_, _⟩, hvalue, he⟩ := Option.map_eq_some_iff.mp hdefault
    obtain ⟨_, rfl⟩ := Prod.mk.inj he
    have hw := (value_keeps true nestingLimit _ _ _ (plain_tail hw) hvalue).2
    obtain ⟨_, words, _, hw, h⟩ := (directives_keeps true nestingLimit).step hw h
    obtain ⟨_, rfl⟩ := Prod.mk.inj (Option.some.inj h)
    exact ⟨trivial, hw⟩
  · obtain ⟨_, words, _, hw, h⟩ := (directives_keeps true nestingLimit).step hw h
    obtain ⟨_, rfl⟩ := Prod.mk.inj (Option.some.inj h)
    exact ⟨trivial, hw⟩

/-! ## Definitions that requests use -/

/-- An operation is plain with its set and its name. -/
theorem isPlain_operation {o : Operation}
    (h : ∀ selections, o.selections = some selections → PlainSet selections)
    (hname : o.name ≠ some "") : (Definition.operation o).IsPlain := by
  refine ⟨⟨?_, nofun⟩, ?_⟩
  · rintro _ ⟨⟩
    exact h
  · rintro _ ⟨⟩
    exact hname

theorem operation_keeps (type : OperationType) : Keeps (operation type) Definition.IsPlain := by
  intro words definition rest hw h
  unfold operation at h
  split at h
  rename_i n words hname
  obtain ⟨hne, hw⟩ : n ≠ some "" ∧ Plain words := by
    split at hname
    · obtain ⟨rfl, rfl⟩ := Prod.mk.inj hname
      refine ⟨?_, plain_rest hw⟩
      intro he
      exact hw _ List.mem_cons_self (Option.some.inj he)
    · obtain ⟨rfl, rfl⟩ := Prod.mk.inj hname
      exact ⟨nofun, hw⟩
  obtain ⟨_, words, _, hw, h⟩ := (optional_keeps '(' ')' variableDefinition_keeps).step hw h
  obtain ⟨_, words, _, hw, h⟩ := (directives_keeps false nestingLimit).step hw h
  obtain ⟨selections, words, hselections, hw, h⟩ := (selectionSet_keeps nestingLimit).step hw h
  obtain ⟨rfl, rfl⟩ := Prod.mk.inj (Option.some.inj h)
  refine ⟨isPlain_operation ?_ hne, hw⟩
  rintro _ ⟨⟩
  exact hselections

theorem fragmentName_keeps : KeepsWords fragmentName := by
  intro words n rest hw h
  unfold fragmentName at h
  split at h
  · cases h
  · exact name_keeps words n rest hw h

theorem fragment_keeps : Keeps fragment Definition.IsPlain := by
  intro words definition rest hw h
  obtain ⟨_, words, _, hw, h⟩ := fragmentName_keeps.step hw h
  obtain ⟨_, words, _, hw, h⟩ := (keyword_keeps "on").step hw h
  obtain ⟨_, words, _, hw, h⟩ := name_keeps.step hw h
  obtain ⟨_, words, _, hw, h⟩ := (directives_keeps false nestingLimit).step hw h
  obtain ⟨selections, words, hselections, hw, h⟩ := (selectionSet_keeps nestingLimit).step hw h
  obtain ⟨rfl, rfl⟩ := Prod.mk.inj (Option.some.inj h)
  refine ⟨⟨⟨nofun, ?_⟩, nofun⟩, hw⟩
  rintro _ ⟨⟩ _ ⟨⟩
  exact hselections

/-! ## Type-system definitions -/

theorem constantDirectives_keeps : KeepsWords constantDirectives := by
  intro words b rest hw h
  obtain ⟨_, words, _, hw, h⟩ := (directives_keeps true nestingLimit).step hw h
  obtain ⟨_, rfl⟩ := Prod.mk.inj (Option.some.inj h)
  exact ⟨trivial, hw⟩

theorem inputValue_keeps : KeepsWords inputValue := by
  intro words u rest hw h
  obtain ⟨_, words, _, hw, h⟩ := name_keeps.step (plain_dropDescription hw) h
  obtain ⟨_, words, _, hw, h⟩ := (punctuator_keeps ':').step hw h
  obtain ⟨_, words, _, hw, h⟩ := (typeRef_keeps nestingLimit).step hw h
  simp only at h
  split at h
  · obtain ⟨words, hdefault, h⟩ := Option.bind_eq_some_iff.mp h
    obtain ⟨⟨_, _⟩, hvalue, rfl⟩ := Option.map_eq_some_iff.mp hdefault
    have hw := (value_keeps true nestingLimit _ _ _ (plain_tail hw) hvalue).2
    obtain ⟨_, words, _, hw, h⟩ := constantDirectives_keeps.step hw h
    obtain ⟨_, rfl⟩ := Prod.mk.inj (Option.some.inj h)
    exact ⟨trivial, hw⟩
  · obtain ⟨_, words, _, hw, h⟩ := constantDirectives_keeps.step hw h
    obtain ⟨_, rfl⟩ := Prod.mk.inj (Option.some.inj h)
    exact ⟨trivial, hw⟩

theorem fieldDefinition_keeps : KeepsWords fieldDefinition := by
  intro words u rest hw h
  obtain ⟨_, words, _, hw, h⟩ := name_keeps.step (plain_dropDescription hw) h
  obtain ⟨_, words, _, hw, h⟩ := (optional_keeps '(' ')' inputValue_keeps).step hw h
  obtain ⟨_, words, _, hw, h⟩ := (punctuator_keeps ':').step hw h
  obtain ⟨_, words, _, hw, h⟩ := (typeRef_keeps nestingLimit).step hw h
  obtain ⟨_, words, _, hw, h⟩ := constantDirectives_keeps.step hw h
  obtain ⟨_, rfl⟩ := Prod.mk.inj (Option.some.inj h)
  exact ⟨trivial, hw⟩

theorem enumValue_keeps : KeepsWords enumValue := by
  intro words u rest hw h
  obtain ⟨_, words, _, hw, h⟩ := name_keeps.step (plain_dropDescription hw) h
  simp only at h
  split at h
  · cases h
  · obtain ⟨_, words, _, hw, h⟩ := constantDirectives_keeps.step hw h
    obtain ⟨_, rfl⟩ := Prod.mk.inj (Option.some.inj h)
    exact ⟨trivial, hw⟩

theorem rootType_keeps : KeepsWords rootType := by
  intro words u rest hw h
  obtain ⟨_, words, _, hw, h⟩ := name_keeps.step hw h
  simp only at h
  split at h
  · cases h
  · obtain ⟨_, words, _, hw, h⟩ := (punctuator_keeps ':').step hw h
    obtain ⟨_, words, _, hw, h⟩ := name_keeps.step hw h
    obtain ⟨_, rfl⟩ := Prod.mk.inj (Option.some.inj h)
    exact ⟨trivial, hw⟩

theorem interfaces_keeps : KeepsWords interfaces := by
  intro words b rest hw h
  unfold interfaces at h
  split at h
  · obtain ⟨⟨_, _⟩, hnames, he⟩ := Option.map_eq_some_iff.mp h
    obtain ⟨_, rfl⟩ := Prod.mk.inj he
    exact separated_keeps '&' name_keeps _ _ _ (plain_tail hw) hnames |>.imp_left fun _ => trivial
  · obtain ⟨_, rfl⟩ := Prod.mk.inj (Option.some.inj h)
    exact ⟨trivial, hw⟩

theorem unionMembers_keeps : KeepsWords unionMembers := by
  intro words b rest hw h
  unfold unionMembers at h
  split at h
  · obtain ⟨⟨_, _⟩, hnames, he⟩ := Option.map_eq_some_iff.mp h
    obtain ⟨_, rfl⟩ := Prod.mk.inj he
    exact ⟨trivial, (separated_keeps '|' name_keeps _ _ _ (plain_tail hw) hnames).2⟩
  · obtain ⟨_, rfl⟩ := Prod.mk.inj (Option.some.inj h)
    exact ⟨trivial, hw⟩

theorem block_keeps {part : Rule Unit} (hpart : KeepsWords part) : KeepsWords (block part) := by
  intro words b rest hw h
  obtain ⟨_, words, _, hw, h⟩ := (optional_keeps '\x7b' '\x7d' hpart).step hw h
  obtain ⟨_, rfl⟩ := Prod.mk.inj (Option.some.inj h)
  exact ⟨trivial, hw⟩

theorem directivePlace_keeps : KeepsWords directivePlace := by
  intro words u rest hw h
  obtain ⟨_, words, _, hw, h⟩ := name_keeps.step hw h
  simp only at h
  split at h
  · obtain ⟨_, rfl⟩ := Prod.mk.inj (Option.some.inj h)
    exact ⟨trivial, hw⟩
  · cases h

theorem parts_keeps {rules : List (Rule Bool)} (hrules : ∀ rule ∈ rules, KeepsWords rule) :
    KeepsWords (parts rules) := by
  intro words b rest hw h
  unfold parts at h
  generalize false = found at h
  induction rules generalizing found words with
  | nil =>
    obtain ⟨_, rfl⟩ := Prod.mk.inj (Option.some.inj h)
    exact ⟨trivial, hw⟩
  | cons rule rules ih =>
    rw [List.foldlM_cons] at h
    obtain ⟨⟨found', words'⟩, hstep, h⟩ := Option.bind_eq_some_iff.mp h
    obtain ⟨_, words, _, hw, hstep⟩ := (hrules rule List.mem_cons_self).step hw hstep
    obtain ⟨_, rfl⟩ := Prod.mk.inj (Option.some.inj hstep)
    exact ih (fun r hr => hrules r (List.mem_cons_of_mem rule hr)) _ hw _ h

theorem typeParts?_keeps {kind : String} {rules : List (Rule Bool)}
    (h : typeParts? kind = some rules) : ∀ rule ∈ rules, KeepsWords rule := by
  have hall : ∀ r ∈ typeParts? kind, ∀ rule ∈ r, KeepsWords rule := by
    unfold typeParts?
    split <;> simp [constantDirectives_keeps, interfaces_keeps, unionMembers_keeps,
      block_keeps fieldDefinition_keeps, block_keeps enumValue_keeps,
      block_keeps inputValue_keeps]
  exact hall rules h

theorem isPlain_typeSystem : Definition.typeSystem.IsPlain := ⟨⟨nofun, nofun⟩, nofun⟩

theorem typeSystemDefinition_keeps : Keeps typeSystemDefinition Definition.IsPlain := by
  intro words definition rest hw h
  obtain ⟨kind, words, _, hw, h⟩ := name_keeps.step hw h
  simp only at h
  split at h
  · obtain ⟨_, words, _, hw, h⟩ := constantDirectives_keeps.step hw h
    obtain ⟨_, words, _, hw, h⟩ := (some1_keeps '\x7b' '\x7d' rootType_keeps).step hw h
    obtain ⟨rfl, rfl⟩ := Prod.mk.inj (Option.some.inj h)
    exact ⟨isPlain_typeSystem, hw⟩
  · split at h
    · obtain ⟨_, words, _, hw, h⟩ := (punctuator_keeps '@').step hw h
      obtain ⟨_, words, _, hw, h⟩ := name_keeps.step hw h
      obtain ⟨_, words, _, hw, h⟩ := (optional_keeps '(' ')' inputValue_keeps).step hw h
      obtain ⟨_, words, _, hw, h⟩ := (keyword_keeps "on").step (plain_dropIf _ hw) h
      obtain ⟨_, words, _, hw, h⟩ := (separated_keeps '|' directivePlace_keeps).step hw h
      obtain ⟨rfl, rfl⟩ := Prod.mk.inj (Option.some.inj h)
      exact ⟨isPlain_typeSystem, hw⟩
    · obtain ⟨rules, hrules, h⟩ := Option.bind_eq_some_iff.mp h
      obtain ⟨_, words, _, hw, h⟩ := name_keeps.step hw h
      obtain ⟨_, words, _, hw, h⟩ := (parts_keeps (typeParts?_keeps hrules)).step hw h
      obtain ⟨rfl, rfl⟩ := Prod.mk.inj (Option.some.inj h)
      exact ⟨isPlain_typeSystem, hw⟩

theorem typeSystemExtension_keeps : Keeps typeSystemExtension Definition.IsPlain := by
  intro words definition rest hw h
  obtain ⟨kind, words, _, hw, h⟩ := name_keeps.step hw h
  have hadded : ∀ {added : Bool} {words : List Token}, Plain words →
      (if added then some (Definition.typeSystem, words) else none) = some (definition, rest) →
        definition.IsPlain ∧ Plain rest := by
    intro added words hw h
    split at h
    · obtain ⟨rfl, rfl⟩ := Prod.mk.inj (Option.some.inj h)
      exact ⟨isPlain_typeSystem, hw⟩
    · cases h
  have hextended : ∀ rule ∈ [constantDirectives, block rootType], KeepsWords rule := by
    simp [constantDirectives_keeps, block_keeps rootType_keeps]
  simp only at h
  split at h
  · obtain ⟨added, words, _, hw, h⟩ := (parts_keeps hextended).step hw h
    exact hadded hw h
  · obtain ⟨rules, hrules, h⟩ := Option.bind_eq_some_iff.mp h
    obtain ⟨_, words, _, hw, h⟩ := name_keeps.step hw h
    obtain ⟨added, words, _, hw, h⟩ := (parts_keeps (typeParts?_keeps hrules)).step hw h
    exact hadded hw h

/-! ## Documents -/

theorem describable_keeps : Keeps describable Definition.IsPlain := by
  intro words definition rest hw h
  unfold describable at h
  split at h
  · exact operation_keeps .query _ definition rest (plain_rest hw) h
  · exact operation_keeps .mutation _ definition rest (plain_rest hw) h
  · exact operation_keeps .subscription _ definition rest (plain_rest hw) h
  · exact fragment_keeps _ definition rest (plain_rest hw) h
  · exact typeSystemDefinition_keeps _ definition rest hw h

theorem definition_keeps : Keeps definition Definition.IsPlain := by
  intro words d rest hw h
  unfold definition at h
  split at h
  · obtain ⟨selections, words, hselections, hw, h⟩ := (selectionSet_keeps nestingLimit).step hw h
    obtain ⟨rfl, rfl⟩ := Prod.mk.inj (Option.some.inj h)
    refine ⟨isPlain_operation ?_ nofun, hw⟩
    rintro _ ⟨⟩
    exact hselections
  · split at h
    · exact typeSystemExtension_keeps _ d rest (plain_tail hw) h
    · exact describable_keeps _ d rest (plain_dropDescription hw) h

theorem definitions_isPlain (fuel : Nat) {done found : List Definition} {words : List Token}
    (hdone : ∀ d ∈ done, d.IsPlain) (hw : Plain words)
    (h : definitions fuel done words = some found) : ∀ d ∈ found, d.IsPlain := by
  induction fuel generalizing done words with
  | zero => cases h
  | succ fuel ih =>
    unfold definitions at h
    obtain ⟨d, rest, hd, hw, h⟩ := definition_keeps.step hw h
    have hall : ∀ e ∈ d :: done, e.IsPlain := by
      intro e he
      rcases List.mem_cons.mp he with rfl | he
      · exact hd
      · exact hdone e he
    simp only at h
    split at h
    · obtain rfl := Option.some.inj h
      exact fun e he => hall e (List.mem_reverse.mp he)
    · exact ih hall hw h

end Grammar

/-- The whole numbers that fields of a parsed document have as arguments are plain, and no
operation in it has an empty name. -/
theorem Document.isPlain_of_parse? {text : String} {document : Document}
    (h : Document.parse? text = some document) : ∀ d ∈ document.definitions, d.IsPlain := by
  obtain ⟨words, hwords, h⟩ := Option.bind_eq_some_iff.mp h
  obtain ⟨found, hfound, h⟩ := Option.bind_eq_some_iff.mp h
  obtain rfl := Option.some.inj h
  exact Grammar.definitions_isPlain _ (List.forall_mem_nil _) (Token.ofText?_plain hwords) hfound

theorem Document.plainLiterals_of_parse? {text : String} {document : Document}
    (h : Document.parse? text = some document) : document.PlainLiterals :=
  fun d hmem => (isPlain_of_parse? h d hmem).toPlainLiterals

end QueryAdmission
