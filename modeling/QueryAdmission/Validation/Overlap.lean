import QueryAdmission.Document
import QueryAdmission.Syntax.Grammar
import QueryAdmission.Validation.Site
import Std.Data.HashMap

/-! Validation of response keys: fields that answer under one key of one object have to be
the same field with the same arguments, and what is selected under them has to fit
together in turn. Fields of different object types never meet; of them only the kinds
of their values have to agree. Fragments are not put in for their spreads: they are
compared with the sets that lead to them and with each other, each two of them once. The
comparisons that a document can take up are limited. -/

namespace QueryAdmission

open StudyRoom

mutual

/-- Whether two values are written alike, up to the order of object fields. -/
def Value.same : Value → Value → Bool
  | .var a, .var b => a == b
  | .int a, .int b => a == b
  | .float a, .float b => a == b
  | .string a block, .string b block' => a == b && block == block'
  | .boolean a, .boolean b => a == b
  | .null, .null => true
  | .enum a, .enum b => a == b
  | .list as, .list bs => Value.sameItems as bs
  | .object as, .object bs => as.length == bs.length && Value.sameFields as bs
  | _, _ => false

def Value.sameItems : List Value → List Value → Bool
  | [], [] => true
  | a :: as, b :: bs => a.same b && Value.sameItems as bs
  | _, _ => false

/-- Whether each field of one list has its like in another. -/
def Value.sameFields : List (String × Value) → List (String × Value) → Bool
  | [], _ => true
  | (name, a) :: as, bs => (match bs.lookup name with
      | some b => a.same b
      | none => false) && Value.sameFields as bs

end

/-- Whether two argument lists are alike, in any order. -/
def sameArguments (as bs : List Argument) : Bool :=
  as.length == bs.length && as.all fun a => bs.any fun b => a.name == b.name && a.value.same b.value

/-- Whether values of two types are of different kinds. -/
def StudyRoom.OutputType.differs : OutputType → OutputType → Bool
  | .list a, .list b => a.differs b
  | .nonNull a, .nonNull b => a.differs b
  | .named (.object _), .named (.object _) => false
  | .named a, .named b => a != b
  | _, _ => true

/-- The type that a field answers with, where it is known. Of the field that every object has
none is known, so it fits beside any other. -/
def answerType? (parent : Option ObjectType) (name : String) : Option OutputType :=
  if name = FieldSpec.typename.name then none else (fieldSpec? parent name).map (·.type)

/-- Where a selection set stands: the positions on the way to it, the last one first. -/
abbrev Position := List Nat

/-- A field as it answers under a key: its type and the set it is selected from, where they are
known, and where the set under it stands. -/
structure Answer where
  parent : Option ObjectType
  name : String
  arguments : List Argument
  type : Option OutputType
  body : Option Position

/-- What a selection set holds once inline fragments are opened: answers under their keys, and
the names of fragments. -/
inductive Entry where
  | answer (key : String) (answer : Answer)
  | spread (name : String)

mutual

/-- The entries of a selection that stands at a position. -/
def Selection.entries (parent : Option ObjectType) (position : Position) :
    Selection → List Entry
  | .field label name arguments _ body =>
    [.answer (label.getD name)
      ⟨parent, name, arguments, answerType? parent name, body.map fun _ => position⟩]
  | .inline on _ (some body) => Selection.entriesOf (inlineType parent on) position 0 body
  | .spread name _ _ => [.spread name]
  | _ => []

/-- The entries of selections, the first of which has the given number in its set. -/
def Selection.entriesOf (parent : Option ObjectType) (position : Position) :
    Nat → List Selection → List Entry
  | _, [] => []
  | n, selection :: rest =>
    selection.entries parent (n :: position) ++ Selection.entriesOf parent position (n + 1) rest

end

/-- A selection set by its keys. -/
structure KeyedSet where
  position : Position
  keys : List String
  answers : Std.HashMap String (List Answer)
  /-- The fragments that are spread in the set, each once. -/
  spreads : List String

namespace KeyedSet

/-- The set without entries. -/
def empty (position : Position) : KeyedSet := ⟨position, [], {}, []⟩

def under (set : KeyedSet) (key : String) : List Answer := set.answers.getD key []

/-- Adds an entry in front of those that are there. -/
def add (set : KeyedSet) : Entry → KeyedSet
  | .answer key answer =>
    { set with
      keys := if set.answers.contains key then set.keys else key :: set.keys
      answers := set.answers.insert key (answer :: set.under key) }
  | .spread name =>
    if set.spreads.contains name then set else { set with spreads := name :: set.spreads }

def ofSelections (parent : Option ObjectType) (position : Position)
    (selections : List Selection) : KeyedSet :=
  (Selection.entriesOf parent position 0 selections).foldr (fun e set => set.add e)
    (empty position)

end KeyedSet

mutual

/-- The selection sets under a selection that stands at a position. The set of an inline
fragment is part of the set that the fragment stands in, and none of its own. -/
def Selection.keyedSets (parent : Option ObjectType) (position : Position) :
    Selection → List KeyedSet
  | .field _ name _ _ (some body) =>
    .ofSelections (bodyType parent name) position body ::
      Selection.keyedSetsOf (bodyType parent name) position 0 body
  | .inline on _ (some body) =>
    Selection.keyedSetsOf (inlineType parent on) position 0 body
  | _ => []

def Selection.keyedSetsOf (parent : Option ObjectType) (position : Position) :
    Nat → List Selection → List KeyedSet
  | _, [] => []
  | n, selection :: rest =>
    selection.keyedSets parent (n :: position) ++
      Selection.keyedSetsOf parent position (n + 1) rest

end

/-- Whether two answers are selected from different object types, so that they never meet. -/
def Answer.isApart (a b : Answer) : Bool :=
  match a.parent, b.parent with
  | some t, some u => t != u
  | _, _ => false

/-- Whether two answers under one key agree, what is below them aside. -/
def Answer.agrees (apart : Bool) (a b : Answer) : Bool :=
  (apart || (a.name == b.name && sameArguments a.arguments b.arguments)) &&
    match a.type, b.type with
    | some t, some u => !t.differs u
    | _, _ => true

namespace Overlap

/-- The sets that comparisons lead to: those under fields, and those of fragments. -/
structure Sets where
  byPosition : Std.HashMap Position KeyedSet
  byFragment : Std.HashMap String KeyedSet

/-- How often has been compared, and what: of sets with fragments and of fragments with each
other it is kept whether they were compared as answers that never meet, which is the weaker
comparison. -/
structure Record where
  comparisons : Nat
  seen : Std.HashMap (Position × String) Bool
  seenFragments : Std.HashMap (String × String) Bool

def Record.fresh : Record := ⟨0, {}, {}⟩

/-- The most comparisons that are made in a document. -/
def comparisonLimit : Nat := 250000

/-- A comparison, which ends without a record if something does not fit or the limit is
exceeded. -/
abbrev Comparison := StateT Record Option Unit

/-- Counts a comparison. -/
def count : Comparison := do
  let record ← get
  if record.comparisons < comparisonLimit then
    set { record with comparisons := record.comparisons + 1 }
  else failure

/-- Whether a former comparison covers one that is to be made. -/
def covers (apart : Bool) : Option Bool → Bool
  | some before => apart || !before
  | none => false

/-- Compares a set with a fragment, if they were not compared before. It counts even so. -/
def onceWithFragment (apart : Bool) (c : KeyedSet) (name : String) (compare : Comparison) :
    Comparison := do
  count
  let record ← get
  let pair := (c.position, name)
  if covers apart record.seen[pair]? then return
  set { record with seen := record.seen.insert pair apart }
  compare

/-- Compares two fragments, if they were not compared before. It counts even so. -/
def onceFragments (apart : Bool) (a b : String) (compare : Comparison) : Comparison := do
  count
  let record ← get
  let pair := if a < b then (a, b) else (b, a)
  if a == b || covers apart record.seenFragments[pair]? then return
  set { record with seenFragments := record.seenFragments.insert pair apart }
  compare

mutual

/-- Compares two answers under one key, and what is below them. The first argument bounds how
deep comparisons lie in each other. -/
def compareAnswers (sets : Sets) : Nat → Bool → Answer → Answer → Comparison
  | 0, _, _, _ => return
  | fuel + 1, apart, a, b => do
    count
    let apart := apart || a.isApart b
    if !a.agrees apart b then failure
    match a.body.bind (sets.byPosition[·]?), b.body.bind (sets.byPosition[·]?) with
    | some c, some d => compareSets sets fuel apart c d
    | _, _ => return

/-- Compares the answers of two sets under their common keys. -/
def compareKeys (sets : Sets) : Nat → Bool → KeyedSet → KeyedSet → Comparison
  | 0, _, _, _ => return
  | fuel + 1, apart, c, d =>
    c.keys.forM fun key =>
      let others := d.under key
      if others.isEmpty then return
      else (c.under key).forM fun a => others.forM fun b => compareAnswers sets fuel apart a b

/-- Compares two sets with all that they spread. -/
def compareSets (sets : Sets) : Nat → Bool → KeyedSet → KeyedSet → Comparison
  | 0, _, _, _ => return
  | fuel + 1, apart, c, d => do
    compareKeys sets fuel apart c d
    d.spreads.forM fun name => compareWithFragment sets fuel apart c name
    c.spreads.forM fun name => compareWithFragment sets fuel apart d name
    c.spreads.forM fun a => d.spreads.forM fun b => compareFragments sets fuel apart a b

/-- Compares a set with a fragment and all that the fragment spreads. -/
def compareWithFragment (sets : Sets) : Nat → Bool → KeyedSet → String → Comparison
  | 0, _, _, _ => return
  | fuel + 1, apart, c, name =>
    onceWithFragment apart c name do
      match sets.byFragment[name]? with
      | some d =>
        if c.position != d.position then
          compareKeys sets fuel apart c d
          d.spreads.forM fun name => compareWithFragment sets fuel apart c name
      | none => return

/-- Compares two fragments and all that they spread. -/
def compareFragments (sets : Sets) : Nat → Bool → String → String → Comparison
  | 0, _, _, _ => return
  | fuel + 1, apart, a, b =>
    onceFragments apart a b do
      match sets.byFragment[a]?, sets.byFragment[b]? with
      | some c, some d =>
        compareKeys sets fuel apart c d
        d.spreads.forM fun name => compareFragments sets fuel apart a name
        c.spreads.forM fun name => compareFragments sets fuel apart name b
      | _, _ => return

end

/-- Relates each item of a list with all behind it. -/
def eachPair {α : Type} (relate : α → α → Comparison) : List α → Comparison
  | [] => return
  | a :: rest => do
    rest.forM (relate a)
    eachPair relate rest

/-- Compares what meets within a set. -/
def compareWithin (sets : Sets) (fuel : Nat) (set : KeyedSet) : Comparison := do
  set.keys.forM fun key => eachPair (compareAnswers sets fuel false) (set.under key)
  set.spreads.forM fun name => compareWithFragment sets fuel false set name
  eachPair (compareFragments sets fuel false) set.spreads

end Overlap

namespace Document

/-- The selection sets of a definition, the outermost first. -/
def keyedSetsAt (n : Nat) : Definition → List KeyedSet
  | .operation o =>
    let body := o.selections.getD []
    .ofSelections o.type.root? [n] body :: Selection.keyedSetsOf o.type.root? [n] 0 body
  | .fragment f =>
    let body := f.selections.getD []
    let type := objectNamed? f.on
    .ofSelections type [n] body :: Selection.keyedSetsOf type [n] 0 body
  | .typeSystem => []

/-- Whether all fields that share a response key fit together. A comparison goes at most
three steps for each level of the two sides, whose levels are limited. -/
def keysFit (document : Document) : Bool :=
  let definitions := document.definitions.zipIdx.map fun (d, n) => (d, keyedSetsAt n d)
  let sets := definitions.flatMap Prod.snd
  let ofFragments := definitions.filterMap fun
    | (.fragment f, set :: _) => some (f.name, set)
    | _ => none
  let known : Overlap.Sets :=
    ⟨.ofList (sets.map fun s => (s.position, s)), .ofList ofFragments⟩
  let fuel := 6 * (Grammar.nestingLimit + 1)
  ((sets.forM (Overlap.compareWithin known fuel)).run .fresh).isSome

end Document

end QueryAdmission
