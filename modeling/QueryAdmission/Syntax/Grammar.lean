import QueryAdmission.Syntax
import QueryAdmission.Syntax.Token

/-! From words to documents. Each rule reads from the front of the words and returns what
is left; rules that can nest take as an argument how many more levels can open, and no
definition opens more than a fixed number of them. Type-system definitions are checked
for form and then forgotten, since requests never use them. -/

namespace QueryAdmission

/-- A rule of the grammar: a value and the words that follow it, if the rule fits. -/
abbrev Rule (α : Type) := List Token → Option (α × List Token)

namespace Grammar

/-- The levels that can be open at once: selection sets, lists and objects in each other, or
lists in the type of a variable or a field. -/
def nestingLimit : Nat := 200

def token (t : Token) : Rule Unit
  | u :: rest => if u = t then some ((), rest) else none
  | [] => none

def punctuator (c : Char) : Rule Unit := token (.punctuator c)

def keyword (text : String) : Rule Unit := token (.name text)

def startsWith (t : Token) (words : List Token) : Bool := words.head? == some t

def opens (c : Char) (words : List Token) : Bool := startsWith (.punctuator c) words

/-- Drops a word if it stands in front, and says whether it did. -/
def dropIf (t : Token) : List Token → Bool × List Token
  | u :: rest => if u = t then (true, rest) else (false, u :: rest)
  | [] => (false, [])

def name : Rule String
  | .name text :: rest => some (text, rest)
  | _ => none

/-- Items up to a closing punctuator. The first argument bounds their number. -/
def itemsUntil {α : Type} (close : Char) (item : Rule α) : Nat → List α → Rule (List α)
  | 0, _, _ => none
  | fuel + 1, done, words =>
    if opens close words then some (done.reverse, words.tail)
    else do
      let (a, rest) ← item words
      itemsUntil close item fuel (a :: done) rest

/-- Items between punctuators, at least one. -/
def some1 {α : Type} (opening close : Char) (item : Rule α) : Rule (List α) := fun words => do
  let ((), words) ← punctuator opening words
  let (items, rest) ← itemsUntil close item (words.length + 1) [] words
  if items.isEmpty then none else some (items, rest)

/-- Items between punctuators, perhaps none. -/
def many {α : Type} (opening close : Char) (item : Rule α) : Rule (List α) := fun words => do
  let ((), words) ← punctuator opening words
  itemsUntil close item (words.length + 1) [] words

/-- Items between punctuators, at least one, or no punctuators at all. -/
def optional {α : Type} (opening close : Char) (item : Rule α) : Rule (List α) := fun words =>
  if opens opening words then some1 opening close item words else some ([], words)

/-- Items with a separator between them; one in front is allowed too. -/
def separated {α : Type} (separator : Char) (item : Rule α) : Rule (List α) := fun words =>
  let rec more : Nat → List α → Rule (List α)
    | 0, _, _ => none
    | fuel + 1, done, words => do
      let (a, rest) ← item words
      if opens separator rest then more fuel (a :: done) rest.tail
      else some ((a :: done).reverse, rest)
  let words := (dropIf (.punctuator separator) words).2
  more (words.length + 1) [] words

/-- A value of one word, or, unless it has to be constant, a variable. -/
def simpleValue (constant : Bool) : Rule Value
  | .int text :: rest => some (.int text, rest)
  | .float text :: rest => some (.float text, rest)
  | .string text block :: rest => some (.string text block, rest)
  | .name "true" :: rest => some (.boolean true, rest)
  | .name "false" :: rest => some (.boolean false, rest)
  | .name "null" :: rest => some (.null, rest)
  | .name text :: rest => some (.enum text, rest)
  | .punctuator '$' :: rest =>
    if constant then none else (name rest).map fun (n, r) => (.var n, r)
  | _ => none

/-- A literal or, unless it has to be constant, a variable. -/
def value (constant : Bool) : Nat → Rule Value
  | 0, words => simpleValue constant words
  | levels + 1, words =>
    if opens '[' words then do
      let (items, rest) ← many '[' ']' (value constant levels) words
      return (.list items, rest)
    else if opens '\x7b' words then do
      let member : Rule (String × Value) := fun words => do
        let (n, words) ← name words
        let ((), words) ← punctuator ':' words
        let (v, words) ← value constant levels words
        return ((n, v), words)
      let (fields, rest) ← many '\x7b' '\x7d' member words
      return (.object fields, rest)
    else simpleValue constant words

def argument (constant : Bool) (levels : Nat) : Rule Argument := fun words => do
  let (n, words) ← name words
  let ((), words) ← punctuator ':' words
  let (v, words) ← value constant levels words
  return (⟨n, v⟩, words)

def arguments (constant : Bool) (levels : Nat) : Rule (List Argument) :=
  optional '(' ')' (argument constant levels)

/-- Directives, as many as stand in front; there are no more of them than words. -/
def directives (constant : Bool) (levels : Nat) : Rule (List Directive) := fun words =>
  let rec more : Nat → List Directive → Rule (List Directive)
    | 0, _, _ => none
    | left + 1, done, words =>
      if opens '@' words then do
        let (n, rest) ← name words.tail
        let (args, rest) ← arguments constant levels rest
        more left (⟨n, args⟩ :: done) rest
      else some (done.reverse, words)
  more (words.length + 1) [] words

/-- A type after any list brackets, which can have a mark against null behind it. -/
def marked (type : TypeRef) (words : List Token) : TypeRef × List Token :=
  if opens '!' words then (.nonNull type, words.tail) else (type, words)

def namedType : Rule TypeRef := fun words => do
  let (n, rest) ← name words
  return marked (.named n) rest

def typeRef : Nat → Rule TypeRef
  | 0, words => namedType words
  | levels + 1, words =>
    if opens '[' words then do
      let (item, rest) ← typeRef levels words.tail
      let ((), rest) ← punctuator ']' rest
      return marked (.list item) rest
    else namedType words

/-- The name of a fragment, which cannot be the word that introduces its type. -/
def fragmentName : Rule String := fun words =>
  if startsWith (.name "on") words then none else name words

/-- What stands in a selection set: a field, a spread or an inline fragment. The second
argument reads the selection set that it carries. -/
def selectionWith (levels : Nat) (set : Rule (List Selection)) : Rule Selection := fun words =>
  if startsWith .dots words then
    match words.tail with
    | .name "on" :: rest => do
      let (type, rest) ← name rest
      let (ds, rest) ← directives false levels rest
      let (selections, rest) ← set rest
      return (.inline (some type) ds (some selections), rest)
    | .name n :: rest => do
      let (ds, rest) ← directives false levels rest
      return (.spread n ds none, rest)
    | rest => do
      let (ds, rest) ← directives false levels rest
      let (selections, rest) ← set rest
      return (.inline none ds (some selections), rest)
  else do
    let (first, rest) ← name words
    let (label, n, rest) ←
      if opens ':' rest then (name rest.tail).map fun (n, r) => (some first, n, r)
      else some (none, first, rest)
    let (args, rest) ← arguments false levels rest
    let (ds, rest) ← directives false levels rest
    if opens '\x7b' rest then do
      let (selections, rest) ← set rest
      return (.field label n args ds (some selections), rest)
    else return (.field label n args ds none, rest)

def selectionSet : Nat → Rule (List Selection)
  | 0 => fun _ => none
  | levels + 1 => some1 '\x7b' '\x7d' (selectionWith levels (selectionSet levels))

/-- Drops a description, if there is one. -/
def dropDescription : List Token → List Token
  | .string _ _ :: rest => rest
  | words => words

def variableDefinition : Rule VariableDefinition := fun words => do
  let ((), words) ← punctuator '$' (dropDescription words)
  let (n, words) ← name words
  let ((), words) ← punctuator ':' words
  let (type, words) ← typeRef nestingLimit words
  let (default?, words) ←
    if opens '=' words then (value true nestingLimit words.tail).map fun (v, r) => (some v, r)
    else some (none, words)
  let (ds, words) ← directives true nestingLimit words
  return (⟨n, type, default?, ds⟩, words)

/-- An operation after its type word. -/
def operation (type : OperationType) : Rule Definition := fun words => do
  let (n, words) := match words with
    | .name text :: rest => (some text, rest)
    | words => (none, words)
  let (vs, words) ← optional '(' ')' variableDefinition words
  let (ds, words) ← directives false nestingLimit words
  let (selections, words) ← selectionSet nestingLimit words
  return (.operation ⟨type, n, vs, ds, some selections⟩, words)

/-- A fragment after its introducing word. -/
def fragment : Rule Definition := fun words => do
  let (n, words) ← fragmentName words
  let ((), words) ← keyword "on" words
  let (type, words) ← name words
  let (ds, words) ← directives false nestingLimit words
  let (selections, words) ← selectionSet nestingLimit words
  return (.fragment ⟨n, type, ds, some selections⟩, words)

/-- A constant directive list of a type-system definition: whether there is any. -/
def constantDirectives : Rule Bool := fun words => do
  let (ds, rest) ← directives true nestingLimit words
  return (!ds.isEmpty, rest)

def inputValue : Rule Unit := fun words => do
  let (_, words) ← name (dropDescription words)
  let ((), words) ← punctuator ':' words
  let (_, words) ← typeRef nestingLimit words
  let words ←
    if opens '=' words then (value true nestingLimit words.tail).map Prod.snd else some words
  let (_, words) ← constantDirectives words
  return ((), words)

def fieldDefinition : Rule Unit := fun words => do
  let (_, words) ← name (dropDescription words)
  let (_, words) ← optional '(' ')' inputValue words
  let ((), words) ← punctuator ':' words
  let (_, words) ← typeRef nestingLimit words
  let (_, words) ← constantDirectives words
  return ((), words)

def enumValue : Rule Unit := fun words => do
  let (n, words) ← name (dropDescription words)
  if n = "true" ∨ n = "false" ∨ n = "null" then none
  let (_, words) ← constantDirectives words
  return ((), words)

def rootType : Rule Unit := fun words => do
  let (n, words) ← name words
  if n ≠ "query" ∧ n ≠ "mutation" ∧ n ≠ "subscription" then none
  let ((), words) ← punctuator ':' words
  let (_, words) ← name words
  return ((), words)

/-- The interfaces of a type: whether there are any. -/
def interfaces : Rule Bool := fun words =>
  if startsWith (.name "implements") words then
    (separated '&' name words.tail).map fun (_, r) => (true, r)
  else some (false, words)

/-- The members of a union: whether there are any. -/
def unionMembers : Rule Bool := fun words =>
  if opens '=' words then (separated '|' name words.tail).map fun (_, r) => (true, r)
  else some (false, words)

/-- A block of parts, or none: whether there are any. -/
def block (part : Rule Unit) : Rule Bool := fun words => do
  let (parts, rest) ← optional '\x7b' '\x7d' part words
  return (!parts.isEmpty, rest)

/-- The places where a directive can stand. -/
def directivePlaces : List String :=
  ["QUERY", "MUTATION", "SUBSCRIPTION", "FIELD", "FRAGMENT_DEFINITION", "FRAGMENT_SPREAD",
    "INLINE_FRAGMENT", "VARIABLE_DEFINITION", "SCHEMA", "SCALAR", "OBJECT", "FIELD_DEFINITION",
    "ARGUMENT_DEFINITION", "INTERFACE", "UNION", "ENUM", "ENUM_VALUE", "INPUT_OBJECT",
    "INPUT_FIELD_DEFINITION", "DIRECTIVE_DEFINITION"]

def directivePlace : Rule Unit := fun words => do
  let (n, words) ← name words
  if directivePlaces.contains n then some ((), words) else none

/-- The parts of a type-system definition after its name, in their order: whether any of
them is there. -/
def parts (rules : List (Rule Bool)) : Rule Bool := fun words =>
  rules.foldlM (fun (any, words) rule => do
    let (found, words) ← rule words
    return (any || found, words)) (false, words)

/-- What follows the name in the definition of a kind of type. -/
def typeParts? : String → Option (List (Rule Bool))
  | "scalar" => some [constantDirectives]
  | "type" => some [interfaces, constantDirectives, block fieldDefinition]
  | "interface" => some [interfaces, constantDirectives, block fieldDefinition]
  | "union" => some [constantDirectives, unionMembers]
  | "enum" => some [constantDirectives, block enumValue]
  | "input" => some [constantDirectives, block inputValue]
  | _ => none

/-- A type-system definition from its introducing word on. -/
def typeSystemDefinition : Rule Definition := fun words => do
  let (kind, words) ← name words
  if kind = "schema" then
    let (_, words) ← constantDirectives words
    let (_, words) ← some1 '\x7b' '\x7d' rootType words
    return (.typeSystem, words)
  else if kind = "directive" then
    let ((), words) ← punctuator '@' words
    let (_, words) ← name words
    let (_, words) ← optional '(' ')' inputValue words
    let words := (dropIf (.name "repeatable") words).2
    let ((), words) ← keyword "on" words
    let (_, words) ← separated '|' directivePlace words
    return (.typeSystem, words)
  else
    let rules ← typeParts? kind
    let (_, words) ← name words
    let (_, words) ← parts rules words
    return (.typeSystem, words)

/-- An extension of the type system after its introducing word. It has to add something. -/
def typeSystemExtension : Rule Definition := fun words => do
  let (kind, words) ← name words
  let (added, words) ←
    if kind = "schema" then parts [constantDirectives, block rootType] words
    else do
      let rules ← typeParts? kind
      let (_, words) ← name words
      parts rules words
  if added then some (.typeSystem, words) else none

/-- A definition after its description, if it can have one. -/
def describable : Rule Definition
  | .name "query" :: rest => operation .query rest
  | .name "mutation" :: rest => operation .mutation rest
  | .name "subscription" :: rest => operation .subscription rest
  | .name "fragment" :: rest => fragment rest
  | words => typeSystemDefinition words

/-- A definition. Queries without their word and extensions cannot be described. -/
def definition : Rule Definition := fun words =>
  if opens '\x7b' words then do
    let (selections, rest) ← selectionSet nestingLimit words
    return (.operation ⟨.query, none, [], [], some selections⟩, rest)
  else if startsWith (.name "extend") words then typeSystemExtension words.tail
  else describable (dropDescription words)

/-- Definitions up to the end, at least one. -/
def definitions : Nat → List Definition → List Token → Option (List Definition)
  | 0, _, _ => none
  | fuel + 1, done, words => do
    let (d, rest) ← definition words
    if rest.isEmpty then some (d :: done).reverse else definitions fuel (d :: done) rest

end Grammar

/-- The document that a text writes. -/
def Document.parse? (text : String) : Option Document := do
  let words ← Token.ofText? text
  return ⟨← Grammar.definitions (words.length + 1) [] words⟩

end QueryAdmission
