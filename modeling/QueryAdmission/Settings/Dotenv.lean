import QueryAdmission.Members
import QueryAdmission.Text.Blank

/-! Files of settings, one `NAME=value` to a line. Values are bare, or between single or
double quotes, where they can run over several lines; a line that fits no form is
skipped. Values can refer to names that are known already, in braces behind a dollar
sign and with a default after `:-`. -/

namespace QueryAdmission

namespace Dotenv

/-- White space of the file format: blanks and the four information separators. -/
def isGap (c : Char) : Bool := isBlank c || (0x1c ≤ c.toNat && c.toNat ≤ 0x1f)

/-- White space within a line. -/
def isInlineGap (c : Char) : Bool := isGap c && c != '\n' && c != '\r'

def dropInline (text : List Char) : List Char := text.dropWhile isInlineGap

/-- Line ends of all kinds as one character. -/
def unifyLines : List Char → List Char
  | '\r' :: '\n' :: rest => '\n' :: unifyLines rest
  | '\r' :: rest => '\n' :: unifyLines rest
  | c :: rest => c :: unifyLines rest
  | [] => []

def restOfLine (text : List Char) : List Char := (text.dropWhile (· != '\n')).drop 1

/-- A value or the text at which the form of a line was broken. -/
abbrev Part (α : Type) := Except (List Char) (α × List Char)

/-- Drops the word that may stand in front of a name. -/
def dropExport (text : List Char) : List Char :=
  let word := "export".toList
  if word.isPrefixOf text && (text.drop word.length).head?.any isInlineGap then
    dropInline (text.drop word.length)
  else text

/-- A name, or none in front of a comment. -/
def name (text : List Char) : Part (Option (List Char)) :=
  match text with
  | '#' :: _ => .ok (none, text)
  | '\'' :: rest =>
    let inside := rest.takeWhile (· != '\'')
    if inside.isEmpty || inside.length == rest.length then .error text
    else .ok (some inside, rest.drop (inside.length + 1))
  | _ =>
    let word := text.takeWhile fun c => c != '=' && c != '#' && !isGap c
    if word.isEmpty then .error text else .ok (some word, text.drop word.length)

/-- What stands before the closing quote, and what follows it. A backslash goes together
with the character after it, so that a quote there closes nothing. -/
def untilQuote (quote : Char) : List Char → List Char → Option (List Char × List Char)
  | _, [] => none
  | done, '\\' :: c :: rest => untilQuote quote (c :: '\\' :: done) rest
  | done, c :: rest =>
    if c = quote then some (done.reverse, rest) else untilQuote quote (c :: done) rest

/-- The escapes between double quotes. -/
def doubleEscapes : List (Char × Char) :=
  [('\\', '\\'), ('\'', '\''), ('"', '"'), ('a', '\x07'), ('b', '\x08'), ('f', '\x0c'),
    ('n', '\n'), ('r', '\r'), ('t', '\t'), ('v', '\x0b')]

/-- The escapes between single quotes. -/
def singleEscapes : List (Char × Char) := [('\\', '\\'), ('\'', '\'')]

/-- Resolves escapes; a backslash in front of any other character stays. -/
def unescape (escapes : List (Char × Char)) : List Char → List Char
  | '\\' :: c :: rest =>
    match escapes.lookup c with
    | some meant => meant :: unescape escapes rest
    | none => '\\' :: unescape escapes (c :: rest)
  | c :: rest => c :: unescape escapes rest
  | [] => []

/-- Cuts a bare value where a comment starts after white space. -/
def cutComment : List Char → List Char
  | [] => []
  | c :: rest =>
    if isGap c && (rest.dropWhile isGap).head? == some '#' then [] else c :: cutComment rest

/-- Drops white space at both ends. -/
def trimGaps (text : List Char) : List Char :=
  ((text.dropWhile isGap).reverse.dropWhile isGap).reverse

/-- A value after the equals sign. White space in front of a bare one is part of it as far as
comments go. -/
def value (text : List Char) : Part (List Char) :=
  match dropInline text with
  | '\'' :: rest =>
    match untilQuote '\'' [] rest with
    | some (inside, rest) => .ok (unescape singleEscapes inside, rest)
    | none => .error text
  | '"' :: rest =>
    match untilQuote '"' [] rest with
    | some (inside, rest) => .ok (unescape doubleEscapes inside, rest)
    | none => .error text
  | _ =>
    let line := text.takeWhile (· != '\n')
    .ok (trimGaps (cutComment line), text.drop line.length)

/-- The end of a line, perhaps after a comment. -/
def lineEnd (text : List Char) : Except (List Char) (List Char) :=
  let afterComment := match dropInline text with
    | '#' :: rest => rest.dropWhile (· != '\n')
    | _ => text
  match dropInline afterComment with
  | [] => .ok []
  | '\n' :: rest => .ok rest
  | _ => .error afterComment

/-- One line that is not blank: a name and its value if it has one. -/
def binding (text : List Char) :
    Except (List Char) (Option (List Char × Option (List Char)) × List Char) := do
  let (key, rest) ← name (dropExport text)
  let rest := dropInline rest
  let (written, rest) ← match rest with
    | '=' :: rest => do
      let (v, rest) ← value rest
      pure (some v, rest)
    | _ => pure (none, rest)
  let rest ← lineEnd rest
  return (key.map (·, written), rest)

/-- The bindings of a file in their order. The first argument bounds the lines. -/
def bindings : Nat → List Char → List (List Char × Option (List Char))
  | 0, _ => []
  | fuel + 1, text =>
    match text.dropWhile isGap with
    | [] => []
    | text =>
      match binding text with
      | .ok (some b, rest) => b :: bindings fuel rest
      | .ok (none, rest) => bindings fuel rest
      | .error broken => bindings fuel (restOfLine broken)

/-- A reference in braces after its dollar sign: the name, the default, what follows. -/
def reference? (text : List Char) : Option (List Char × List Char × List Char) :=
  match text with
  | '\x7b' :: rest =>
    let word := rest.takeWhile fun c => c != '\x7d' && c != ':'
    match rest.drop word.length with
    | '\x7d' :: rest => some (word, [], rest)
    | ':' :: '-' :: rest =>
      let fallback := rest.takeWhile (· != '\x7d')
      match rest.drop fallback.length with
      | _ :: rest => some (word, fallback, rest)
      | [] => none
    | _ => none
  | _ => none

/-- Puts in what references stand for. The first argument bounds the characters. -/
def expand (known : List Char → Option (List Char)) : Nat → List Char → List Char
  | 0, text => text
  | fuel + 1, text =>
    match text with
    | [] => []
    | '$' :: rest =>
      match reference? rest with
      | some (word, fallback, rest) => (known word).getD fallback ++ expand known fuel rest
      | none => '$' :: expand known fuel rest
    | c :: rest => c :: expand known fuel rest

/-- The values of a file, given the environment. Names of the file come before names of the
environment; a name without a value stands for nothing. -/
def resolve (environment : List (String × String)) :
    List (List Char × Option (List Char)) → List (List Char × Option (List Char)) →
    List (List Char × Option (List Char))
  | done, [] => done.reverse
  | done, (key, written) :: rest =>
    let known (word : List Char) : Option (List Char) :=
      match done.lookup word with
      | some v => some (v.getD [])
      | none => (environment.lookup (String.ofList word)).map String.toList
    let v := written.map fun text => expand known (text.length + 1) text
    resolve environment ((key, v) :: done) rest

end Dotenv

/-- A file without the byte order mark that can stand in front of it. -/
def Dotenv.dropOrderMark : List Char → List Char
  | '\ufeff' :: rest => rest
  | text => text

/-- The names and values of a settings file, in the order of the names. -/
def Dotenv.read (environment : List (String × String)) (file : String) :
    List (String × Option String) :=
  let text := unifyLines (dropOrderMark file.toList)
  putMembers [] ((resolve environment [] (bindings (text.length + 1) text)).map fun (k, v) =>
    (String.ofList k, v.map String.ofList))

end QueryAdmission
