import QueryAdmission.Json

/-! The words of a document. Blanks, line ends, commas, byte order marks and comments
separate them and mean nothing. Escapes and the indentation of block strings are
resolved here, while numbers keep their spelling. Lone halves of surrogate pairs can stand
nowhere, not even in a comment. -/

namespace QueryAdmission

inductive Token where
  | punctuator (c : Char)
  | dots
  | name (text : String)
  | int (text : String)
  | float (text : String)
  | string (text : String) (block : Bool)
  deriving DecidableEq, Repr

namespace Token

def isNameStart (c : Char) : Bool := c.isAlpha || c == '_'

def isNameContinue (c : Char) : Bool := c.isAlphanum || c == '_'

def isIgnored (c : Char) : Bool :=
  c == ' ' || c == '\t' || c == ',' || c == '\n' || c == '\r' || c == '\ufeff'

def isPunctuator (c : Char) : Bool :=
  ['!', '$', '&', '(', ')', ':', '=', '@', '[', ']', '\x7b', '|', '\x7d'].contains c

def isLineEnd (c : Char) : Bool := c == '\n' || c == '\r'

/-- Digits, of which there must be one, and what follows. -/
def digits? (text : List Char) : Option (List Char × List Char) :=
  let digits := text.takeWhile Numeral.isDigit
  if digits.isEmpty then none else some (digits, text.drop digits.length)

/-- The whole part of a number: a zero alone, or digits that start with another one. -/
def wholePart? (text : List Char) : Option (List Char × List Char) := do
  let (digits, rest) ← digits? text
  match digits with
  | '0' :: _ :: _ => none
  | _ => some (digits, rest)

/-- The digits after a point, with the point; nothing if there is no point. -/
def fraction? (text : List Char) : Option (List Char × List Char) :=
  match text with
  | '.' :: rest => (digits? rest).map fun (ds, r) => ('.' :: ds, r)
  | _ => some ([], text)

/-- A power of ten with its mark; nothing if there is no mark. -/
def power? (text : List Char) : Option (List Char × List Char) :=
  match text with
  | c :: rest =>
    if c = 'e' ∨ c = 'E' then
      match rest with
      | '-' :: more => (digits? more).map fun (ds, r) => (c :: '-' :: ds, r)
      | '+' :: more => (digits? more).map fun (ds, r) => (c :: '+' :: ds, r)
      | more => (digits? more).map fun (ds, r) => (c :: ds, r)
    else some ([], text)
  | [] => some ([], [])

/-- A number, which no name and no point may follow. -/
def number? (text : List Char) : Option (Token × List Char) := do
  let (sign, unsigned) := match text with
    | '-' :: rest => (['-'], rest)
    | rest => ([], rest)
  let (whole, rest) ← wholePart? unsigned
  let (fraction, rest) ← fraction? rest
  let (power, rest) ← power? rest
  if rest.head?.any fun c => c == '.' || isNameStart c then none
  let spelling := String.ofList (sign ++ whole ++ fraction ++ power)
  return (if fraction.isEmpty && power.isEmpty then .int spelling else .float spelling, rest)

/-- The most hexadecimal digits between the braces of an escape. -/
def bracedDigits : Nat := 8

/-- The character between the braces of an escape, and what follows the closing brace. -/
def braced? (text : List Char) : Option (CodePoint × List Char) := do
  let inside := text.takeWhile (· != '\x7d')
  let rest := text.drop (inside.length + 1)
  if inside.isEmpty || bracedDigits < inside.length || text.length == inside.length then none
  let digits ← inside.mapM Json.hexDigit?
  let point := digits.foldl (fun n d => n * 16 + d) 0
  if h : point.isValidChar then some (.char (Char.ofNatAux point h), rest) else none

/-- The character of an escape after its `u`, and what follows. Halves of a pair have to
stand together. -/
def unicodeEscape? (text : List Char) : Option (CodePoint × List Char) :=
  match text with
  | '\x7b' :: rest => braced? rest
  | _ => do
    let (unit, rest) ← Json.hexUnit? text
    let (p, rest) := Json.escapedUnit unit rest
    if p.isHalf then none else some (p, rest)

/-- The rest of a string of one line, and what follows its closing quote. The first argument
bounds the characters read. -/
def line? : Nat → List Char → List Char → Option (String × List Char)
  | 0, _, _ => none
  | fuel + 1, text, done =>
    match text with
    | [] => none
    | '"' :: rest => some (String.ofList done.reverse, rest)
    | '\\' :: 'u' :: rest => do
      let (p, rest) ← unicodeEscape? rest
      line? fuel rest (p.escape.reverse ++ done)
    | '\\' :: e :: rest => do line? fuel rest ((← Json.simpleEscape? e) :: done)
    | c :: rest => if isLineEnd c then none else line? fuel rest (c :: done)

/-- The lines of a block string up to its closing quotes, and what follows them. -/
def blockLines? : Nat → List Char → List Char → List (List Char) →
    Option (List (List Char) × List Char)
  | 0, _, _, _ => none
  | fuel + 1, text, line, done =>
    match text with
    | [] => none
    | '"' :: '"' :: '"' :: rest => some ((line.reverse :: done).reverse, rest)
    | '\\' :: '"' :: '"' :: '"' :: rest => blockLines? fuel rest ('"' :: '"' :: '"' :: line) done
    | '\r' :: '\n' :: rest => blockLines? fuel rest [] (line.reverse :: done)
    | c :: rest =>
      if isLineEnd c then blockLines? fuel rest [] (line.reverse :: done)
      else blockLines? fuel rest (c :: line) done

def isIndent (c : Char) : Bool := c == ' ' || c == '\t'

def isIndentOnly (line : List Char) : Bool := line.all isIndent

/-- The lines of a block string without their common indentation, to which the first line
does not count, and without the blank lines around them. -/
def dedent (lines : List (List Char)) : List (List Char) :=
  let indents := (lines.tail.filter (!isIndentOnly ·)).map fun l => (l.takeWhile isIndent).length
  let shifted := match indents.min? with
    | none => lines.take 1
    | some common => lines.take 1 ++ lines.tail.map (List.drop common)
  ((shifted.dropWhile isIndentOnly).reverse.dropWhile isIndentOnly).reverse

/-- The words of a text, added to those read so far. The first argument bounds the
characters read. -/
def scan? : Nat → List Char → List Token → Option (List Token)
  | 0, _, _ => none
  | fuel + 1, text, done =>
    match text with
    | [] => some done.reverse
    | '.' :: '.' :: '.' :: rest => scan? fuel rest (.dots :: done)
    | '"' :: '"' :: '"' :: rest => do
      let (lines, rest) ← blockLines? fuel rest [] []
      let text := "\n".intercalate ((dedent lines).map String.ofList)
      scan? fuel rest (.string text true :: done)
    | '"' :: rest => do
      let (text, rest) ← line? fuel rest []
      scan? fuel rest (.string text false :: done)
    | '#' :: rest => scan? fuel (rest.dropWhile (!isLineEnd ·)) done
    | c :: rest =>
      if isIgnored c then scan? fuel rest done
      else if isPunctuator c then scan? fuel rest (.punctuator c :: done)
      else if isNameStart c then
        let tail := rest.takeWhile isNameContinue
        scan? fuel (rest.drop tail.length) (.name (String.ofList (c :: tail)) :: done)
      else if c == '-' || Numeral.isDigit c then do
        let (number, rest) ← number? text
        scan? fuel rest (number :: done)
      else none

/-- The words of a document, if it is made of words. -/
def ofText? (text : String) : Option (List Token) :=
  if hasHalf text then none
  else
    let chars := text.toList
    scan? (chars.length + 1) chars []

end Token

end QueryAdmission
