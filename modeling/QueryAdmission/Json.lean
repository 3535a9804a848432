import QueryAdmission.Members
import QueryAdmission.Number.Numeral
import QueryAdmission.Text.CodePoint
import QueryAdmission.Text.WholeNumber

/-! JSON values and their text. A number without a point and an exponent is a whole number
of any size, every other number is a double; the words `NaN`, `Infinity` and `-Infinity`
are numbers too. Of two members with one name the last counts. Strings can hold lone halves
of surrogate pairs, as they are or as escapes. -/

namespace QueryAdmission

inductive Json where
  | null
  | bool (value : Bool)
  | int (value : Int)
  | float (value : Binary64)
  | string (value : String)
  | array (items : List Json)
  | object (members : List (String × Json))

namespace Json

instance : Inhabited Json := ⟨.null⟩

/-- The member of a name, if the value is an object that has it. -/
def member? (json : Json) (name : String) : Option Json :=
  match json with
  | .object members => members.lookup name
  | _ => none

/-- White space between tokens. -/
def isSpace (c : Char) : Bool := c == ' ' || c == '\t' || c == '\n' || c == '\r'

def skipSpace (text : List Char) : List Char := text.dropWhile isSpace

/-- What follows a word, if the text starts with it. -/
def afterWord? (word : List Char) (text : List Char) : Option (List Char) :=
  if word.isPrefixOf text then some (text.drop word.length) else none

/-- The value of a hexadecimal digit. -/
def hexDigit? (c : Char) : Option Nat :=
  if '0' ≤ c ∧ c ≤ '9' then some (c.toNat - 0x30)
  else if 'a' ≤ c ∧ c ≤ 'f' then some (c.toNat - 0x61 + 10)
  else if 'A' ≤ c ∧ c ≤ 'F' then some (c.toNat - 0x41 + 10)
  else none

/-- Four hexadecimal digits, and what follows. -/
def hexUnit? : List Char → Option (Nat × List Char)
  | a :: b :: c :: d :: rest => do
    let a ← hexDigit? a
    let b ← hexDigit? b
    let c ← hexDigit? c
    let d ← hexDigit? d
    return (((a * 16 + b) * 16 + c) * 16 + d, rest)
  | _ => none

/-- The code point of an escaped unit: an upper half of a pair takes the lower half from a
second escape. -/
def escapedUnit (unit : Nat) (rest : List Char) : CodePoint × List Char :=
  match rest with
  | '\\' :: 'u' :: more =>
    match hexUnit? more with
    | some (low, after) =>
      match CodePoint.ofPair? unit low with
      | some c => (c, after)
      | none => (.ofNat unit, rest)
    | none => (.ofNat unit, rest)
  | _ => (.ofNat unit, rest)

/-- The character of a simple escape. -/
def simpleEscape? : Char → Option Char
  | '"' => some '"'
  | '\\' => some '\\'
  | '/' => some '/'
  | 'b' => some '\x08'
  | 'f' => some '\x0c'
  | 'n' => some '\n'
  | 'r' => some '\r'
  | 't' => some '\t'
  | _ => none

/-- The rest of a string after its opening quote, and what follows the closing one. The
first argument bounds the characters read. -/
def readString? : Nat → List Char → List Char → Option (String × List Char)
  | 0, _, _ => none
  | fuel + 1, text, done =>
    match text with
    | [] => none
    | '"' :: rest => some (String.ofList done.reverse, rest)
    | '\\' :: 'u' :: rest => do
      let (unit, rest) ← hexUnit? rest
      let (p, rest) := escapedUnit unit rest
      readString? fuel rest (p.escape.reverse ++ done)
    | '\\' :: e :: rest => do readString? fuel rest ((← simpleEscape? e) :: done)
    | c :: rest => if c.toNat < 0x20 then none else readString? fuel rest (c :: done)

/-- Why a text is not read as JSON; what comes first in the text counts. -/
inductive ReadError where
  | malformed
  /-- A whole number has too many digits. -/
  | tooLong
  /-- Too many brackets or braces are open, the last of them a bracket or not. -/
  | tooDeep (bracket : Bool)
  deriving DecidableEq, Repr

/-- What is read in front of a text, or what is wrong there. -/
abbrev Reading := Except ReadError

/-- The number in front of a text, and what follows. A point or an exponent belongs to the
number only if digits come after it. -/
def readNumber (text : List Char) : Reading (Json × List Char) :=
  let (negative, unsigned) := match text with
    | '-' :: rest => (true, rest)
    | rest => (false, rest)
  let run := unsigned.takeWhile Numeral.isDigit
  let digits := match run with
    | '0' :: _ => ['0']
    | ds => ds
  let rest := unsigned.drop digits.length
  let fraction := match rest with
    | '.' :: more => more.takeWhile Numeral.isDigit
    | _ => []
  let rest := if fraction.isEmpty then rest else rest.drop (fraction.length + 1)
  let power := match rest with
    | c :: more =>
      if c = 'e' ∨ c = 'E' then
        let (sign, tail) := match more with
          | '-' :: tail => (['-'], tail)
          | '+' :: tail => (['+'], tail)
          | tail => ([], tail)
        let ds := tail.takeWhile Numeral.isDigit
        if ds.isEmpty then [] else c :: (sign ++ ds)
      else []
    | [] => []
  let rest := rest.drop power.length
  let sign := if negative then ['-'] else []
  if digits.isEmpty then .error .malformed
  else if fraction.isEmpty && power.isEmpty then
    if WholeNumber.digitLimit < digits.length then .error .tooLong
    else
      let n : Int := Numeral.ofDigits digits
      .ok (.int (if negative then -n else n), rest)
  else
    let point := if fraction.isEmpty then [] else '.' :: fraction
    match Numeral.read? (sign ++ digits ++ point ++ power) with
    | some numeral => .ok (.float numeral.toBinary64, rest)
    | none => .error .malformed

/-- The string after an opening quote, and what follows. -/
def readText (fuel : Nat) (text : List Char) : Reading (String × List Char) :=
  match readString? fuel text [] with
  | some r => .ok r
  | none => .error .malformed

mutual

/-- The value in front of a text, and what follows. The first argument bounds the characters:
each of them takes up two of it at most. The second is how many more brackets can open. -/
def readValue : Nat → Nat → List Char → Reading (Json × List Char)
  | 0, _, _ => .error .malformed
  | fuel + 1, levels, text =>
    match text with
    | '"' :: rest => (readText fuel rest).map fun (s, r) => (.string s, r)
    | '[' :: rest =>
      match levels, skipSpace rest with
      | 0, _ => .error (.tooDeep true)
      | _ + 1, ']' :: rest => .ok (.array [], rest)
      | levels + 1, rest => readItems fuel levels rest []
    | '\x7b' :: rest =>
      match levels, skipSpace rest with
      | 0, _ => .error (.tooDeep false)
      | _ + 1, '\x7d' :: rest => .ok (.object [], rest)
      | levels + 1, rest => readMembers fuel levels rest []
    | _ =>
      match afterWord? "null".toList text, afterWord? "true".toList text,
          afterWord? "false".toList text, afterWord? "NaN".toList text,
          afterWord? "Infinity".toList text, afterWord? "-Infinity".toList text with
      | some rest, _, _, _, _, _ => .ok (.null, rest)
      | _, some rest, _, _, _, _ => .ok (.bool true, rest)
      | _, _, some rest, _, _, _ => .ok (.bool false, rest)
      | _, _, _, some rest, _, _ => .ok (.float .nan, rest)
      | _, _, _, _, some rest, _ => .ok (.float (.infinite false), rest)
      | _, _, _, _, _, some rest => .ok (.float (.infinite true), rest)
      | _, _, _, _, _, _ => readNumber text

/-- The items of an array from one item on, up to its closing bracket. -/
def readItems : Nat → Nat → List Char → List Json → Reading (Json × List Char)
  | 0, _, _, _ => .error .malformed
  | fuel + 1, levels, text, done => do
    let (item, rest) ← readValue fuel levels text
    match skipSpace rest with
    | ']' :: rest => .ok (.array (item :: done).reverse, rest)
    | ',' :: rest => readItems fuel levels (skipSpace rest) (item :: done)
    | _ => .error .malformed

/-- The members of an object from one name on, up to its closing brace. -/
def readMembers : Nat → Nat → List Char → List (String × Json) → Reading (Json × List Char)
  | 0, _, _, _ => .error .malformed
  | fuel + 1, levels, text, done => do
    match text with
    | '"' :: rest =>
      let (name, rest) ← readText fuel rest
      match skipSpace rest with
      | ':' :: rest =>
        let (value, rest) ← readValue fuel levels (skipSpace rest)
        let done := putMember done name value
        match skipSpace rest with
        | '\x7d' :: rest => .ok (.object done, rest)
        | ',' :: rest => readMembers fuel levels (skipSpace rest) done
        | _ => .error .malformed
      | _ => .error .malformed
    | _ => .error .malformed

end

/-- Reads a text that is one JSON value and nothing else. The first argument is how many
brackets and braces can be open at once. -/
def read (levels : Nat) (text : String) : Reading Json := do
  let chars := skipSpace text.toList
  let (value, rest) ← readValue (2 * chars.length + 2) levels chars
  if (skipSpace rest).isEmpty then .ok value else .error .malformed

end Json

end QueryAdmission
