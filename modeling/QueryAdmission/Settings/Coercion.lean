import QueryAdmission.Json
import QueryAdmission.Number.Quantity

/-! Values of settings from raw values. Numbers and flags are also read from text, and each
kind of value is taken for another where nothing is lost: an integral number for a whole
one, zero and one for flags, flags for numbers. -/

namespace QueryAdmission

/-- Why a raw value does not fit a setting. -/
inductive Misfit where
  | floatParsing
  | floatType
  | intParsing
  | intParsingSize
  | intFromFloat
  | intType
  | finiteNumber
  | boolParsing
  | boolType
  | stringType
  | stringUnicode
  | dictType
  | listType
  | belowMinimum
  | notAboveMinimum
  | unknownName
  deriving DecidableEq, Repr

def Misfit.code : Misfit → String
  | .floatParsing => "float_parsing"
  | .floatType => "float_type"
  | .intParsing => "int_parsing"
  | .intParsingSize => "int_parsing_size"
  | .intFromFloat => "int_from_float"
  | .intType => "int_type"
  | .finiteNumber => "finite_number"
  | .boolParsing => "bool_parsing"
  | .boolType => "bool_type"
  | .stringType => "string_type"
  | .stringUnicode => "string_unicode"
  | .dictType => "dict_type"
  | .listType => "list_type"
  | .belowMinimum => "greater_than_equal"
  | .notAboveMinimum => "greater_than"
  | .unknownName => "extra_forbidden"

namespace Coercion

/-- The characters of a text, which must not hold lone halves. -/
def characters (text : String) : Except Misfit (List Char) :=
  if hasHalf text then .error .stringUnicode else .ok text.toList

/-- A text without its underscores, if they all stand single and inside. -/
def withoutUnderscores? (text : List Char) : Option (List Char) :=
  let groups := cut '_' text
  if groups.length < 2 || groups.any List.isEmpty then none else some groups.flatten

def floatOfText? (text : List Char) : Option Binary64 :=
  match Binary64.read? (trimBlanks text) with
  | some x => some x
  | none => (withoutUnderscores? text).bind Binary64.read?

def toFloat : Json → Except Misfit Binary64
  | .float x => .ok x
  | .int n => match Binary64.ofInt? n with
    | some x => .ok x
    | none => .error .floatType
  | .bool b => .ok (Binary64.ofInt (if b then 1 else 0))
  | .string s => do
    match floatOfText? (← characters s) with
    | some x => .ok x
    | none => .error .floatParsing
  | _ => .error .floatType

/-- Splits off a minus in front: whether there was one, and what follows. -/
def splitMinus : List Char → Bool × List Char
  | '-' :: rest => (true, rest)
  | rest => (false, rest)

/-- Drops zeros in front of a number, which underscores can separate, but not its last. A
minus ends them as a digit does. -/
def dropLeadingZeros? : List Char → Option (List Char)
  | '0' :: rest =>
    let tail := rest.dropWhile fun c => c == '0' || c == '_'
    match tail with
    | [] => some ((('0' :: rest).getLast?).toList)
    | '.' :: _ => (rest.take (rest.length - tail.length)).getLast?.getD '0' :: tail
    | c :: _ => if Numeral.isDigit c || c == '-' then some tail else none
  | '-' :: rest => some ('-' :: rest)
  | c :: rest => if Numeral.isDigit c then some (c :: rest) else none
  | [] => none

/-- Drops a point that at least one zero follows and nothing else. -/
def dropZeroFraction (text : List Char) : List Char :=
  let whole := text.takeWhile (· != '.')
  match text.drop whole.length with
  | _ :: fraction =>
    if !fraction.isEmpty && fraction.all (· == '0') then whole else text
  | [] => text

/-- The most characters of a plain whole number, its sign included. -/
def plainLimit : Nat := 4300

/-- A whole number in plain digits, with a minus perhaps. More than one digit must not start
with a zero. A number is too long wherever it ends, with anything behind it. -/
def plainInt (text : List Char) : Except Misfit Int :=
  let (negative, unsigned) := splitMinus text
  let digits := unsigned.takeWhile Numeral.isDigit
  let length := (if negative then 1 else 0) + digits.length
  match digits with
  | [] => .error .intParsing
  | '0' :: _ :: _ => .error .intParsing
  | _ =>
    if plainLimit < length then .error .intParsingSize
    else if length < text.length then .error .intParsing
    else
      let n : Int := Numeral.ofDigits digits
      .ok (if negative then -n else n)

/-- The plain form of a whole number that is written more freely: with a plus, with zeros in
front, with a fraction of zeros, or with underscores. -/
def tidied? (text : List Char) : Option (List Char) := do
  let unsigned ← match text with
    | '+' :: '-' :: _ => none
    | '+' :: rest => some rest
    | rest => some rest
  let (negative, unsigned) := splitMinus unsigned
  let digits := dropZeroFraction (← dropLeadingZeros? unsigned)
  let plain := (withoutUnderscores? digits).getD digits
  return if negative then '-' :: plain else plain

/-- Reads a whole number, in its plain form if it has one. Only what is plain from the start is
said to be too long. -/
def intOfText (text : List Char) : Except Misfit Int :=
  let trimmed := trimBlanks text
  match plainInt trimmed, (tidied? trimmed).map plainInt with
  | .ok n, _ => .ok n
  | .error .intParsingSize, _ => .error .intParsingSize
  | .error _, some (.ok n) => .ok n
  | .error _, _ => .error .intParsing

/-- Whole numbers of 64 bits, one of which is the sign, are less than this in magnitude, but
for the least of them. -/
def wordRange : Int := 0x8000000000000000

/-- The whole number that a double is. Both ends of the range are left out. -/
def wholeOf (x : Binary64) : Except Misfit Int :=
  match x with
  | .finite _ units _ _ =>
    if units % Binary64.one ≠ 0 then .error .intFromFloat
    else match (Quantity.float x).whole? with
      | some n => if -wordRange < n ∧ n < wordRange then .ok n else .error .intParsingSize
      | none => .error .finiteNumber
  | _ => .error .finiteNumber

def toInt : Json → Except Misfit Int
  | .int n => .ok n
  | .bool b => .ok (if b then 1 else 0)
  | .float x => wholeOf x
  | .string s => do intOfText (← characters s)
  | _ => .error .intType

def trueWords : List String := ["1", "t", "y", "on", "yes", "true"]

def falseWords : List String := ["0", "f", "n", "no", "off", "false"]

def toBool : Json → Except Misfit Bool
  | .bool b => .ok b
  | .string s => do
    let _ ← characters s
    if trueWords.contains s.toLower then .ok true
    else if falseWords.contains s.toLower then .ok false
    else .error .boolParsing
  | .int n =>
    if n = 0 then .ok false
    else if n = 1 then .ok true
    else if -wordRange ≤ n ∧ n < wordRange then .error .boolParsing
    else .error .boolType
  | .float x => match wholeOf x with
    | .ok n => if n = 0 then .ok false else if n = 1 then .ok true else .error .boolParsing
    | .error _ => .error .boolType
  | _ => .error .boolType

def toText : Json → Except Misfit String
  | .string s => .ok s
  | _ => .error .stringType

end Coercion

end QueryAdmission
