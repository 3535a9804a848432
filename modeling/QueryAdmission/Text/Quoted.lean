import QueryAdmission.Text.CodePoint
import QueryAdmission.Text.Unprintable

/-! Text between quotes, as messages show it. The quote is single unless the text holds
single quotes and no double ones; a backslash, the quote and what cannot be seen are
escaped, so the shown form is one line of visible characters. -/

namespace QueryAdmission

/-- `width` hexadecimal digits, in lower case. -/
def hexadecimal (width n : Nat) : List Char :=
  let digits := Nat.toDigits 16 n
  List.replicate (width - digits.length) '0' ++ digits

/-- One character between quotes. -/
def quoteChar (quote c : Char) : List Char :=
  if c = quote ∨ c = '\\' then ['\\', c]
  else if c = '\n' then ['\\', 'n']
  else if c = '\r' then ['\\', 'r']
  else if c = '\t' then ['\\', 't']
  else if !isUnprintable c then [c]
  else if c.toNat < 0x100 then '\\' :: 'x' :: hexadecimal 2 c.toNat
  else if c.toNat < 0x10000 then '\\' :: 'u' :: hexadecimal 4 c.toNat
  else '\\' :: 'U' :: hexadecimal 8 c.toNat

/-- One code point between quotes; a lone half cannot be seen. -/
def quotePoint (quote : Char) : CodePoint → List Char
  | .char c => quoteChar quote c
  | .half offset => '\\' :: 'u' :: hexadecimal 4 (CodePoint.half offset).toNat

def quoted (text : String) : List Char :=
  let points := codePoints text
  let quote := if points.contains (.char '\'') && !points.contains (.char '"') then '"' else '\''
  quote :: points.flatMap (quotePoint quote) ++ [quote]

end QueryAdmission
