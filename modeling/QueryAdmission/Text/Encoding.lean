import QueryAdmission.Text.CodePoint

/-! Texts as bytes: UTF-8, and the encodings with units of two and four bytes. Lone halves
pass through all of them. -/

namespace QueryAdmission

/-- The bytes of a code point in UTF-8; a half has three, as its neighbours have. -/
def utf8 (p : CodePoint) : List Nat :=
  let n := p.toNat
  if n < 0x80 then [n]
  else if n < 0x800 then [0xc0 + n / 0x40, 0x80 + n % 0x40]
  else if n < 0x10000 then [0xe0 + n / 0x1000, 0x80 + n / 0x40 % 0x40, 0x80 + n % 0x40]
  else [0xf0 + n / 0x40000, 0x80 + n / 0x1000 % 0x40, 0x80 + n / 0x40 % 0x40, 0x80 + n % 0x40]

namespace Utf8

/-- What a first byte announces: its share of the character, how many bytes follow, and the
first and last byte that can come next. -/
structure Lead where
  share : Nat
  more : Nat
  low : Nat
  high : Nat

/-- What a byte beyond ASCII announces. The bounds keep out halves, numbers that are too
large, and longer forms than needed. -/
def lead? (byte : Nat) : Option Lead :=
  if byte < 0xc2 then none
  else if byte < 0xe0 then some ⟨byte - 0xc0, 1, 0x80, 0xbf⟩
  else if byte < 0xf0 then
    some ⟨byte - 0xe0, 2, if byte = 0xe0 then 0xa0 else 0x80, if byte = 0xed then 0x9f else 0xbf⟩
  else if byte < 0xf5 then
    some ⟨byte - 0xf0, 3, if byte = 0xf0 then 0x90 else 0x80, if byte = 0xf4 then 0x8f else 0xbf⟩
  else none

def isTrail (byte : Nat) : Bool := 0x80 ≤ byte && byte < 0xc0

/-- The bytes that go on with a character. -/
def trail (lead : Lead) (bytes : List Nat) : List Nat :=
  match bytes with
  | next :: rest =>
    if lead.low ≤ next ∧ next ≤ lead.high then next :: (rest.take (lead.more - 1)).takeWhile isTrail
    else []
  | [] => []

/-- The characters of bytes. Where they break off or fit no character, a replacement
character stands for as much as could have been one. -/
def decode (bytes : List Nat) : List Char :=
  match bytes with
  | [] => []
  | byte :: rest =>
    if byte < 0x80 then Char.ofNat byte :: decode rest
    else match lead? byte with
      | none => '\ufffd' :: decode rest
      | some lead =>
        let trail := trail lead rest
        let c := if trail.length = lead.more then
            Char.ofNat (trail.foldl (fun n b => n * 0x40 + (b - 0x80)) lead.share)
          else '\ufffd'
        c :: decode (rest.drop trail.length)
termination_by bytes.length
decreasing_by all_goals (simp only [List.length_drop, List.length_cons]; omega)

end Utf8

/-- How JSON is written in bytes. -/
inductive Encoding where
  | utf8
  | utf16 (bigEndian : Bool)
  | utf32 (bigEndian : Bool)
  deriving DecidableEq, Repr

namespace Encoding

/-- The encoding of a JSON text. It starts with two characters of ASCII, or it is one, so that
the zeros in front tell how wide units are and which end comes first. -/
def ofJson : List Nat → Encoding
  | 0 :: 0 :: _ :: _ :: _ => .utf32 true
  | 0 :: _ :: _ :: _ :: _ => .utf16 true
  | _ :: 0 :: 0 :: 0 :: _ => .utf32 false
  | _ :: 0 :: _ :: _ :: _ => .utf16 false
  | [0, _] => .utf16 true
  | [_, 0] => .utf16 false
  | _ => .utf8

/-- The number that the bytes of a unit write. -/
def unit (bigEndian : Bool) (bytes : List Nat) : Nat :=
  (if bigEndian then bytes else bytes.reverse).foldl (fun n b => n * 0x100 + b) 0

/-- Units of two bytes, if the bytes come out even. -/
def pairs? (bigEndian : Bool) : List Nat → Option (List Nat)
  | [] => some []
  | a :: b :: rest => (pairs? bigEndian rest).map (unit bigEndian [a, b] :: ·)
  | _ => none

/-- Units of four bytes, if the bytes come out even. -/
def quadruples? (bigEndian : Bool) : List Nat → Option (List Nat)
  | [] => some []
  | a :: b :: c :: d :: rest =>
    (quadruples? bigEndian rest).map (unit bigEndian [a, b, c, d] :: ·)
  | _ => none

/-- The code points of units, in which two halves can be a pair. -/
def join : List Nat → List CodePoint
  | [] => []
  | [unit] => [.ofNat unit]
  | high :: low :: rest =>
    match CodePoint.ofPair? high low with
    | some p => p :: join rest
    | none => .ofNat high :: join (low :: rest)

/-- The code points of bytes, if they are a text in the encoding. -/
def decode? (encoding : Encoding) (bytes : List Nat) : Option (List CodePoint) :=
  match encoding with
  | .utf8 => some ((Utf8.decode bytes).map .char)
  | .utf16 bigEndian => (pairs? bigEndian bytes).map join
  | .utf32 bigEndian => do
    let units ← quadruples? bigEndian bytes
    if units.all (· < 0x110000) then some (units.map .ofNat) else none

end Encoding

end QueryAdmission
