/-! Code points: characters, and halves of surrogate pairs. A half that stands alone is no
character, but escapes and some encodings can write one. Texts are strings in escaped form:
a half is a mark with a private-use character behind it, and the mark itself stands twice.
Escaping loses nothing (`ofEscaped_escape`), so texts with halves are compared, joined and
looked up like all others, and only what goes by code points has to take them apart. -/

namespace QueryAdmission

inductive CodePoint where
  | char (c : Char)
  /-- The half that lies `offset` above the first one. -/
  | half (offset : Fin 0x800)
  deriving DecidableEq, Repr

namespace CodePoint

/-- The first half. The upper halves of pairs lie in front of the lower ones. -/
def firstHalf : Nat := 0xd800

def firstLowHalf : Nat := 0xdc00

/-- What comes after the last half. -/
def endOfHalves : Nat := 0xe000

/-- The code point of a number below `0x110000`. -/
def ofNat (n : Nat) : CodePoint :=
  if firstHalf ≤ n ∧ n < endOfHalves then .half (Fin.ofNat 0x800 (n - firstHalf))
  else .char (Char.ofNat n)

def toNat : CodePoint → Nat
  | .char c => c.toNat
  | .half offset => firstHalf + offset

def isHalf : CodePoint → Bool
  | .char _ => false
  | .half _ => true

/-- The character that two units write together, if they are an upper and a lower half. -/
def ofPair? (high low : Nat) : Option CodePoint :=
  if firstHalf ≤ high ∧ high < firstLowHalf ∧ firstLowHalf ≤ low ∧ low < endOfHalves then
    some (.char (Char.ofNat (0x10000 + (high - firstHalf) * 0x400 + (low - firstLowHalf))))
  else none

/-- Stands in front of what stands for a half. -/
def mark : Char := '\ufdd0'

/-- The private-use character that stands for the first half. -/
def firstStandIn : Nat := 0xe000

/-- What a code point is in escaped form. -/
def escape : CodePoint → List Char
  | .char c => if c = mark then [mark, mark] else [c]
  | .half offset => [mark, Char.ofNat (firstStandIn + offset)]

/-- The code points that characters are the escaped form of. -/
def ofEscaped : List Char → List CodePoint
  | [] => []
  | [c] => [.char c]
  | c :: d :: rest =>
    if c = mark then
      (if d = mark then .char mark else .half (Fin.ofNat 0x800 (d.toNat - firstStandIn))) ::
        ofEscaped rest
    else .char c :: ofEscaped (d :: rest)

theorem toNat_standIn (offset : Fin 0x800) :
    (Char.ofNat (firstStandIn + offset)).toNat = firstStandIn + offset := by
  have hlt := offset.isLt
  have hstart : firstStandIn = 0xe000 := rfl
  have h : (firstStandIn + offset.val).isValidChar := by
    simp only [Nat.isValidChar]
    omega
  rw [Char.ofNat, dif_pos h]
  rfl

theorem standIn_ne_mark (offset : Fin 0x800) : Char.ofNat (firstStandIn + offset) ≠ mark := by
  intro h
  have h := congrArg Char.toNat h
  rw [toNat_standIn] at h
  have := offset.isLt
  have hm : mark.toNat = 0xfdd0 := rfl
  simp only [firstStandIn] at h
  omega

theorem ofEscaped_cons_of_ne {c : Char} (h : c ≠ mark) (rest : List Char) :
    ofEscaped (c :: rest) = .char c :: ofEscaped rest := by
  cases rest <;> simp [ofEscaped, h]

theorem ofEscaped_half (offset : Fin 0x800) (rest : List Char) :
    ofEscaped (mark :: Char.ofNat (firstStandIn + offset) :: rest) =
      .half offset :: ofEscaped rest := by
  rw [ofEscaped, if_pos rfl, if_neg (standIn_ne_mark offset), toNat_standIn,
    Nat.add_sub_cancel_left, Fin.ofNat_val_eq_self]

/-- Code points come back from their escaped form. -/
theorem ofEscaped_escape (points : List CodePoint) :
    ofEscaped (points.flatMap escape) = points := by
  induction points with
  | nil => rfl
  | cons p rest ih =>
    rw [List.flatMap_cons]
    cases p with
    | char c =>
      by_cases h : c = mark
      · simp [escape, ofEscaped, h, ih]
      · simp [escape, h, ofEscaped_cons_of_ne, ih]
    | half offset => exact (ofEscaped_half offset _).trans (congrArg _ ih)

end CodePoint

/-- The code points of a text. -/
def codePoints (text : String) : List CodePoint := CodePoint.ofEscaped text.toList

/-- The text of code points. -/
def textOf (points : List CodePoint) : String := String.ofList (points.flatMap CodePoint.escape)

theorem codePoints_textOf (points : List CodePoint) : codePoints (textOf points) = points := by
  rw [codePoints, textOf, String.toList_ofList, CodePoint.ofEscaped_escape]

/-- The text of characters. -/
def plainText (chars : List Char) : String := textOf (chars.map .char)

/-- Whether a text holds a lone half. -/
def hasHalf (text : String) : Bool := (codePoints text).any CodePoint.isHalf

/-- The order of code points, and of those that share a start the shorter first. -/
def CodePoint.inOrder : List CodePoint → List CodePoint → Bool
  | [], _ => true
  | _ :: _, [] => false
  | p :: ps, q :: qs => p.toNat < q.toNat || (p.toNat == q.toNat && inOrder ps qs)

/-- Whether a text comes before another one or is the same, code point by code point. -/
def comesBefore (a b : String) : Bool := CodePoint.inOrder (codePoints a) (codePoints b)

end QueryAdmission
