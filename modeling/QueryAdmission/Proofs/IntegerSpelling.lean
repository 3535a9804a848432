import Mathlib.Data.List.TakeWhile
import Mathlib.Tactic.IntervalCases
import QueryAdmission.Syntax.Token

/-! # How documents write whole numbers

In a document a whole number is a minus or nothing, and then digits. What is written so is
never malformed: it can be read unless it has too many digits. No name is empty. -/

namespace QueryAdmission

namespace WholeNumber

/-- The text is a minus or nothing, and then at least one digit. -/
def IsPlain (text : String) : Prop :=
  ∃ sign digits : List Char, (sign = [] ∨ sign = ['-']) ∧ digits ≠ [] ∧
    (∀ c ∈ digits, Numeral.isDigit c = true) ∧ text = String.ofList (sign ++ digits)

/-- How many digits a text has. -/
def digitCount (text : String) : Nat := text.toList.countP Numeral.isDigit

/-! ## Digits -/

theorem mem_of_isDigit {c : Char} (h : Numeral.isDigit c = true) :
    c ∈ ['0', '1', '2', '3', '4', '5', '6', '7', '8', '9'] := by
  have hrange : '0' ≤ c ∧ c ≤ '9' := by
    unfold Numeral.isDigit Numeral.digit? at h
    split at h
    · assumption
    · cases h
  have hlow : 48 ≤ c.toNat := hrange.1
  have hhigh : c.toNat ≤ 57 := hrange.2
  have hc : c = Char.ofNat c.toNat := (Char.ofNat_toNat c).symm
  generalize c.toNat = n at hc hlow hhigh
  subst hc
  interval_cases n <;> decide

/-- A digit is a decimal digit of a script, and no blank and no separator. -/
theorem decimalDigit?_of_isDigit {c : Char} (h : Numeral.isDigit c = true) :
    (decimalDigit? c).isSome = true ∧ isBlank c = false ∧ c ≠ '_' ∧ c ≠ '-' ∧ c ≠ '+' := by
  -- as a boolean, since to decide for all characters would try them all
  have hall : ['0', '1', '2', '3', '4', '5', '6', '7', '8', '9'].all (fun d =>
      (decimalDigit? d).isSome && !isBlank d && d != '_' && d != '-' && d != '+') = true := by
    decide
  have hc := List.all_eq_true.mp hall c (mem_of_isDigit h)
  simpa only [Bool.and_eq_true, Bool.not_eq_true', bne_iff_ne, ne_eq, and_assoc] using hc

theorem cut_of_notMem {separator : Char} {text : List Char} (h : separator ∉ text) :
    cut separator text = [text] := by
  induction text with
  | nil => rfl
  | cons c rest ih =>
    rw [List.mem_cons, not_or] at h
    rw [cut, if_neg (Ne.symm h.1), ih h.2]

theorem mapM_decimalDigit? {digits : List Char}
    (h : ∀ c ∈ digits, (decimalDigit? c).isSome = true) :
    ∃ values, digits.mapM decimalDigit? = some values ∧ values.length = digits.length := by
  induction digits with
  | nil => exact ⟨[], rfl, rfl⟩
  | cons c rest ih =>
    obtain ⟨value, hvalue⟩ := Option.isSome_iff_exists.mp (h c List.mem_cons_self)
    obtain ⟨values, hvalues, hlength⟩ := ih fun d hd => h d (List.mem_cons_of_mem c hd)
    refine ⟨value :: values, ?_, by rw [List.length_cons, List.length_cons, hlength]⟩
    rw [List.mapM_cons, hvalue, hvalues]
    rfl

theorem digits?_of_isDigit {digits : List Char} (hne : digits ≠ [])
    (h : ∀ c ∈ digits, Numeral.isDigit c = true) :
    ∃ values, digits? digits = some values ∧ values.length = digits.length := by
  obtain ⟨values, hvalues, hlength⟩ :=
    mapM_decimalDigit? fun c hc => (decimalDigit?_of_isDigit (h c hc)).1
  have hseparator : '_' ∉ digits := fun hmem =>
    (decimalDigit?_of_isDigit (h '_' hmem)).2.2.1 rfl
  refine ⟨values, ?_, hlength⟩
  have hempty : digits.isEmpty = false := by simpa using hne
  simp only [digits?, cut_of_notMem hseparator, List.mapM_cons, List.mapM_nil, hempty, hvalues]
  simp [bind, pure]

theorem dropWhile_isBlank {text : List Char} (h : ∀ c ∈ text, isBlank c = false) :
    text.dropWhile isBlank = text := by
  cases text with
  | nil => rfl
  | cons c rest => rw [List.dropWhile_cons_of_neg (by simp [h c List.mem_cons_self])]

theorem trimBlanks_of_isBlank {text : List Char} (h : ∀ c ∈ text, isBlank c = false) :
    trimBlanks text = text := by
  have hreverse : ∀ c ∈ text.reverse, isBlank c = false := fun c hc => h c (List.mem_reverse.mp hc)
  rw [trimBlanks, dropWhile_isBlank h, dropWhile_isBlank hreverse, List.reverse_reverse]

theorem splitSign_of_isDigit {sign digits : List Char} (hsign : sign = [] ∨ sign = ['-'])
    (h : ∀ c ∈ digits, Numeral.isDigit c = true) :
    splitSign (sign ++ digits) = (!sign.isEmpty, digits) := by
  rcases hsign with rfl | rfl
  · cases digits with
    | nil => rfl
    | cons c rest =>
      obtain ⟨_, _, _, hminus, hplus⟩ := decimalDigit?_of_isDigit (h c List.mem_cons_self)
      rw [List.nil_append, splitSign]
      · rfl
      · rintro _ ⟨⟩
        exact hminus rfl
      · rintro _ ⟨⟩
        exact hplus rfl
  · rfl

/-- What is written plainly reads as a whole number, or has too many digits. -/
theorem read_of_isPlain {text : String} (h : IsPlain text) :
    (digitLimit < digitCount text ∧ read text = .error (.tooLong (digitCount text))) ∨
      (digitCount text ≤ digitLimit ∧ ∃ n, read text = .ok n) := by
  obtain ⟨sign, digits, hsign, hne, hdigits, rfl⟩ := h
  obtain ⟨values, hvalues, hlength⟩ := digits?_of_isDigit hne hdigits
  have hcount : digitCount (String.ofList (sign ++ digits)) = digits.length := by
    rw [digitCount, String.toList_ofList, List.countP_append, List.countP_eq_length.mpr hdigits]
    rcases hsign with rfl | rfl
    · rw [List.countP_nil, Nat.zero_add]
    · rw [show ['-'].countP Numeral.isDigit = 0 from by decide, Nat.zero_add]
  have hblank : ∀ c ∈ sign ++ digits, isBlank c = false := by
    intro c hc
    rcases List.mem_append.mp hc with hc | hc
    · rcases hsign with rfl | rfl
      · cases hc
      · rw [List.mem_singleton.mp hc]
        decide
    · exact (decimalDigit?_of_isDigit (hdigits c hc)).2.1
  have hparts : ∀ c ∈ digits, isDigitPart c = true := by
    intro c hc
    rw [isDigitPart, (decimalDigit?_of_isDigit (hdigits c hc)).1, Bool.or_true]
  have hread : read (String.ofList (sign ++ digits)) =
      if digitLimit < values.length then .error (.tooLong values.length)
      else .ok (if !sign.isEmpty then -(ofDigits values : Int) else ofDigits values) := by
    simp only [read, String.toList_ofList, trimBlanks_of_isBlank hblank,
      splitSign_of_isDigit hsign hdigits, List.takeWhile_eq_self_iff.mpr hparts,
      List.dropWhile_eq_nil_iff.mpr hparts, hvalues, List.isEmpty_nil, Bool.not_true,
      Bool.false_eq_true, if_false]
  rw [hread, hcount, ← hlength]
  split
  · exact .inl ⟨‹_›, rfl⟩
  · exact .inr ⟨by omega, _, rfl⟩

/-- Of what is written plainly, too many digits are all that cannot be read. -/
theorem read_fails_iff {text : String} (h : IsPlain text) :
    (∃ e, read text = .error e) ↔ digitLimit < digitCount text := by
  rcases read_of_isPlain h with ⟨hlong, hread⟩ | ⟨hshort, n, hread⟩
  · exact ⟨fun _ => hlong, fun _ => ⟨_, hread⟩⟩
  · rw [hread]
    refine ⟨?_, fun hlong => by omega⟩
    rintro ⟨_, ⟨⟩⟩

end WholeNumber

/-! ## Words of a document -/

namespace Token

open WholeNumber

theorem digits?_eq_some {text digits rest : List Char} (h : digits? text = some (digits, rest)) :
    digits ≠ [] ∧ ∀ c ∈ digits, Numeral.isDigit c = true := by
  simp only [digits?] at h
  split at h
  · cases h
  · rename_i hne
    obtain ⟨rfl, _⟩ := Prod.mk.inj (Option.some.inj h)
    exact ⟨by simpa using hne, fun c hc => List.mem_takeWhile_imp hc⟩

theorem wholePart?_eq_some {text whole rest : List Char}
    (h : wholePart? text = some (whole, rest)) :
    whole ≠ [] ∧ ∀ c ∈ whole, Numeral.isDigit c = true := by
  obtain ⟨⟨digits, after⟩, hdigits, h⟩ := Option.bind_eq_some_iff.mp h
  simp only at h
  split at h
  · cases h
  · obtain ⟨rfl, _⟩ := Prod.mk.inj (Option.some.inj h)
    exact digits?_eq_some hdigits

/-- A whole number is written plainly, and a name is not empty. -/
def IsPlain : Token → Prop
  | .int spelling => WholeNumber.IsPlain spelling
  | .name text => text ≠ ""
  | _ => True

/-- A number after its sign and its whole part is plain, whatever follows. -/
theorem isPlain_of_parts {sign whole fraction power : List Char}
    (hsign : sign = [] ∨ sign = ['-']) (hwhole : whole ≠ [])
    (hdigits : ∀ c ∈ whole, Numeral.isDigit c = true) :
    (if fraction.isEmpty && power.isEmpty then
        Token.int (String.ofList (sign ++ whole ++ fraction ++ power))
      else .float (String.ofList (sign ++ whole ++ fraction ++ power))).IsPlain := by
  split
  · rename_i hempty
    rw [Bool.and_eq_true, List.isEmpty_iff, List.isEmpty_iff] at hempty
    obtain ⟨rfl, rfl⟩ := hempty
    refine ⟨sign, whole, hsign, hwhole, hdigits, ?_⟩
    rw [List.append_nil, List.append_nil]
  · trivial

theorem number?_isPlain {text rest : List Char} {word : Token}
    (h : number? text = some (word, rest)) : word.IsPlain := by
  unfold number? at h
  split at h
  rename_i sign unsigned hsplit
  have hsign : sign = [] ∨ sign = ['-'] := by
    split at hsplit
    · exact .inr (Prod.mk.inj hsplit).1.symm
    · exact .inl (Prod.mk.inj hsplit).1.symm
  obtain ⟨⟨whole, afterWhole⟩, hwhole, h⟩ := Option.bind_eq_some_iff.mp h
  obtain ⟨⟨fraction, afterFraction⟩, _, h⟩ := Option.bind_eq_some_iff.mp h
  obtain ⟨⟨power, afterPower⟩, _, h⟩ := Option.bind_eq_some_iff.mp h
  obtain ⟨hne, hdigits⟩ := wholePart?_eq_some hwhole
  simp only at h
  split at h
  · cases h
  · rw [← (Prod.mk.inj (Option.some.inj h)).1]
    exact isPlain_of_parts hsign hne hdigits

/-- All words are plain. -/
def Plain (words : List Token) : Prop := ∀ word ∈ words, word.IsPlain

theorem Plain.cons {word : Token} {words : List Token} (h : Plain words)
    (hword : word.IsPlain) : Plain (word :: words) :=
  List.forall_mem_cons.mpr ⟨hword, h⟩

/-- A name that starts with a character is not empty. -/
theorem isPlain_name (c : Char) (tail : List Char) :
    (Token.name (String.ofList (c :: tail))).IsPlain := by
  intro h
  have hchars := congrArg String.toList h
  rw [String.toList_ofList] at hchars
  cases hchars

theorem scan?_plain (fuel : Nat) (text : List Char) (done : List Token) {words : List Token}
    (h : scan? fuel text done = some words) (hdone : Plain done) : Plain words := by
  induction fuel generalizing text done with
  | zero => cases h
  | succ fuel ih =>
    unfold scan? at h
    split at h
    · obtain rfl := Option.some.inj h
      exact fun word hmem => hdone word (List.mem_reverse.mp hmem)
    · exact ih _ _ h (hdone.cons trivial)
    · obtain ⟨⟨lines, rest⟩, _, h⟩ := Option.bind_eq_some_iff.mp h
      exact ih _ _ h (hdone.cons trivial)
    · obtain ⟨⟨line, rest⟩, _, h⟩ := Option.bind_eq_some_iff.mp h
      exact ih _ _ h (hdone.cons trivial)
    · exact ih _ _ h hdone
    · split at h
      · exact ih _ _ h hdone
      split at h
      · exact ih _ _ h (hdone.cons trivial)
      split at h
      · exact ih _ _ h (hdone.cons (isPlain_name _ _))
      split at h
      · obtain ⟨⟨number, rest⟩, hnumber, h⟩ := Option.bind_eq_some_iff.mp h
        exact ih _ _ h (hdone.cons (number?_isPlain hnumber))
      · cases h

/-- The words of a document are plain. -/
theorem ofText?_plain {text : String} {words : List Token} (h : ofText? text = some words) :
    Plain words := by
  unfold ofText? at h
  split at h
  · cases h
  · exact scan?_plain _ _ _ h (List.forall_mem_nil _)

/-! ### Digits in front of a bracket -/

variable {first : Char} {digits : List Char}

/-- Digits that a bracket follows are read as one number, unless a zero is in front. -/
theorem number?_of_isDigit (hzero : first ≠ '0')
    (h : ∀ c ∈ first :: digits, Numeral.isDigit c = true) (rest : List Char) :
    number? (first :: digits ++ ')' :: rest) =
      some (.int (String.ofList (first :: digits)), ')' :: rest) := by
  have htake : (first :: digits ++ ')' :: rest).takeWhile Numeral.isDigit = first :: digits := by
    rw [List.takeWhile_append_of_pos h, List.takeWhile_cons_of_neg (by decide), List.append_nil]
  have hwhole : wholePart? (first :: digits ++ ')' :: rest) =
      some (first :: digits, ')' :: rest) := by
    simp only [wholePart?, digits?, htake, List.isEmpty_cons, Bool.false_eq_true, if_false,
      List.drop_left, bind, Option.bind_some]
    split
    · rename_i he
      exact absurd (List.cons.inj he).1 hzero
    · rfl
  have hminus : first ≠ '-' :=
    (decimalDigit?_of_isDigit (h first List.mem_cons_self)).2.2.2.1
  unfold number?
  split
  rename_i sign unsigned hsplit
  split at hsplit
  · rename_i he
    exact absurd (List.cons.inj he).1 hminus
  · obtain ⟨rfl, rfl⟩ := Prod.mk.inj hsplit
    rw [hwhole]
    show some (Token.int (String.ofList ([] ++ (first :: digits) ++ [] ++ [])), ')' :: rest) = _
    rw [List.nil_append, List.append_nil, List.append_nil]

theorem scan?_of_isDigit (hzero : first ≠ '0')
    (h : ∀ c ∈ first :: digits, Numeral.isDigit c = true) (fuel : Nat) (rest : List Char)
    (done : List Token) :
    scan? (fuel + 1) (first :: digits ++ ')' :: rest) done =
      scan? fuel (')' :: rest) (.int (String.ofList (first :: digits)) :: done) := by
  have hscan : scan? (fuel + 1) (first :: digits ++ ')' :: rest) done =
      (number? (first :: digits ++ ')' :: rest)).bind fun found =>
        scan? fuel found.2 (found.1 :: done) := by
    have hfirst := mem_of_isDigit (h first List.mem_cons_self)
    simp only [List.mem_cons, List.not_mem_nil, or_false] at hfirst
    rcases hfirst with rfl | rfl | rfl | rfl | rfl | rfl | rfl | rfl | rfl | rfl <;> rfl
  rw [hscan, number?_of_isDigit hzero h, Option.bind_some]

/-- A text without the mark of escaped halves has none of them. -/
theorem hasHalf_of_notMem {text : List Char} (h : CodePoint.mark ∉ text) :
    hasHalf (String.ofList text) = false := by
  have hpoints : CodePoint.ofEscaped text = text.map .char := by
    induction text with
    | nil => rfl
    | cons c rest ih =>
      rw [List.mem_cons, not_or] at h
      rw [CodePoint.ofEscaped_cons_of_ne (Ne.symm h.1), ih h.2, List.map_cons]
  rw [hasHalf, codePoints, String.toList_ofList, hpoints, List.any_map]
  exact List.any_eq_false.mpr fun _ _ h => by cases h

theorem ofText?_ofList {text : List Char} (h : CodePoint.mark ∉ text) :
    ofText? (String.ofList text) = scan? (text.length + 1) text [] := by
  simp only [ofText?, hasHalf_of_notMem h, String.toList_ofList, Bool.false_eq_true, if_false]

end Token

end QueryAdmission
