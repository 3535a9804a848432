import QueryAdmission.Metrics
import QueryAdmission.Number.Numeral

/-! The metrics as text, one line for each number: a running total is one line, a histogram
has one for each bucket, its count and its sum. -/

namespace QueryAdmission

/-- A number of the exposition. From one million on, what would be written positionally
gets an exponent of two digits. -/
def Binary64.exposed (x : Binary64) : String :=
  match x with
  | .nan => "NaN"
  | .infinite negative => if negative then "-Inf" else "+Inf"
  | .finite _ _ _ _ =>
    let text := x.text.toList
    let whole := text.takeWhile Numeral.isDigit
    match whole, text.drop whole.length with
    | first :: others, '.' :: fraction =>
      if whole.length ≤ 6 then x.text
      else
        let digits := FloatLayout.dropTrailingZeros (others ++ fraction)
        let mantissa := if digits.isEmpty then [first] else first :: '.' :: digits
        let power := others.length
        String.ofList mantissa ++ (if power < 10 then "e+0" else "e+") ++ toString power
    | _, _ => x.text

namespace Metrics

/-- One line: a name, labels in braces, and a number. -/
def line (name : String) (labels : List (String × String)) (value : Binary64) : String :=
  let shown := labels.map fun (key, value) => key ++ "=\"" ++ value ++ "\""
  name ++ "\x7b" ++ ",".intercalate shown ++ "\x7d " ++ value.exposed

end Metrics

namespace Sample

/-- The lines of a value, each with its name in front of the labels. -/
def lines (s : Sample) : List (String × String) :=
  let line (name : String) (labels : List (String × String)) (value : Binary64) :=
    (name, Metrics.line name labels value)
  match s.value with
  | .total n => [line s.name s.labels (.ofInt n)]
  | .histogram bounds h =>
    let tops := bounds.map (fun (b : Nat) => Binary64.ofInt b) ++ [.infinite false]
    let bucket (top : Binary64) (n : Nat) :=
      line (s.name ++ "_bucket") (("le", top.exposed) :: s.labels) (.ofInt n)
    tops.zipWith bucket h.cumulative ++
      [line (s.name ++ "_count") s.labels (.ofInt h.count),
        line (s.name ++ "_sum") s.labels h.sum]

end Sample

/-- The lines with one of the names, sorted; all lines if no name is asked for. -/
def Metrics.lines (m : Metrics) (names : List String) : List String :=
  let wanted := (m.samples.flatMap Sample.lines).filter fun (name, _) =>
    names.isEmpty || names.contains name
  (wanted.map Prod.snd).mergeSort (· ≤ ·)

end QueryAdmission
