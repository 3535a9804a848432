import QueryAdmission.Json
import QueryAdmission.Text.Cut
import QueryAdmission.Text.Encoding

/-! Targets of calls: perhaps a scheme and a host, then a path, parameters after a question
mark, and perhaps a fragment after a number sign, which is for the caller alone. Bytes can
be written in two hexadecimal digits after a percent sign. -/

namespace QueryAdmission

/-- What a call is aimed at. -/
structure Target where
  path : String
  parameters : List (String × String)

namespace Target

/-- The bytes of a text whose percent signs are resolved. -/
def bytes : List CodePoint → List Nat
  | .char '%' :: .char a :: .char b :: rest =>
    match Json.hexDigit? a, Json.hexDigit? b with
    | some high, some low => (high * 16 + low) :: bytes rest
    | _, _ => '%'.toNat :: bytes (.char a :: .char b :: rest)
  | p :: rest => utf8 p ++ bytes rest
  | [] => []

/-- Resolves percent signs. -/
def decode (text : List Char) : String :=
  plainText (Utf8.decode (bytes (CodePoint.ofEscaped text)))

/-- A name and a value; a plus sign is a blank, and without an equals sign the value is empty. -/
def parameter (text : List Char) : String × String :=
  let plain := text.map fun c => if c = '+' then ' ' else c
  let name := plain.takeWhile (· != '=')
  (decode name, decode (plain.drop (name.length + 1)))

def isSchemeChar (c : Char) : Bool := c.isAlphanum || c == '+' || c == '-' || c == '.'

/-- A scheme, which its colon parts from what follows, and the rest. -/
def splitScheme (text : List Char) : List Char × List Char :=
  let word := text.takeWhile isSchemeChar
  match text.drop word.length with
  | ':' :: rest => if word.isEmpty || word.head?.any Char.isAlpha then (word, rest) else ([], text)
  | _ => ([], text)

/-- What stands between two slashes and the path, and the rest. -/
def splitAuthority : List Char → List Char × List Char
  | '/' :: '/' :: rest => rest.span fun c => c != '/' && c != '?'
  | text => ([], text)

/-- The host of an authority, which can have a user in front of it and a port behind it. -/
def host (authority : List Char) : List Char :=
  (authority.reverse.takeWhile (· != '@')).reverse.takeWhile (· != ':')

/-- The parts of a path with the dots resolved: one stands for the place itself, two for the
place above, of which the root has none. -/
def resolveDots (parts : List (List Char)) : List (List Char) :=
  parts.foldl (fun done part =>
    if part = ['.'] then done
    else if part = ['.', '.'] then (if done = [[]] then done else done.dropLast)
    else done ++ [part]) []

/-- A path with the dots resolved. -/
def tidyPath (path : List Char) : List Char := ['/'].intercalate (resolveDots (cut '/' path))

/-- The path that a target leads to. With a scheme and a host it is the whole way. Otherwise it
is the way from the root, however many slashes it starts with; dots in it are resolved from
the root, and before that on their own if anything stands in front of the path. -/
def pathFrom (scheme authority path : List Char) : List Char :=
  if !scheme.isEmpty && !(host authority).isEmpty then tidyPath path
  else
    let isBare := scheme.isEmpty && authority.all fun c => c == ':' || c == '@'
    let path := if isBare then path else tidyPath path
    tidyPath ('/' :: path.dropWhile (· == '/'))

/-- Reads a target. A path without anything is the root. Percent signs in it are resolved by the
caller and again by the one who is called, those in parameters only once. -/
def read (text : String) : Target :=
  let (scheme, rest) := splitScheme (text.toList.takeWhile (· != '#'))
  let (authority, rest) := splitAuthority rest
  let (path, query) := rest.span (· != '?')
  let parts := (cut '&' (query.drop 1)).filter (!·.isEmpty)
  let path := pathFrom scheme authority path
  ⟨decode (decode (if path.isEmpty then ['/'] else path)).toList, parts.map parameter⟩

end Target

end QueryAdmission
