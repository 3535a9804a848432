import QueryAdmission.Settings
import QueryAdmission.Settings.Coercion
import QueryAdmission.Settings.Dotenv
import QueryAdmission.Text.LowerCase

/-! Where settings come from: arguments, then the environment, then a settings file, then
defaults. Each setting is taken from the first source that has it, and only tables of
costs are put together from several. The case of names does not matter. Defaults are
checked like everything else. -/

namespace QueryAdmission

/-- The two sources that hold text. -/
inductive TextSource where
  | environment
  | file
  deriving DecidableEq, Repr

/-- A step on the way to a part of a setting. -/
inductive Place where
  | name (name : String)
  | index (index : Nat)
  deriving DecidableEq, Repr

/-- A raw value that does not fit, and where it is. -/
structure Problem where
  place : List Place
  misfit : Misfit
  deriving DecidableEq, Repr

inductive SettingsError where
  /-- A structured setting is not written as JSON. -/
  | unreadable (setting : Setting) (source : TextSource)
  /-- The JSON of a structured setting opens too many brackets or braces. -/
  | tooDeep (bracket : Bool)
  | invalid (problems : List Problem)
  | cutoffBeyondDepth (cutoff maxDepth : Nat)
  deriving DecidableEq, Repr

namespace SettingsError

def sourceName : TextSource → String
  | .environment => "EnvSettingsSource"
  | .file => "DotEnvSettingsSource"

def unreadableMessage (setting : Setting) (source : TextSource) : String :=
  "error parsing value for field \"" ++ setting.name ++ "\" from source \"" ++
    sourceName source ++ "\""

def tooDeepMessage (bracket : Bool) : String :=
  "maximum recursion depth exceeded while decoding a JSON " ++
    (if bracket then "array" else "object") ++ " from a unicode string"

/-- What is said of a cutoff beyond the depth limit, if the two can be written. -/
def cutoffText (cutoff maxDepth : Nat) : Except WholeNumber.TextError String := do
  return "complexity_cutoff (" ++ (← WholeNumber.write cutoff) ++ ") must not exceed max_depth (" ++
    (← WholeNumber.write maxDepth) ++ ")"

def cutoffMessage (cutoff maxDepth : Nat) : String :=
  match cutoffText cutoff maxDepth with
  | .ok text => "Value error, " ++ text
  | .error e => "Value error, " ++ e.message

end SettingsError

namespace Settings

/-- What settings are read from. -/
structure Sources where
  arguments : List (String × Json)
  environment : List (String × String)
  file : Option String

/-- What stands in front of the names of settings in text sources, in lower case. -/
def textLead : String := "query_guard_"

/-- How text sources write a setting, in lower case. -/
def textName (setting : Setting) : String := textLead ++ setting.name

def standardValue : Setting → Json
  | .host => .string "0.0.0.0"
  | .port => .int 8000
  | .debug => .bool false
  | .enableGraphiql => .bool true
  | .maxComplexity => .int 500
  | .maxDepth => .int 10
  | .complexityCutoff => .int 7
  | .defaultFieldCost => .int 1
  | .fieldCosts => .object (CostTable.standardCosts.map fun (name, cost) =>
      (name, match cost with
        | .int n => Json.int n
        | .float x => Json.float x))
  | .resolveFragments => .bool true
  | .depthNodeBudget => .int DepthMeter.standardBudget
  | .publicQueries => .array (CacheSelector.standardPublicQueries.map Json.string)
  | .noStoreOnRejection => .bool true
  | .logLevel => .string "INFO"
  | .logEvaluations => .bool false

namespace Sources

/-- The brackets and braces that can be open at once in the JSON of text sources. -/
def nestingLimit : Nat := 985

/-- The argument for a setting: of several that differ in case the first. -/
def argument? (arguments : List (String × Json)) (setting : Setting) : Option Json :=
  (arguments.find? fun (name, _) => lowerCase name == setting.name).map Prod.snd

/-- The entries of a text source by their names in lower case. -/
def lowerNames (entries : List (String × Option String)) : List (String × Option String) :=
  putMembers [] (entries.map fun (name, value) => (lowerCase name, value))

/-- The raw value that a text source has for a setting, its names being in lower case. A JSON
null counts as none. -/
def textSetting (source : TextSource) (entries : List (String × Option String))
    (setting : Setting) : Except SettingsError (Option Json) :=
  match (entries.lookup (textName setting)).join with
  | none => .ok none
  | some text =>
    if setting.isStructured then
      match Json.read nestingLimit text with
      | .error (.tooDeep bracket) => .error (.tooDeep bracket)
      | .error _ => .error (.unreadable setting source)
      | .ok .null => .ok none
      | .ok json => .ok (some json)
    else .ok (some (.string text))

/-- A raw value over one of a lower source: members of tables add up. -/
def layer (high low : Option Json) : Option Json :=
  match high, low with
  | some (.object members), some (.object under) =>
    some (.object (putMembers under members))
  | some json, _ => some json
  | none, _ => low

/-- All raw values of a text source. -/
def textSettings (source : TextSource) (entries : List (String × Option String)) :
    Except SettingsError (List (Setting × Option Json)) :=
  Setting.all.mapM fun setting => do return (setting, ← textSetting source entries setting)

/-- Whether an argument is for no setting. -/
def isUnknownArgument (name : String) : Bool :=
  Setting.all.all fun setting => lowerCase name != setting.name

/-- Whether an entry of the settings file is out of place: it has a value, and its name, in
lower case, is not that of a setting, with or without what text sources put in front. -/
def isUnknownEntry (entry : String × Option String) : Bool :=
  !(entry.2.getD "").isEmpty &&
    Setting.all.all fun setting => entry.1 != setting.name && entry.1 != textName setting

/-- The names that no setting has: arguments as they are, entries of the file in lower
case. -/
def unknownNames (arguments : List (String × Json)) (file : List (String × Option String)) :
    List String :=
  ((arguments.map Prod.fst).filter isUnknownArgument ++
    (file.filter isUnknownEntry).map Prod.fst).eraseDups

/-- The raw value of every setting that a source has, and the names out of place. -/
def gather (s : Sources) : Except SettingsError ((Setting → Option Json) × List String) := do
  let environment := lowerNames (s.environment.map fun (k, v) => (k, some v))
  let file := lowerNames ((s.file.map (Dotenv.read s.environment)).getD [])
  let fromEnvironment ← textSettings .environment environment
  let fromFile ← textSettings .file file
  let raw (setting : Setting) : Option Json :=
    layer (layer (argument? s.arguments setting) (fromEnvironment.lookup setting).join)
      (fromFile.lookup setting).join
  return (raw, unknownNames s.arguments file)

end Sources

/-- A value, or all that is wrong with it. -/
abbrev Checked (α : Type) := Except (List Problem) α

/-- A name as places show it: a lone half as three replacement characters, one for each byte
that it would have. -/
def placeName (name : String) : String :=
  textOf ((codePoints name).flatMap fun p =>
    if p.isHalf then List.replicate 3 (.char '\ufffd') else [p])

/-- Checks a raw value at a place. -/
def check {α : Type} (place : List Place) (coerce : Json → Except Misfit α) (raw : Json) :
    Checked α :=
  match coerce raw with
  | .ok a => .ok a
  | .error misfit => .error [⟨place, misfit⟩]

def toNonNegative (raw : Json) : Except Misfit NonNegative := do
  let x ← Coercion.toFloat raw
  if h : (Quantity.float x).isNonNegative = true then .ok ⟨x, h⟩ else .error .belowMinimum

def toNat (raw : Json) : Except Misfit Nat := do
  let n ← Coercion.toInt raw
  if n < 0 then .error .belowMinimum else .ok n.toNat

def toPositive (raw : Json) : Except Misfit { n : Nat // 0 < n } := do
  let n ← Coercion.toInt raw
  if h : 0 < n then .ok ⟨n.toNat, DepthMeter.toNat_pos h⟩ else .error .notAboveMinimum

def problemsOf {α : Type} : Checked α → List Problem
  | .ok _ => []
  | .error problems => problems

/-- Checks all parts, and finds everything that is wrong with them. -/
def checkAll {α : Type} (parts : List (Checked α)) : Checked (List α) :=
  match parts.flatMap problemsOf with
  | [] => parts.mapM id
  | problems => .error problems

def checkCosts (place : List Place) : Json → Checked (List (String × Binary64))
  | .object members => checkAll (members.map fun (name, raw) =>
      (check (place ++ [.name (placeName name)]) Coercion.toFloat raw).map (name, ·))
  | _ => .error [⟨place, .dictType⟩]

def checkTexts (place : List Place) : Json → Checked (List String)
  | .array items => checkAll (items.zipIdx.map fun (raw, i) =>
      check (place ++ [.index i]) Coercion.toText raw)
  | _ => .error [⟨place, .listType⟩]

def settle {α : Type} : Checked α → Except SettingsError α
  | .ok a => .ok a
  | .error problems => .error (.invalid problems)

/-- Reads the settings. Arguments whose names hold lone halves are looked at no further. All
values that do not fit are reported together, and only if there are none is the cutoff
held against the depth limit. -/
def load (sources : Sources) : Except SettingsError Settings := do
  let (given, unknown) ← sources.gather
  if sources.arguments.any fun (name, _) => hasHalf name then
    .error (.invalid [⟨[], .stringUnicode⟩])
  let raw (setting : Setting) : Json := (given setting).getD (standardValue setting)
  let place (setting : Setting) : List Place := [.name setting.name]
  let plain {α : Type} (setting : Setting) (coerce : Json → Except Misfit α) : Checked α :=
    check (place setting) coerce (raw setting)
  let host := plain .host Coercion.toText
  let port := plain .port Coercion.toInt
  let debug := plain .debug Coercion.toBool
  let enableGraphiql := plain .enableGraphiql Coercion.toBool
  let maxComplexity := plain .maxComplexity toNonNegative
  let maxDepth := plain .maxDepth toNat
  let complexityCutoff := plain .complexityCutoff toNat
  let defaultFieldCost := plain .defaultFieldCost toNonNegative
  let fieldCosts := checkCosts (place .fieldCosts) (raw .fieldCosts)
  let resolveFragments := plain .resolveFragments Coercion.toBool
  let depthNodeBudget := plain .depthNodeBudget toPositive
  let publicQueries := checkTexts (place .publicQueries) (raw .publicQueries)
  let noStoreOnRejection := plain .noStoreOnRejection Coercion.toBool
  let logLevel := plain .logLevel Coercion.toText
  let logEvaluations := plain .logEvaluations Coercion.toBool
  let problems := problemsOf host ++ problemsOf port ++ problemsOf debug ++
    problemsOf enableGraphiql ++ problemsOf maxComplexity ++ problemsOf maxDepth ++
    problemsOf complexityCutoff ++ problemsOf defaultFieldCost ++ problemsOf fieldCosts ++
    problemsOf resolveFragments ++ problemsOf depthNodeBudget ++ problemsOf publicQueries ++
    problemsOf noStoreOnRejection ++ problemsOf logLevel ++ problemsOf logEvaluations ++
    unknown.map fun name => ⟨[.name name], .unknownName⟩
  if !problems.isEmpty then .error (.invalid problems)
  let maxDepth ← settle maxDepth
  let complexityCutoff ← settle complexityCutoff
  let budget ← settle depthNodeBudget
  if h : complexityCutoff ≤ maxDepth then
    return {
      host := ← settle host
      port := ← settle port
      debug := ← settle debug
      enableGraphiql := ← settle enableGraphiql
      maxComplexity := ← settle maxComplexity
      maxDepth
      complexityCutoff
      defaultFieldCost := ← settle defaultFieldCost
      fieldCosts := ← settle fieldCosts
      resolveFragments := ← settle resolveFragments
      depthNodeBudget := budget
      publicQueries := ← settle publicQueries
      noStoreOnRejection := ← settle noStoreOnRejection
      logLevel := ← settle logLevel
      logEvaluations := ← settle logEvaluations
      budget_pos := budget.2
      cutoff_le := h }
  else .error (.cutoffBeyondDepth complexityCutoff maxDepth)

end Settings

end QueryAdmission
