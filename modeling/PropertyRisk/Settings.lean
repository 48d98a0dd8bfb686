import PropertyRisk.Value
import PropertyRisk.Text.Blank
import PropertyRisk.Text.Capital

/-!
# Settings

Settings come from named texts, the names in any case; what is not named has a
default. Flags that cannot be read are reported in the order of the fields, and
only when there are none are the other fields checked.
-/

namespace PropertyRisk

structure Settings where
  databaseUrl : String := "sqlite:///riskrules.db"
  logLevel : String := "INFO"
  dedupe : Bool := true
  enforced : Bool := false
  rateLimit : String := "60/minute"
deriving DecidableEq, Repr

/-- What is wrong with the settings. -/
inductive SettingProblem
  | unreadableFlag (field : String)
  | noDatabase
  | unknownLevel
deriving DecidableEq, Repr

namespace Settings

def logLevels : List String := ["CRITICAL", "DEBUG", "ERROR", "INFO", "WARNING"]

/-- A flag is a word for yes or no, in any case. -/
def readFlag? (s : String) : Option Bool :=
  let word := Text.lowerAscii s
  if ["1", "on", "t", "true", "y", "yes"].contains word then some true
  else if ["0", "off", "f", "false", "n", "no"].contains word then some false
  else none

/-- The text under a name in any case; of several the last counts. -/
def named (name : String) (given : List (String × String)) : Option String :=
  (given.reverse.find? fun (k, _) => Text.lowerAscii k = name).map (·.2)

/-- A flag by name, with its default. -/
def flag (name : String) (default : Bool) (given : List (String × String)) :
    Except SettingProblem Bool :=
  match named name given with
  | none => .ok default
  | some s =>
    match readFlag? s with
    | some b => .ok b
    | none => .error (.unreadableFlag name)

/-- The checks of the other fields. -/
def checked (s : Settings) : Except (List SettingProblem) Settings :=
  if (Text.trimBy Text.isBlank s.databaseUrl.toList).isEmpty then .error [.noDatabase]
  else
    let level := Text.capitals s.logLevel
    if logLevels.contains level then .ok { s with logLevel := level } else .error [.unknownLevel]

def load (given : List (String × String)) : Except (List SettingProblem) Settings :=
  let standard : Settings := {}
  let dedupe := flag "dedupe_open_vulnerabilities" standard.dedupe given
  let enforced := flag "enforce_status_transitions" standard.enforced given
  match dedupe, enforced with
  | .ok dedupe, .ok enforced =>
    checked
      { databaseUrl := (named "database_url" given).getD standard.databaseUrl
        logLevel := (named "log_level" given).getD standard.logLevel
        dedupe, enforced
        rateLimit := (named "api_rate_limit" given).getD standard.rateLimit }
  | .error p, .error q => .error [p, q]
  | .error p, .ok _ | .ok _, .error p => .error [p]

def toValue (s : Settings) : Value :=
  .object [("database_url", .text s.databaseUrl), ("log_level", .text s.logLevel),
    ("dedupe_open_vulnerabilities", .bool s.dedupe),
    ("enforce_status_transitions", .bool s.enforced), ("api_rate_limit", .text s.rateLimit)]

end Settings

namespace SettingProblem

/-- The field a problem is about; empty for a check across fields. -/
def field : SettingProblem → String
  | unreadableFlag field => field
  | noDatabase | unknownLevel => ""

def kind : SettingProblem → String
  | unreadableFlag _ => "bool_parsing"
  | noDatabase | unknownLevel => "value_error"

def message? : SettingProblem → Option String
  | unreadableFlag _ => none
  | noDatabase => some "Value error, DATABASE_URL must not be empty."
  | unknownLevel =>
    some ("Value error, LOG_LEVEL must be one of: " ++ ", ".intercalate Settings.logLevels)

def toValue (p : SettingProblem) : Value :=
  .object [("field", .text p.field), ("message", .ofText? p.message?), ("type", .text p.kind)]

end SettingProblem

end PropertyRisk
