import PropertyRisk.Console.Program
import PropertyRisk.Store.Saved
import Std.Time.DateTime.Timestamp

/-!
# The command line

The files, the environment and the clock that the program works with. A database
is a file with the saved tables in it, written back when the program ends.
-/

namespace PropertyRisk.Console

/-- The text of a file, if it can be read. -/
def readText? (path : String) : IO (Option String) := do
  try return some (← IO.FS.readFile path)
  catch _ => return none

/-- Every file that one of some paths names. -/
def readTexts (paths : List String) : IO (List (String × String)) :=
  paths.filterMapM fun path => do return (← readText? path).map (path, ·)

def settingNames : List String :=
  ["DATABASE_URL", "LOG_LEVEL", "DEDUPE_OPEN_VULNERABILITIES", "ENFORCE_STATUS_TRANSITIONS",
    "API_RATE_LIMIT"]

/-- The variables that are settings, or that the settings file refers to. -/
def readEnvironment : IO (List (String × String)) := do
  let referred := Settings.File.referredNames ((← readText? ".env").getD "")
  (settingNames ++ referred).eraseDups.filterMapM fun name => do
    return (← IO.getEnv name).map (name, ·)

/-- The time, to the microsecond. -/
def readClock : IO Time.Stamp := do
  let elapsed := (← Std.Time.Timestamp.now).toNanosecondsSinceUnixEpoch.val
  match Time.Stamp.ofInstant? (Time.unixEpoch + (elapsed / 1000).toNat) with
  | some stamp => return stamp
  | none => throw (IO.userError "the clock is out of range")

/-- A supply of ids, all different from those of other runs. -/
def readSupply : IO (Nat → String) := do
  let bytes ← IO.getRandomBytes 12
  let seed := String.ofList (bytes.toList.flatMap fun b => Text.hexDigits 2 b.toNat)
  return fun n => seed ++ "-" ++ toString n

/-- Take in a database file, which is a text file if it holds no tables. -/
def withDatabaseFile (w : Workspace) (name : String) : IO Workspace := do
  match ← readText? name with
  | none => return w
  | some text =>
    match (Json.read? text).bind Tables.ofDocument? with
    | some tables => return w.withDatabase name tables
    | none => return w.withFiles [(name, text)]

def writeDatabase (w : Workspace) (name : String) : IO Unit :=
  match w.databases.get? name with
  | some tables => IO.FS.writeFile name (Json.line tables.toDocument)
  | none => return ()

def problemText (p : SettingProblem) : String :=
  p.field ++ ": " ++ p.message?.getD p.kind ++ "\n"

def ended (s : String) : String := if s = "" || s.endsWith "\n" then s else s ++ "\n"

/-- Say how a run ended, and give its code. -/
def report : Except Error Ending → IO UInt32
  | .ok (.exit e) => do
    IO.print e.out
    IO.eprint (ended e.err)
    return e.code.toUInt32
  | .ok (.misconfigured problems) => do
    IO.eprint (String.join (problems.map problemText))
    return 1
  | .error e => do
    IO.eprint (e.message?.getD "the data has a shape that cannot be worked on" ++ "\n")
    return 1

end PropertyRisk.Console

open PropertyRisk PropertyRisk.Console

def main (arguments : List String) : IO UInt32 := do
  let workspace : Workspace :=
    { files := ← readTexts (".env" :: arguments), environment := ← readEnvironment }
  let name := databaseFile? workspace arguments
  let store ← match name with
    | some name => withDatabaseFile workspace name
    | none => pure workspace
  let world : World Workspace :=
    { store, clock := ← readClock, issued := 0, idOf := ← readSupply }
  let (ending, world) := (run arguments).run world
  if let some name := name then writeDatabase world.store name
  report ending
