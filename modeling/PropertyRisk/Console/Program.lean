import PropertyRisk.Console.Invocation
import PropertyRisk.Console.Workspace
import PropertyRisk.Engine.Call
import PropertyRisk.Json.Reader
import PropertyRisk.Json.Writer

/-!
# The command-line program

The program tests a rule on files of observations, writes a stored rule in plain
words, records and processes an assessment, or re-evaluates a property. It ends
with 0, with 1 when part of the work failed or a file could not be read, and
with 2 when it was called wrongly or the engine refused.

Where a text would go on with the database's own words, it ends there.
-/

namespace PropertyRisk.Console

structure Exit where
  code : Nat
  out : String := ""
  err : String := ""
deriving DecidableEq, Repr

/-- How a run of the program ends, if it is not cut short by a fault. -/
inductive Ending
  | exit (e : Exit)
  | misconfigured (problems : List SettingProblem)
deriving DecidableEq, Repr

/-- The text up to and including the first occurrence of another. -/
def upTo (mark : List Char) : List Char → List Char
  | [] => []
  | c :: rest => if mark.isPrefixOf (c :: rest) then mark else c :: upTo mark rest

/-- End a text after the first message that stands for the database's words. -/
def elide (failures : List StorageFailure) (text : String) : String :=
  match failures.find? (·.cause = .database) with
  | none => text
  | some f => String.ofList (upTo f.message.toList text.toList)

open Engine

/-- Why a file could not be used. -/
inductive FileError
  | message (text : String)
  | fault (f : Fault)
deriving DecidableEq, Repr

def readJson (w : Workspace) (path : String) : Except FileError Value :=
  match w.lookUp path with
  | .error f => .error (.fault f)
  | .ok none => .error (.message ("  [!] '" ++ path ++ "' is not a readable file."))
  | .ok (some text) =>
    match Json.read text with
    | .ok v => .ok v
    | .error .malformed => .error (.message ("  [!] '" ++ path ++ "' is not valid JSON"))
    | .error .tooLong => .error (.fault .wrongContent)
    | .error .tooDeep => .error (.fault .tooDeep)

/-- The observations of a document, given bare or under `observations`. -/
def observationsIn (v : Value) : Value :=
  match v with
  | .object fields => (Value.field? "observations" fields).getD (.list [])
  | v => v

/-- The tree of a rule document, given bare or under `functional_rule`. -/
def treeIn (v : Value) : Value :=
  match v with
  | .object fields => (Value.field? "functional_rule" fields).getD v
  | v => v

def lines (ls : List String) : String := String.join (ls.map (· ++ "\n"))

/-! ## Commands -/

def trialRecord (path : String) (t : RuleTrial) : Value :=
  .object [("case", .text path), ("triggered", .bool t.triggered),
    ("observations", Observation.listToValue t.observations)]

def trialLine (path : String) (t : RuleTrial) : String :=
  "  " ++ (if t.triggered then "TRIGGERED" else "clear    ") ++ "  " ++ path

def trialText (json : Bool) (paths : List String) (trials : List RuleTrial) : String :=
  if json then Json.pretty (.list (List.zipWith trialRecord paths trials)) ++ "\n"
  else lines (List.zipWith trialLine paths trials)

def testRule (w : Workspace) (rule : String) (cases : List String) (json : Bool) :
    Except FileError (Except Error Exit) := do
  let document ← readJson w rule
  let observations ← cases.mapM fun path => observationsIn <$> readJson w path
  match Rules.test (treeIn document) (.list observations) with
  | .error e => return .error e
  | .ok trials => return .ok ⟨0, trialText json cases trials, ""⟩

def reportLines (r : ProcessReport) : List String :=
  ["  Assessment " ++ r.assessmentId.plain, "  Rules evaluated:  " ++ toString r.evaluated,
    "  Rules triggered:  " ++ toString r.triggered.length] ++
  r.created.map (fun v =>
    "    + vulnerability " ++ v.id.plain ++ " (rule " ++ v.ruleId.plain ++ ")") ++
  (if r.skipped = 0 then [] else ["  Skipped (already open): " ++ toString r.skipped]) ++
  r.errors.map fun f => "  [!] rule " ++ f.itemId.plain ++ ": " ++ f.failure.message

def failureCode (errors : List ItemFailure) : Nat := if errors.isEmpty then 0 else 1

def reportExit (json : Bool) (r : ProcessReport) : Exit :=
  let text := if json then Json.pretty (Record.processReport r) ++ "\n" else lines (reportLines r)
  ⟨failureCode r.errors, elide (r.errors.map ItemFailure.failure) text, ""⟩

def reevaluationLines (r : Reevaluation) : List String :=
  ("  Property " ++ r.propertyId.plain ++ ": " ++ toString r.checked ++ " checked, " ++
    toString r.removed ++ " removed") ::
  if r.orphaned.isEmpty then []
  else ["  " ++ toString r.orphaned.length ++ " vulnerabilities reference a deleted rule"]

def reevaluationExit (json : Bool) (r : Reevaluation) : Exit :=
  let text :=
    if json then Json.pretty (Record.reevaluation r) ++ "\n" else lines (reevaluationLines r)
  ⟨failureCode r.errors, elide (r.errors.map ItemFailure.failure) text, ""⟩

/-- Record an assessment and process it, at a time if one is asked for. -/
def process (policy : Policy) (observations : Value) (propertyId : Int)
    (assessedAt time : Option String) (pointInTime : Bool) (g : Storage σ) : Op σ ProcessReport := do
  let a ← Assessments.record g (.int propertyId) observations (.ofText? assessedAt)
  let time := Value.ofText? time
  if time.holds || pointInTime then Assessments.processAt g policy.dedupe (.record a) time
  else Assessments.process g policy.dedupe (.record a)

/-- The exit of an error that the engine puts into words; a fault stays one. -/
def errorExit : Error → Except Fault Exit
  | .fault f => .error f
  | e =>
    let text := "  [!] " ++ e.message?.getD "" ++ "\n"
    let failures := match e with
      | .storage f => [f]
      | _ => []
    .ok ⟨2, "", elide failures text⟩

/-- Run work whose errors end the program. -/
def reporting (work : Op σ Exit) : Op σ Exit := fun s =>
  match work.run s with
  | (.ok e, s) => (.ok e, s)
  | (.error error, s) =>
    match errorExit error with
    | .ok e => (.ok e, s)
    | .error f => (.error (.fault f), s)

/-- The exit of a file that could not be used; a fault stays one. -/
def fileExit : FileError → Except Error Exit
  | .message text => .ok ⟨1, "", text⟩
  | .fault f => .error (.fault f)

def helpExit : Exit := ⟨0, "<help>", ""⟩

/-- The database to work in: the one asked for, unless it is empty, or that of
the settings. -/
def locationOf (settings : Settings) (given : Option String) : Except Fault Location :=
  match given with
  | none | some "" => Location.ofAddress settings.databaseUrl
  | some url => Location.ofAddress url

/-- The database file that a command line works in, if it works in one. -/
def databaseFile? (w : Workspace) (arguments : List String) : Option String :=
  match Invocation.parse arguments, w.settings with
  | .ok invocation, .ok settings =>
    match invocation.database?.map (locationOf settings) with
    | some (.ok (.file name)) => some name
    | _ => none
  | _, _ => none

/-- Work in the database asked for. -/
def inDatabaseOf (settings : Settings) (given : Option String)
    (work : Storage (World Tables) → Op (World Tables) α) : Op (World Workspace) α := do
  let location ← Op.orElse .fault (locationOf settings given)
  World.inDatabase location work

/-- Do what an invocation asks for. -/
def perform (settings : Settings) (invocation : Invocation) : Op (World Workspace) Exit := do
  let policy : Policy := ⟨settings.dedupe, settings.enforced⟩
  let w ← World.stored
  match invocation with
  | .help | .nothing => return helpExit
  | .testRule rule cases json =>
    match testRule w rule cases json with
    | .error e => Op.ofExcept (fileExit e)
    | .ok r => Op.ofExcept r
  | .render database ruleId =>
    let text ← inDatabaseOf settings database fun g => Rules.render g (.text ruleId)
    return ⟨0, text ++ "\n", ""⟩
  | .process database path propertyId assessedAt time pointInTime json =>
    match readJson w path with
    | .error e => Op.ofExcept (fileExit e)
    | .ok document =>
      let report ← inDatabaseOf settings database fun g =>
        process policy (observationsIn document) propertyId assessedAt time pointInTime g
      return reportExit json report
  | .reevaluate database propertyId json =>
    let result ← inDatabaseOf settings database fun g =>
      Vulnerabilities.reevaluate g (.int propertyId)
    return reevaluationExit json result

/-- Run the program on its arguments. -/
def run (arguments : List String) : Op (World Workspace) Ending := do
  match Invocation.parse arguments with
  | .error refusal => return .exit ⟨2, "", refusal.message⟩
  | .ok .help => return .exit helpExit
  | .ok invocation =>
    match (← World.stored).settings with
    | .error problems => return .misconfigured problems
    | .ok settings => .exit <$> reporting (perform settings invocation)

end PropertyRisk.Console
