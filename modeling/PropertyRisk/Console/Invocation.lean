import PropertyRisk.Console.Arguments

/-!
# Invocations

An invocation is what a command line asks for: one of four commands with its
arguments, help, or nothing at all. Options for the program itself stand before
the command.
-/

namespace PropertyRisk.Console

inductive Invocation
  | help
  | nothing
  | testRule (rule : String) (cases : List String) (json : Bool)
  | render (database : Option String) (ruleId : String)
  | process (database : Option String) (observations : String) (propertyId : Int)
      (assessedAt time : Option String) (pointInTime json : Bool)
  | reevaluate (database : Option String) (propertyId : Int) (json : Bool)
deriving DecidableEq, Repr

namespace Invocation

/-- The database that a command was told to work in, for the commands that work
in one. -/
def database? : Invocation → Option (Option String)
  | render database _ => some database
  | process database .. => some database
  | reevaluate database .. => some database
  | _ => none

def commands : List String := ["test-rule", "render", "process", "reevaluate"]

def jsonOption : OptionSpec := { name := "--json", takesValue := false }

def specOf (command : String) : Option CommandSpec :=
  match command with
  | "test-rule" => some
    { options := [jsonOption]
      positionals := [{ label := "RULE.json" }, { label := "OBSERVATIONS.json", several := true }] }
  | "render" => some { options := [], positionals := [{ label := "RULE-ID" }] }
  | "process" => some
    { options :=
        [{ name := "--property", takesValue := true, whole := true, required := true },
          { name := "--assessed-at", takesValue := true }, { name := "--at", takesValue := true },
          { name := "--point-in-time", takesValue := false }, jsonOption]
      positionals := [{ label := "OBSERVATIONS.json" }] }
  | "reevaluate" => some
    { options := [jsonOption], positionals := [{ label := "PROPERTY-ID", whole := true }] }
  | _ => none

def wholeOr0 (s : Option String) : Int := (s.bind Number.readWhole?).getD 0

/-- The invocation of a command whose arguments are complete. -/
def ofParsed (database : Option String) (command : String) (p : Parsed) : Invocation :=
  match command with
  | "test-rule" => .testRule ((p.get? "RULE.json").getD "") (p.getAll "OBSERVATIONS.json") (p.has "--json")
  | "render" => .render database ((p.get? "RULE-ID").getD "")
  | "process" =>
    .process database ((p.get? "OBSERVATIONS.json").getD "") (wholeOr0 (p.get? "--property"))
      (p.get? "--assessed-at") (p.get? "--at") (p.has "--point-in-time") (p.has "--json")
  | "reevaluate" => .reevaluate database (wholeOr0 (p.get? "PROPERTY-ID")) (p.has "--json")
  | _ => .nothing

/-- A refusal, with the command whose arguments were refused, if any. -/
structure Refusal where
  command : Option String
  error : UsageError
deriving DecidableEq, Repr

def Refusal.message (r : Refusal) : String :=
  "riskrules" ++ ((r.command.map (" " ++ ·)).getD "") ++ ": error: " ++ r.error.message commands

/-- What stands before the command: the database and what was left over, and
then the command with its arguments. -/
structure Front where
  database : Option String := none
  leftOver : List String := []
  command : Option (String × List String) := none

/-- Read up to the command. Tokens and arguments are those of one list. -/
def takeFront : List Token → List String → Front → Except UsageError (Option Front)
  | .plain s :: _, _ :: rest, f => .ok (some { f with command := some (s, rest) })
  | .divider :: .plain s :: _, _ :: rest, f => .ok (some { f with command := some ("--", s :: rest) })
  | .divider :: tokens, s :: rest, f =>
    takeFront tokens rest { f with leftOver := f.leftOver ++ [s] }
  | .unknownOption s :: tokens, _ :: rest, f =>
    takeFront tokens rest { f with leftOver := f.leftOver ++ [s] }
  | .help _ none :: _, _, _ => .ok none
  | .help _ (some given) :: _, _, _ => .error (.valueIgnored "-h/--help" given)
  | .option _ (some url) :: tokens, _ :: rest, f => takeFront tokens rest { f with database := some url }
  | .option _ none :: .plain url :: tokens, _ :: _ :: rest, f =>
    takeFront tokens rest { f with database := some url }
  | .option spec none :: _, _, _ => .error (.valueMissing spec.name)
  | _, _, f => .ok (some f)

def databaseOption : OptionSpec := { name := "--db", takesValue := true }

/-- The invocation of a command line. -/
def parse (arguments : List String) : Except Refusal Invocation :=
  match classifyAll [databaseOption] arguments with
  | .error e => .error ⟨none, e⟩
  | .ok tokens =>
    match takeFront tokens arguments {} with
    | .error e => .error ⟨none, e⟩
    | .ok none => .ok .help
    | .ok (some front) =>
      match front.command with
      | none => if front.leftOver.isEmpty then .ok .nothing else .error ⟨none, .leftOver front.leftOver⟩
      | some (command, rest) =>
        match specOf command with
        | none => .error ⟨none, .invalidChoice command⟩
        | some spec =>
          match spec.parse rest with
          | .error e => .error ⟨some command, e⟩
          | .ok .help => .ok .help
          | .ok (.parsed p) =>
            let leftOver := front.leftOver ++ p.leftOver
            if leftOver.isEmpty then .ok (ofParsed front.database command p)
            else .error ⟨none, .leftOver leftOver⟩

end Invocation

end PropertyRisk.Console
