import PropertyRisk.Text.Quoted
import PropertyRisk.Number.Whole

/-!
# Command-line arguments

A command declares options, some with a value, and positional arguments, the
last of which may take several. Arguments are sorted into options and others
first: an option may be shortened as long as one name fits, may carry its value
after `=`, and after `--` nothing is an option. Then positional arguments are
filled as far as each stretch between options goes. What fits nowhere is left
over.
-/

namespace PropertyRisk.Console

structure OptionSpec where
  name : String
  takesValue : Bool
  /-- The value must be a whole number. -/
  whole : Bool := false
  required : Bool := false

structure PositionalSpec where
  label : String
  several : Bool := false
  whole : Bool := false

structure CommandSpec where
  options : List OptionSpec
  positionals : List PositionalSpec

/-- Why arguments were refused. -/
inductive UsageError
  | invalidChoice (given : String)
  | missing (labels : List String)
  | notWhole (label given : String)
  | valueMissing (option : String)
  | valueIgnored (option given : String)
  | ambiguous (given : String) (names : List String)
  | leftOver (arguments : List String)
deriving DecidableEq, Repr

namespace UsageError

def message (commands : List String) : UsageError → String
  | invalidChoice given =>
    "argument COMMAND: invalid choice: " ++ Text.quoted given ++ " (choose from " ++
      ", ".intercalate (commands.map Text.quoted) ++ ")"
  | missing labels => "the following arguments are required: " ++ ", ".intercalate labels
  | notWhole label given =>
    "argument " ++ label ++ ": invalid int value: " ++ Text.quoted given
  | valueMissing option => "argument " ++ option ++ ": expected one argument"
  | valueIgnored option given =>
    "argument " ++ option ++ ": ignored explicit argument " ++ Text.quoted given
  | ambiguous given names =>
    "ambiguous option: " ++ given ++ " could match " ++ ", ".intercalate names
  | leftOver arguments => "unrecognized arguments: " ++ " ".intercalate arguments

end UsageError

/-- An argument, sorted. -/
inductive Token
  | plain (s : String)
  /-- The first `--`, after which all is plain. -/
  | divider
  /-- A declared option, with the value written into the same argument. -/
  | option (spec : OptionSpec) (value : Option String)
  /-- The request for help, with anything written into the same argument. -/
  | help (name : String) (value : Option String)
  | unknownOption (s : String)

namespace Token

def isOption : Token → Bool
  | option .. | help .. | unknownOption _ => true
  | _ => false

def isDivider : Token → Bool
  | divider => true
  | _ => false

def name : Token → String
  | option spec _ => spec.name
  | help name _ => name
  | plain s | unknownOption s => s
  | divider => "--"

end Token

/-- Whether a text that starts with a dash is a negative number. -/
def looksNegative (cs : List Char) : Bool :=
  let isDigit (c : Char) : Bool := (Number.digitValue? c).isSome
  match cs with
  | '-' :: rest =>
    match rest.span isDigit with
    | (_ :: _, []) => true
    | (_, '.' :: fraction) => !fraction.isEmpty && fraction.all isDigit
    | _ => false
  | _ => false

/-- What a name stands for, once it is spelled out. -/
def named? (options : List OptionSpec) (name : String) (value : Option String) : Option Token :=
  if name = "-h" || name = "--help" then some (.help name value)
  else (options.find? (·.name = name)).map (.option · value)

/-- Split at the first `=`. -/
def splitValue (s : String) : String × Option String :=
  match s.toList.span (· != '=') with
  | (name, _ :: value) => (String.ofList name, some (String.ofList value))
  | (_, []) => (s, none)

def hasStart (start s : String) : Bool := start.toList.isPrefixOf s.toList

/-- What follows `-h` in one argument and cannot be passed over: the letter may be
repeated. -/
def afterHelp : List Char → Option String
  | [] => none
  | 'h' :: rest => afterHelp rest
  | rest => some (String.ofList rest)

/-- The options that a shortened name fits, or the request for help with more
in the same argument. -/
def candidates (options : List OptionSpec) (s : String) : List Token :=
  let names := "-h" :: "--help" :: options.map OptionSpec.name
  if hasStart "--" s then
    let (name, value) := splitValue s
    (names.filter (hasStart name ·)).filterMap (named? options · value)
  else
    names.filterMap fun name =>
      if name.toList = s.toList.take 2 then named? options name (afterHelp (s.toList.drop 2))
      else if hasStart s name then named? options name none
      else none

/-- Sort an argument that precedes any `--`. -/
def classify (options : List OptionSpec) (s : String) : Except UsageError Token :=
  match s.toList with
  | '-' :: _ :: _ =>
    match named? options s none with
    | some token => .ok token
    | none =>
      let (name, value) := splitValue s
      match (if value.isSome then named? options name value else none) with
      | some token => .ok token
      | none =>
        match candidates options s with
        | [token] => .ok token
        | [] =>
          if looksNegative s.toList || s.toList.contains ' ' then .ok (.plain s)
          else .ok (.unknownOption s)
        | several => .error (.ambiguous s (several.map Token.name))
  | _ => .ok (.plain s)

def classifyAll (options : List OptionSpec) : List String → Except UsageError (List Token)
  | [] => .ok []
  | "--" :: rest => .ok (.divider :: rest.map .plain)
  | s :: rest =>
    match classify options s with
    | .error e => .error e
    | .ok token =>
      match classifyAll options rest with
      | .error e => .error e
      | .ok tokens => .ok (token :: tokens)

/-- The arguments of a command so far: values of options and positional
arguments by name, and what was left over. -/
structure Parsed where
  values : List (String × String) := []
  leftOver : List String := []

/-- The outcome of reading arguments: they are complete, or help was asked for. -/
inductive Request
  | help
  | parsed (p : Parsed)

def checkWhole (whole : Bool) (label given : String) : Except UsageError Unit :=
  if whole && (Number.readWhole? given).isNone then .error (.notWhole label given) else .ok ()

/-- What a positional argument takes off a stretch without options: one plain
argument, or all that remain, together with a divider next to them. -/
def PositionalSpec.take (spec : PositionalSpec) (stretch : List Token) :
    Option (List String × List Token) :=
  let (before, rest) := stretch.span Token.isDivider
  match rest with
  | [] => none
  | first :: rest =>
    let (after, rest) := if spec.several then (rest, []) else rest.span Token.isDivider
    some (before.map Token.name ++ first.name :: after.map Token.name, rest)

/-- Fill positional arguments from a stretch, as far as it goes. One `--` among
what an argument takes is not a value of it. -/
def fill : List PositionalSpec → List Token → Parsed →
    Except UsageError (List PositionalSpec × List Token × Parsed)
  | [], stretch, p => .ok ([], stretch, p)
  | spec :: specs, stretch, p =>
    match spec.take stretch with
    | none => .ok (spec :: specs, stretch, p)
    | some (taken, stretch) =>
      let given := taken.erase "--"
      match given.mapM (checkWhole spec.whole spec.label) with
      | .error e => .error e
      | .ok _ => fill specs stretch { p with values := p.values ++ given.map (spec.label, ·) }

/-- The value of an option: written into its argument, or the next plain one. -/
def takeValue (spec : OptionSpec) (value : Option String) (rest : List Token) :
    Except UsageError (String × List Token) :=
  match value, rest with
  | some s, rest => .ok (s, rest)
  | none, .plain s :: rest => .ok (s, rest)
  | none, _ => .error (.valueMissing spec.name)

/-- Read sorted arguments; every round uses up an argument at least. -/
def parseTokens : (fuel : Nat) → List PositionalSpec → List Token → Parsed →
    Except UsageError (Option (List PositionalSpec × Parsed))
  | 0, specs, _, p => .ok (some (specs, p))
  | fuel + 1, specs, tokens, p =>
    match tokens.span (!·.isOption) with
    | (stretch, rest) =>
      match fill specs stretch p with
      | .error e => .error e
      | .ok (specs, extra, p) =>
        let p := { p with leftOver := p.leftOver ++ extra.map Token.name }
        match rest with
        | [] => .ok (some (specs, p))
        | .help _ none :: _ => .ok none
        | .help _ (some given) :: _ => .error (.valueIgnored "-h/--help" given)
        | .unknownOption s :: rest =>
          parseTokens fuel specs rest { p with leftOver := p.leftOver ++ [s] }
        | .option spec value :: rest =>
          if spec.takesValue then
            match takeValue spec value rest with
            | .error e => .error e
            | .ok (s, rest) =>
              match checkWhole spec.whole spec.name s with
              | .error e => .error e
              | .ok () =>
                parseTokens fuel specs rest { p with values := p.values ++ [(spec.name, s)] }
          else
            match value with
            | some given => .error (.valueIgnored spec.name given)
            | none => parseTokens fuel specs rest { p with values := p.values ++ [(spec.name, "")] }
        | _ :: rest => parseTokens fuel specs rest p

namespace Parsed

def get? (p : Parsed) (name : String) : Option String :=
  (p.values.reverse.find? (·.1 = name)).map (·.2)

def getAll (p : Parsed) (name : String) : List String :=
  (p.values.filter (·.1 = name)).map (·.2)

def has (p : Parsed) (name : String) : Bool := p.values.any (·.1 = name)

end Parsed

/-- Read the arguments of a command, all required ones included. -/
def CommandSpec.parse (spec : CommandSpec) (arguments : List String) :
    Except UsageError Request :=
  match classifyAll spec.options arguments with
  | .error e => .error e
  | .ok tokens =>
    match parseTokens (tokens.length + 1) spec.positionals tokens {} with
    | .error e => .error e
    | .ok none => .ok .help
    | .ok (some (unfilled, p)) =>
      let labels := unfilled.map PositionalSpec.label ++
        (spec.options.filter fun o => o.required && !p.has o.name).map OptionSpec.name
      if labels.isEmpty then .ok (.parsed p) else .error (.missing labels)

end PropertyRisk.Console
