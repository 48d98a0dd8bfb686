import PropertyRisk.Settings
import PropertyRisk.Store.Shelf

/-!
# Settings files

A settings file has one setting a line, `NAME=text`, with `export` in front or
not. A text may stand in single or double quotes, and then goes on over lines,
with escapes; without quotes it ends before a `#` that follows a blank. In any
text `${NAME}` stands for an earlier setting or a variable of the environment,
and `${NAME:-other}` for another text where there is none. A line that cannot be
read is passed over, and a name without a text takes its setting back.
-/

namespace PropertyRisk.Settings.File

/-- Line ends as single characters. -/
def unifyLines : List Char → List Char
  | '\r' :: '\n' :: rest => '\n' :: unifyLines rest
  | '\r' :: rest => '\n' :: unifyLines rest
  | c :: rest => c :: unifyLines rest
  | [] => []

/-- A blank within a line. -/
def isInlineBlank (c : Char) : Bool := Text.isBlank c && c != '\n'

def skipInline (cs : List Char) : List Char := cs.dropWhile isInlineBlank

def restOfLine (cs : List Char) : List Char := cs.dropWhile (· != '\n')

/-- Drop `export` when a blank follows it. -/
def skipExport (cs : List Char) : List Char :=
  let word := ['e', 'x', 'p', 'o', 'r', 't']
  match cs.drop 6 with
  | c :: rest => if cs.take 6 = word && isInlineBlank c then skipInline rest else cs
  | [] => cs

/-! ## Parts of a line

Where a part cannot be read, the error is what is left at that place. -/

abbrev Part (α : Type) := Except (List Char) (α × List Char)

def isNameChar (c : Char) : Bool := c != '=' && c != '#' && !Text.isBlank c

/-- A name, bare or in single quotes; a comment has none. -/
def takeName (cs : List Char) : Part (Option (List Char)) :=
  match cs with
  | '#' :: _ => .ok (none, cs)
  | '\'' :: rest =>
    match rest.span (· != '\'') with
    | (c :: name, '\'' :: rest) => .ok (some (c :: name), rest)
    | _ => .error cs
  | _ =>
    match cs.span isNameChar with
    | ([], _) => .error cs
    | (name, rest) => .ok (some name, rest)

/-- The characters up to the closing quote. A quote after a backslash closes
only when there is no other, and a backslash after a backslash is not one that a
quote can follow. -/
def takeQuoted (quote : Char) : List Char → Option (List Char × List Char)
  | [] => none
  | '\\' :: '\\' :: rest =>
    (takeQuoted quote rest).map fun (cs, rest) => ('\\' :: '\\' :: cs, rest)
  | '\\' :: c :: rest =>
    if c = quote then
      match takeQuoted quote rest with
      | some (cs, rest) => some ('\\' :: c :: cs, rest)
      | none => some (['\\'], rest)
    else (takeQuoted quote (c :: rest)).map fun (cs, rest) => ('\\' :: cs, rest)
  | c :: rest =>
    if c = quote then some ([], rest)
    else (takeQuoted quote rest).map fun (cs, rest) => (c :: cs, rest)
termination_by cs => cs.length

/-- What a backslash and a character stand for inside quotes. -/
def unescape? (quote : Char) (c : Char) : Option Char :=
  if c = '\\' || c = '\'' then some c
  else if quote = '\'' then none
  else
    match c with
    | '"' => some '"'
    | 'a' => some (Char.ofNat 7)
    | 'b' => some (Char.ofNat 8)
    | 'f' => some (Char.ofNat 12)
    | 'n' => some '\n'
    | 'r' => some '\r'
    | 't' => some '\t'
    | 'v' => some (Char.ofNat 11)
    | _ => none

def unescaped (quote : Char) : List Char → List Char
  | [] => []
  | '\\' :: c :: rest =>
    match unescape? quote c with
    | some d => d :: unescaped quote rest
    | none => '\\' :: unescaped quote (c :: rest)
  | c :: rest => c :: unescaped quote rest
termination_by cs => cs.length

/-- An unquoted text, up to a comment that follows a blank. -/
def withoutComment : List Char → List Char
  | [] => []
  | c :: rest =>
    if Text.isBlank c && (rest.dropWhile Text.isBlank).head? = some '#' then []
    else c :: withoutComment rest

def takeText (cs : List Char) : Part (List Char) :=
  let inQuotes (quote : Char) (rest : List Char) : Part (List Char) :=
    match takeQuoted quote rest with
    | some (text, rest) => .ok (unescaped quote text, rest)
    | none => .error cs
  match cs with
  | '\'' :: rest => inQuotes '\'' rest
  | '"' :: rest => inQuotes '"' rest
  | _ =>
    let kept := (withoutComment (cs.takeWhile (· != '\n'))).reverse.dropWhile Text.isBlank
    .ok (kept.reverse, restOfLine cs)

/-- The text after `=`. A comment that follows blanks leaves it empty. -/
def takeValue (cs : List Char) : Part (List Char) :=
  match skipInline cs with
  | '#' :: rest =>
    if cs.head?.any isInlineBlank then .ok ([], restOfLine rest) else takeText ('#' :: rest)
  | rest => takeText rest

/-- The end of a line, after blanks and a comment. -/
def skipLineEnd (cs : List Char) : Except (List Char) (List Char) :=
  let rest :=
    match skipInline cs with
    | '#' :: rest => restOfLine rest
    | rest => rest
  match rest with
  | [] => .ok []
  | '\n' :: rest => .ok rest
  | _ => .error cs

/-- What a line says of a setting: its text, or none. -/
abbrev Line := String × Option (List Char)

/-- One line, which has no setting if it is a comment. -/
def takeLine (cs : List Char) : Part (Option Line) :=
  match takeName (skipExport cs) with
  | .error rest => .error rest
  | .ok (name, rest) =>
    let text : Part (Option (List Char)) :=
      match skipInline rest with
      | '=' :: rest => (takeValue rest).map fun (text, rest) => (some text, rest)
      | rest => .ok (none, rest)
    match text with
    | .error rest => .error rest
    | .ok (text, rest) =>
      (skipLineEnd rest).map fun rest =>
        (name.map fun name => (String.ofList name, text), rest)

/-- The lines of a file; every round uses up a line at least. -/
def takeLines : (fuel : Nat) → List Char → List Line
  | 0, _ => []
  | fuel + 1, cs =>
    match cs.dropWhile Text.isBlank with
    | [] => []
    | cs =>
      match takeLine cs with
      | .ok (line, rest) => line.toList ++ takeLines fuel rest
      | .error rest => takeLines fuel (restOfLine rest)

/-! ## References -/

/-- A reference to a setting, and the text that stands in for it. -/
structure Reference where
  name : String
  other : String

def takeReference : List Char → Option (Reference × List Char)
  | '$' :: '\x7b' :: cs =>
    match cs.span fun c => c != '\x7d' && c != ':' with
    | (name, '\x7d' :: rest) => some (⟨String.ofList name, ""⟩, rest)
    | (name, ':' :: '-' :: rest) =>
      match rest.span (· != '\x7d') with
      | (other, '\x7d' :: rest) => some (⟨String.ofList name, String.ofList other⟩, rest)
      | _ => none
    | _ => none
  | _ => none

/-- Put a text in the place of every reference; every round uses up a character
at least. -/
def replaceReferences (meaning : Reference → String) : (fuel : Nat) → List Char → List Char
  | 0, cs => cs
  | _, [] => []
  | fuel + 1, c :: rest =>
    match takeReference (c :: rest) with
    | some (reference, rest) => (meaning reference).toList ++ replaceReferences meaning fuel rest
    | none => c :: replaceReferences meaning fuel rest

/-- The references in a text. -/
def references : (fuel : Nat) → List Char → List Reference
  | 0, _ | _, [] => []
  | fuel + 1, c :: rest =>
    match takeReference (c :: rest) with
    | some (reference, rest) => reference :: references fuel rest
    | none => references fuel rest

/-- The settings so far; one that was taken back has no text. -/
abbrev Known := Shelf String (Option String)

/-- What a reference stands for. -/
def meaning (environment : List (String × String)) (known : Known) (r : Reference) : String :=
  match known.get? r.name with
  | some text => text.getD ""
  | none => (environment.lookup r.name).getD r.other

/-- Take in one line after those that are known. -/
def takeIn (environment : List (String × String)) (known : Known) (line : Line) : Known :=
  known.put line.1 <| line.2.map fun text =>
    String.ofList (replaceReferences (meaning environment known) text.length text)

/-- Drop a byte order mark in front. -/
def withoutMark : List Char → List Char
  | '\ufeff' :: rest => rest
  | cs => cs

/-- The settings of a file, the names in lower case. -/
def read (environment : List (String × String)) (text : String) : List (String × String) :=
  let lines := takeLines (text.length + 1) (unifyLines (withoutMark text.toList))
  let known : Known := lines.foldl (takeIn environment) []
  let merged := known.foldl (fun (merged : Known) (name, text) =>
    merged.put (Text.lowerAscii name) text) []
  merged.filterMap fun (name, text) => text.map (name, ·)

/-- The names that a file refers to. -/
def referredNames (text : String) : List String :=
  (references text.length text.toList).map Reference.name

end PropertyRisk.Settings.File
