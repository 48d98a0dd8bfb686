import PropertyRisk.Value
import PropertyRisk.Number.Shortest
import PropertyRisk.Text.Quoted
import PropertyRisk.Text.Surrogate

/-!
# Writing JSON

Documents are written in ASCII: every other character is escaped by its UTF-16
units. Numbers are written as everywhere else, with `NaN`, `Infinity` and
`-Infinity` for the numbers JSON has no form for.
-/

namespace PropertyRisk.Json

/-- The `\uXXXX` escapes of a character, two of them past U+FFFF. -/
def unitEscapes (c : Char) : List Char :=
  let escape (n : Nat) : List Char := '\\' :: 'u' :: Text.hexDigits 4 n
  if c.toNat < 0x10000 then escape c.toNat
  else if let some half := Text.half? c then escape half
  else
    let rest := c.toNat - 0x10000
    escape (0xd800 + rest / 0x400) ++ escape (0xdc00 + rest % 0x400)

def escaped (c : Char) : List Char :=
  if c == '"' then ['\\', '"']
  else if c == '\\' then ['\\', '\\']
  else if c == '\n' then ['\\', 'n']
  else if c == '\r' then ['\\', 'r']
  else if c == '\t' then ['\\', 't']
  else if c.toNat == 8 then ['\\', 'b']
  else if c.toNat == 12 then ['\\', 'f']
  else if 0x20 ≤ c.toNat && c.toNat ≤ 0x7e then [c]
  else unitEscapes c

def string (s : String) : String :=
  String.ofList ('"' :: (s.toList.flatMap escaped ++ ['"']))

def number (x : Binary64) : String :=
  match x with
  | .nan => "NaN"
  | .infinite negative => if negative then "-Infinity" else "Infinity"
  | x => Number.text x

/-- How much a nested line is indented; `none` writes all on one line. -/
abbrev Indent := Option Nat

/-- The start of a line `depth` levels deep. -/
def lineStart (indent : Indent) (depth : Nat) : String :=
  match indent with
  | none => ""
  | some width => "\n" ++ String.ofList (List.replicate (width * depth) ' ')

/-- Items between brackets, one a line when lines are indented. -/
def enclose (indent : Indent) (depth : Nat) (opening closing : String) (items : List String) :
    String :=
  if items.isEmpty then opening ++ closing
  else
    let start := lineStart indent (depth + 1)
    let separator := if indent.isNone then ", " else "," ++ start
    opening ++ start ++ separator.intercalate items ++ lineStart indent depth ++ closing

mutual

def write (indent : Indent) (depth : Nat) : Value → String
  | .null => "null"
  | .bool b => if b then "true" else "false"
  | .int n => toString n
  | .float x => number x
  | .text s => string s
  | .list items => enclose indent depth "[" "]" (writeItems indent (depth + 1) items)
  | .object fields =>
    enclose indent depth "\x7b" "\x7d" (writeFields indent (depth + 1) fields)

def writeItems (indent : Indent) (depth : Nat) : List Value → List String
  | [] => []
  | v :: rest => write indent depth v :: writeItems indent depth rest

def writeFields (indent : Indent) (depth : Nat) : List (String × Value) → List String
  | [] => []
  | (k, v) :: rest =>
    (string k ++ ": " ++ write indent depth v) :: writeFields indent depth rest

end

/-- A document over several lines, indented by two. -/
def pretty (v : Value) : String := write (some 2) 0 v

/-- A document on one line. -/
def line (v : Value) : String := write none 0 v

end PropertyRisk.Json
