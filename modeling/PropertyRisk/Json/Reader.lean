import PropertyRisk.Value
import PropertyRisk.Number.Reading
import PropertyRisk.Number.Whole
import PropertyRisk.Text.Surrogate

/-!
# Reading JSON

A number with a fraction or an exponent is a binary64 number, every other one a
whole number of any size. `NaN`, `Infinity` and `-Infinity` are read as numbers
too. Of repeated keys the last value counts, in the place of the first. Half of
a surrogate pair may stand alone.

A whole number has a limit of digits, and nested lists and objects have a limit
of depth. A text is read from its start on, so its first flaw is the one told.
-/

namespace PropertyRisk.Json

def isGap (c : Char) : Bool := c == ' ' || c == '\t' || c == '\n' || c == '\r'

def skipGap (cs : List Char) : List Char := cs.dropWhile isGap

/-- Four hexadecimal digits. -/
def readUnit : List Char → Option (Nat × List Char)
  | a :: b :: c :: d :: rest => do
    let a ← Number.hexDigit? a
    let b ← Number.hexDigit? b
    let c ← Number.hexDigit? c
    let d ← Number.hexDigit? d
    return (((a * 16 + b) * 16 + c) * 16 + d, rest)
  | _ => none

/-- The second half of a surrogate pair, if one follows. -/
def readLowHalf : List Char → Option (Nat × List Char)
  | '\\' :: 'u' :: rest =>
    match readUnit rest with
    | some (low, rest) => if 0xdc00 ≤ low ∧ low ≤ 0xdfff then some (low, rest) else none
    | none => none
  | _ => none

/-- The character of an escape, after its backslash. -/
def readEscape : List Char → Option (Char × List Char)
  | '"' :: rest => some ('"', rest)
  | '\\' :: rest => some ('\\', rest)
  | '/' :: rest => some ('/', rest)
  | 'b' :: rest => some (Char.ofNat 8, rest)
  | 'f' :: rest => some (Char.ofNat 12, rest)
  | 'n' :: rest => some ('\n', rest)
  | 'r' :: rest => some ('\r', rest)
  | 't' :: rest => some ('\t', rest)
  | 'u' :: rest =>
    match readUnit rest with
    | none => none
    | some (high, rest) =>
      if 0xd800 ≤ high ∧ high ≤ 0xdbff then
        match readLowHalf rest with
        | some (low, rest) =>
          some (Char.ofNat (0x10000 + (high - 0xd800) * 0x400 + (low - 0xdc00)), rest)
        | none => some (Text.ofHalf high, rest)
      else if 0xdc00 ≤ high ∧ high ≤ 0xdfff then some (Text.ofHalf high, rest)
      else some (Char.ofNat high, rest)
  | _ => none

/-- The characters of a string up to its closing quote, and the rest. -/
def readChars : (fuel : Nat) → List Char → Option (List Char × List Char)
  | 0, _ => none
  | _, [] => none
  | _, '"' :: rest => some ([], rest)
  | fuel + 1, '\\' :: rest =>
    match readEscape rest with
    | none => none
    | some (c, rest) => (readChars fuel rest).map fun (cs, rest) => (c :: cs, rest)
  | fuel + 1, c :: rest =>
    if c.toNat < 0x20 then none
    else (readChars fuel rest).map fun (cs, rest) => (c :: cs, rest)

/-- The ASCII digits in front. -/
def takeAsciiDigits (cs : List Char) : List Char × List Char :=
  (cs.takeWhile Char.isDigit, cs.dropWhile Char.isDigit)

/-- A fraction in front, with its point; empty when no digit follows the point. -/
def takeFraction : List Char → List Char × List Char
  | '.' :: rest =>
    match takeAsciiDigits rest with
    | ([], _) => ([], '.' :: rest)
    | (digits, rest) => ('.' :: digits, rest)
  | cs => ([], cs)

/-- An exponent in front; empty when it has no digit. -/
def takeExponent : List Char → List Char × List Char
  | [] => ([], [])
  | c :: rest =>
    if c == 'e' || c == 'E' then
      let (sign, after) : List Char × List Char :=
        match rest with
        | '+' :: more => (['+'], more)
        | '-' :: more => (['-'], more)
        | more => ([], more)
      match takeAsciiDigits after with
      | ([], _) => ([], c :: rest)
      | (digits, more) => (c :: (sign ++ digits), more)
    else ([], c :: rest)

/-- The whole part of a number: a single zero, or digits that start otherwise. -/
def takeWhole : List Char → Option (List Char × List Char)
  | '0' :: rest => some (['0'], rest)
  | cs =>
    match takeAsciiDigits cs with
    | ([], _) => none
    | found => some found

/-- Why a text is not a document that can be read. -/
inductive Flaw
  | malformed
  /-- A whole number has more digits than it may have. -/
  | tooLong
  /-- Lists and objects are nested deeper than they may be. -/
  | tooDeep
deriving DecidableEq, Repr

/-- How deep lists and objects may be nested. -/
def depthLimit : Nat := 960

/-- What was found, or a malformed text. -/
def found (result : Option α) : Except Flaw α :=
  match result with
  | some a => .ok a
  | none => .error .malformed

def readNumber (negative : Bool) (cs : List Char) : Except Flaw (Value × List Char) :=
  match takeWhole cs with
  | none => .error .malformed
  | some (whole, rest) =>
    match takeFraction rest with
    | (fraction, rest) =>
      match takeExponent rest with
      | (exponent, rest) =>
        if fraction.isEmpty && exponent.isEmpty then
          if Number.digitLimit < whole.length then .error .tooLong
          else
            let digits := whole.map fun c => c.toNat - 48
            .ok (.int (Binary64.signed negative (Number.ofDigits digits)), rest)
        else
          found <| (Number.readDecimal negative (whole ++ fraction ++ exponent)).map fun x =>
            (.float x, rest)

/-- The rest after a word that must come next. -/
def afterWord (word : String) (cs : List Char) : Except Flaw (List Char) :=
  let w := word.toList
  if cs.take w.length = w then .ok (cs.drop w.length) else .error .malformed

/-- A value that is neither a string, a list nor an object. -/
def readPlain (cs : List Char) : Except Flaw (Value × List Char) :=
  match cs with
  | 'n' :: _ => (afterWord "null" cs).map (Value.null, ·)
  | 't' :: _ => (afterWord "true" cs).map (Value.bool true, ·)
  | 'f' :: _ => (afterWord "false" cs).map (Value.bool false, ·)
  | 'N' :: _ => (afterWord "NaN" cs).map (Value.float .nan, ·)
  | 'I' :: _ => (afterWord "Infinity" cs).map (Value.float (.infinite false), ·)
  | '-' :: 'I' :: rest => (afterWord "Infinity" ('I' :: rest)).map (Value.float (.infinite true), ·)
  | '-' :: rest => readNumber true rest
  | _ => readNumber false cs

mutual

/-- A value in front of the text, which starts with no gap. -/
def readValue : (fuel depth : Nat) → List Char → Except Flaw (Value × List Char)
  | 0, _, _ => .error .malformed
  | fuel + 1, depth, cs =>
    match cs with
    | '"' :: rest => (found (readChars fuel rest)).map fun (s, rest) =>
        (.text (String.ofList s), rest)
    | '[' :: rest =>
      if depthLimit ≤ depth then .error .tooDeep
      else
        match skipGap rest with
        | ']' :: rest => .ok (.list [], rest)
        | rest =>
          (readItems fuel (depth + 1) rest).map fun (items, rest) => (.list items, rest)
    | '\x7b' :: rest =>
      if depthLimit ≤ depth then .error .tooDeep
      else
        match skipGap rest with
        | '\x7d' :: rest => .ok (.object [], rest)
        | rest =>
          (readFields fuel (depth + 1) [] rest).map fun (fields, rest) => (.object fields, rest)
    | cs => readPlain cs

/-- The items of a list up to its closing bracket. -/
def readItems : (fuel depth : Nat) → List Char → Except Flaw (List Value × List Char)
  | 0, _, _ => .error .malformed
  | fuel + 1, depth, cs =>
    match readValue fuel depth cs with
    | .error flaw => .error flaw
    | .ok (v, rest) =>
      match skipGap rest with
      | ']' :: rest => .ok ([v], rest)
      | ',' :: rest =>
        (readItems fuel depth (skipGap rest)).map fun (vs, rest) => (v :: vs, rest)
      | _ => .error .malformed

/-- The fields of an object up to its closing brace, added to those read before. -/
def readFields : (fuel depth : Nat) → List (String × Value) → List Char →
    Except Flaw (List (String × Value) × List Char)
  | 0, _, _, _ => .error .malformed
  | fuel + 1, depth, before, cs =>
    match cs with
    | '"' :: rest =>
      match readChars fuel rest with
      | none => .error .malformed
      | some (key, rest) =>
        match skipGap rest with
        | ':' :: rest =>
          match readValue fuel depth (skipGap rest) with
          | .error flaw => .error flaw
          | .ok (v, rest) =>
            let fields := Value.putField (String.ofList key) v before
            match skipGap rest with
            | '\x7d' :: rest => .ok (fields, rest)
            | ',' :: rest => readFields fuel depth fields (skipGap rest)
            | _ => .error .malformed
        | _ => .error .malformed
    | _ => .error .malformed

end

/-- Read a whole document. At most two calls of the reader pass before another
character is used up, so twice the length is fuel enough. -/
def read (text : String) : Except Flaw Value :=
  let cs := text.toList
  match readValue (2 * cs.length + 2) 0 (skipGap cs) with
  | .ok (v, rest) => if (skipGap rest).isEmpty then .ok v else .error .malformed
  | .error flaw => .error flaw

/-- The document in a text that has no flaw. -/
def read? (text : String) : Option Value := (read text).toOption

end PropertyRisk.Json
