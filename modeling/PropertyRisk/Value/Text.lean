import PropertyRisk.Value
import PropertyRisk.Number.Shortest
import PropertyRisk.Text.Quoted

/-!
# The text of a value

`plain` is the text of a value on its own: a text stands for itself. `shown` is
its text inside a message or inside another value: a text is quoted.
-/

namespace PropertyRisk.Value

def boolName (b : Bool) : String := if b then "True" else "False"

/-- Pieces with a separator between them. -/
def joined (separator : String) (pieces : List String) : String :=
  separator.intercalate pieces

mutual

def shown : Value → String
  | .null => "None"
  | .bool b => boolName b
  | .int n => toString n
  | .float x => Number.text x
  | .text s => Text.quoted s
  | .list items => "[" ++ joined ", " (shownItems items) ++ "]"
  | .object fields => "\x7b" ++ joined ", " (shownFields fields) ++ "\x7d"

def shownItems : List Value → List String
  | [] => []
  | v :: rest => shown v :: shownItems rest

def shownFields : List (String × Value) → List String
  | [] => []
  | (k, v) :: rest => (Text.quoted k ++ ": " ++ shown v) :: shownFields rest

end

def plain : Value → String
  | .text s => s
  | v => v.shown

/-- The text of a scalar in a comparison: truth values in lower case, and a
whole binary64 number without a fraction. -/
def comparable : Value → String
  | .bool b => if b then "true" else "false"
  | .float x =>
    match x.toInt? with
    | some n => toString n
    | none => Number.text x
  | v => v.plain

@[simp] theorem plain_text (s : String) : (Value.text s).plain = s := rfl

@[simp] theorem comparable_text (s : String) : (Value.text s).comparable = s := rfl

end PropertyRisk.Value
