import PropertyRisk.Number.Digit
import PropertyRisk.Text.Utf8

/-!
# Percent escapes

In an address `%` and two hexadecimal digits stand for a byte of UTF-8. A `%`
without two digits is itself.
-/

namespace PropertyRisk.Text

/-- The bytes of a text, with escapes undone. -/
def unescapedBytes : List Char → List Nat
  | '%' :: a :: b :: rest =>
    match Number.hexDigit? a, Number.hexDigit? b with
    | some high, some low => (16 * high + low) :: unescapedBytes rest
    | _, _ => utf8 '%' ++ unescapedBytes (a :: b :: rest)
  | c :: rest => utf8 c ++ unescapedBytes rest
  | [] => []
termination_by cs => cs.length

/-- A text with its escapes undone. -/
def unescaped (cs : List Char) : String := String.ofList (characters (unescapedBytes cs))

/-- A field of a query, in which `+` stands for a space; the value may be missing. -/
def readParameter (cs : List Char) : String × String :=
  let part (cs : List Char) := unescaped (cs.map fun c => if c = '+' then ' ' else c)
  match cs.span (· != '=') with
  | (name, _ :: value) => (part name, part value)
  | (name, []) => (part name, "")

/-- The fields of a query, empty ones aside. -/
def readQuery (cs : List Char) : List (String × String) :=
  ((String.ofList cs).splitOn "&").filterMap fun field =>
    if field = "" then none else some (readParameter field.toList)

end PropertyRisk.Text
