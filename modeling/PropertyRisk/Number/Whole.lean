import PropertyRisk.Number.Binary64
import PropertyRisk.Number.Digit
import PropertyRisk.Text.Blank

/-!
# Reading a whole number

A whole number is written as an optional sign and digits of any script, with
single underscores allowed between them, and has a limit of digits.
-/

namespace PropertyRisk.Number

/-- How many digits a whole number may be written with. -/
def digitLimit : Nat := 4300

/-- The digits of a text that has nothing but digits, each read by `digit?`, and
single underscores between them. -/
def spacedDigits? (digit? : Char → Option Nat) (afterDigit : Bool) :
    List Char → Option (List Nat)
  | [] => if afterDigit then some [] else none
  | '_' :: rest => if afterDigit then spacedDigits? digit? false rest else none
  | c :: rest => do
    let d ← digit? c
    return d :: (← spacedDigits? digit? true rest)

/-- Read a whole number, with blanks around it or not. -/
def readWhole? (s : String) : Option Int :=
  let cs := Text.trimBy Text.isBlank s.toList
  let (negative, digits) : Bool × List Char :=
    match cs with
    | '-' :: rest => (true, rest)
    | '+' :: rest => (false, rest)
    | rest => (false, rest)
  match spacedDigits? digitValue? false digits with
  | some ds =>
    if ds.length ≤ digitLimit then some (Binary64.signed negative (ofDigits ds)) else none
  | none => none

end PropertyRisk.Number
