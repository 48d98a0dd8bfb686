import PropertyRisk.Error
import PropertyRisk.Number.Reading
import PropertyRisk.Number.Shortest
import PropertyRisk.Text.Blank
import PropertyRisk.Text.Surrogate

/-!
# Columns

A column keeps what it is given as its kind has it. A text column keeps texts,
and the texts of numbers: a truth value as 1 or 0, a whole number of at most 64
bits, a binary64 number with 15 significant digits. A number column keeps
numbers, whole ones as such, and reads the texts that write one; other texts it
keeps as they are. NaN counts as null. A list, an object, a larger whole number
or a text that cannot be encoded is not taken at all.
-/

namespace PropertyRisk

/-- Whether a whole number fits 64 bits with a sign. -/
def fitsWord (n : Int) : Bool := decide (-9223372036854775808 ≤ n ∧ n ≤ 9223372036854775807)

namespace Cell

/-- Why no column takes a value. -/
inductive Refusal
  | listOrObject
  | tooLarge
  | unencodable
deriving DecidableEq, Repr

/-- The layout of numbers in text columns. -/
def layout : Number.Layout := ⟨-4, 14, 2, true⟩

/-- The nearest whole number to a quotient, the greater one of two. -/
def roundUpward (num den : Nat) : Nat := (2 * num + den) / (2 * den)

/-- The nearest decimal of 15 digits to a positive magnitude; one that rounds
up to a sixteenth digit is still `digits · 10^exponent`. -/
def fifteenDigits (units : Nat) : Nat × Int :=
  let exponent := Number.leadingExponent units - 14
  match Number.onGrid units exponent with
  | (num, den) => Number.dropZeros 16 (roundUpward num den) exponent

def floatText (x : Binary64) : String :=
  match x with
  | .nan => ""
  | .infinite negative => if negative then "-Inf" else "Inf"
  | .finite negative units =>
    if units = 0 then "0.0"
    else
      let magnitude := Number.showUnits layout (fifteenDigits units)
      String.ofList (if negative then '-' :: magnitude else magnitude)

def ofText (s : String) : Except Refusal (Option String) :=
  if Text.isWhole s then .ok (some s) else .error .unencodable

/-- What a text column keeps of a value, or nothing for null. -/
def text : Value → Except Refusal (Option String)
  | .null => .ok none
  | .bool b => .ok (some (if b then "1" else "0"))
  | .int n => if fitsWord n then .ok (some (toString n)) else .error .tooLarge
  | .float .nan => .ok none
  | .float x => .ok (some (floatText x))
  | .text s => ofText s
  | .list _ | .object _ => .error .listOrObject

/-- A number as a whole one, if it is one strictly within 64 bits. -/
def narrowed (x : Binary64) : Value :=
  match x.toInt? with
  | some n => if -9223372036854775808 < n ∧ n < 9223372036854775807 then .int n else .float x
  | none => .float x

/-- The number that an unsigned text writes. -/
def readUnsigned? (negative : Bool) (cs : List Char) : Option Value :=
  match Number.readDecimal negative cs with
  | none => none
  | some x =>
    if cs.all Char.isDigit then
      let n := Binary64.signed negative (Number.ofDigits (cs.filterMap Number.asciiDigit?))
      some (if fitsWord n then .int n else .float x)
    else some (narrowed x)

/-- The number that a text writes, with blanks around it or not. -/
def readNumber? (s : String) : Option Value :=
  if s.toList.all fun c => c.toNat < 0x80 then
    match Text.trimBy Text.isSpace s.toList with
    | '-' :: cs => readUnsigned? true cs
    | '+' :: cs => readUnsigned? false cs
    | cs => readUnsigned? false cs
  else none

/-- What a number column keeps of a value. -/
def number : Value → Except Refusal Value
  | .null => .ok .null
  | .bool b => .ok (.int (Value.ofBool b))
  | .int n => if fitsWord n then .ok (.int n) else .error .tooLarge
  | .float .nan => .ok .null
  | .float x => .ok (narrowed x)
  | .text s =>
    match ofText s with
    | .error e => .error e
    | .ok _ => .ok ((readNumber? s).getD (.text s))
  | .list _ | .object _ => .error .listOrObject

theorem text_text {s : String} (h : Text.isWhole s = true) : text (.text s) = .ok (some s) := by
  simp [text, ofText, h]

theorem number_int {n : Int} (h : fitsWord n = true) : number (.int n) = .ok (.int n) := by
  simp [number, h]

end Cell

end PropertyRisk
