import PropertyRisk.Number.Binary64

/-!
# Shortest decimal text

A finite number is written with the fewest significant digits that read back as
the same number, and of those the ones nearest to it. The point is placed
positionally while the decimal exponent lies from -4 to 15; otherwise an
exponent of at least two digits follows. A whole number keeps `.0`.
-/

namespace PropertyRisk.Number

/-- The decimal exponent of the leading digit of a positive magnitude. The
factor 10^400 brings every magnitude above one. -/
def leadingExponent (units : Nat) : Int :=
  ((Nat.toDigits 10 (units * Nat.pow 10 400 / Binary64.unitsPerOne)).length : Int) - 401

/-- A magnitude as a fraction of the decimal grid `10^exponent`. -/
def onGrid (units : Nat) (exponent : Int) : Nat × Nat :=
  if 0 ≤ exponent then (units, Binary64.unitsPerOne * Nat.pow 10 exponent.toNat)
  else (units * Nat.pow 10 (-exponent).toNat, Binary64.unitsPerOne)

/-- The magnitude nearest to `digits · 10^exponent`. -/
def backToUnits (digits : Nat) (exponent : Int) : Nat :=
  if 0 ≤ exponent then
    Binary64.roundUnits (digits * Nat.pow 10 exponent.toNat * Binary64.unitsPerOne) 1
  else Binary64.roundUnits (digits * Binary64.unitsPerOne) (Nat.pow 10 (-exponent).toNat)

/-- The neighbours of a magnitude on a decimal grid that read back as it,
nearest first. -/
def neighbours (units : Nat) (exponent : Int) : List Nat :=
  match onGrid units exponent with
  | (num, den) =>
    let nearest := Binary64.roundDiv num den
    let low := num / den
    let other := if nearest = low then low + 1 else low
    [nearest, other].filter fun d => backToUnits d exponent = units

/-- Try 17 - `left` + 1 digits, then more; with 17 digits every number reads
back, so the last case only closes the recursion. -/
def shortestFrom (units : Nat) (leading : Int) : (left : Nat) → Nat × Int
  | 0 => (units, 0)
  | left + 1 =>
    let exponent := leading - (16 - left : Nat)
    match neighbours units exponent with
    | digits :: _ => (digits, exponent)
    | [] => shortestFrom units leading left

/-- Drop trailing zeros, raising the exponent. -/
def dropZeros : (steps : Nat) → Nat → Int → Nat × Int
  | 0, digits, exponent => (digits, exponent)
  | steps + 1, digits, exponent =>
    if digits % 10 = 0 then dropZeros steps (digits / 10) (exponent + 1) else (digits, exponent)

/-- The shortest decimal `digits · 10^exponent` of a positive magnitude. -/
def shortest (units : Nat) : Nat × Int :=
  match shortestFrom units (leadingExponent units) 17 with
  | (digits, exponent) => dropZeros 17 digits exponent

/-- How a format places the point: the exponents written positionally, the
digits of an exponent, and whether a lone leading digit takes `.0` before an
exponent. -/
structure Layout where
  lowest : Int
  highest : Int
  exponentWidth : Nat
  pointBeforeExponent : Bool

def zeros (n : Nat) : List Char := List.replicate n '0'

/-- `digits`, the first of them standing for `10^leading`. -/
def layOut (layout : Layout) (digits : List Char) (leading : Int) : List Char :=
  if layout.lowest ≤ leading && leading ≤ layout.highest then
    if leading < 0 then
      '0' :: '.' :: (zeros (-leading - 1).toNat ++ digits)
    else
      let whole := digits.take (leading.toNat + 1)
      let fraction := digits.drop (leading.toNat + 1)
      whole ++ zeros (leading.toNat + 1 - whole.length) ++
        '.' :: (if fraction.isEmpty then ['0'] else fraction)
  else
    let mantissa :=
      match digits with
      | [] => []
      | [d] => if layout.pointBeforeExponent then [d, '.', '0'] else [d]
      | d :: rest => d :: '.' :: rest
    let power := Nat.toDigits 10 leading.natAbs
    mantissa ++ 'e' :: (if leading < 0 then '-' else '+') ::
      (zeros (layout.exponentWidth - power.length) ++ power)

/-- Numbers in messages and documents. -/
def shortestLayout : Layout := ⟨-4, 15, 2, false⟩

def showUnits (layout : Layout) (decimal : Nat × Int) : List Char :=
  let digits := Nat.toDigits 10 decimal.1
  layOut layout digits (decimal.2 + digits.length - 1)

/-- The text of a number. -/
def text : Binary64 → String
  | .nan => "nan"
  | .infinite negative => if negative then "-inf" else "inf"
  | .finite negative units =>
    let magnitude := if units = 0 then ['0', '.', '0'] else showUnits shortestLayout (shortest units)
    String.ofList (if negative then '-' :: magnitude else magnitude)

end PropertyRisk.Number
