import PropertyRisk.Number.Binary64
import PropertyRisk.Number.Digit

/-!
# Reading a number

A number is written as an optional sign and either a decimal, with an optional
fraction and exponent, or one of the words `inf`, `infinity` and `nan` in any
case. Digits may be of any script, and an underscore may stand between two
digits. The value is the nearest binary64 number; a decimal past the finite
range reads as infinity.
-/

namespace PropertyRisk.Number

/-- The nearest binary64 number to `digits · 10^exponent`. Outside the clamped
range of exponents the result is infinite or zero, whatever the digits. -/
def ofDecimal (negative : Bool) (digits : Nat) (exponent : Int) : Binary64 :=
  if digits = 0 then .finite negative 0
  else
    let top := (Nat.toDigits 10 digits).length + exponent
    if 310 < top then .infinite negative
    else if top < -330 then .finite negative 0
    else if 0 ≤ exponent then
      .ofUnits negative
        (Binary64.roundUnits (digits * Nat.pow 10 exponent.toNat * Binary64.unitsPerOne) 1)
    else
      .ofUnits negative
        (Binary64.roundUnits (digits * Binary64.unitsPerOne) (Nat.pow 10 (-exponent).toNat))

/-- An optional sign in front: whether it is a minus, and the rest. -/
def takeSign : List Char → Bool × List Char
  | '-' :: rest => (true, rest)
  | '+' :: rest => (false, rest)
  | rest => (false, rest)

/-- The leading decimal digits, as values, and the rest. -/
def takeDigits : List Char → List Nat × List Char
  | [] => ([], [])
  | c :: rest =>
    match digitValue? c with
    | some d => ((d :: (takeDigits rest).1), (takeDigits rest).2)
    | none => ([], c :: rest)

/-- Drop the underscores that stand between two digits; `none` when one stands
elsewhere. `afterDigit` tells whether the character before is a digit. -/
def dropUnderscores (afterDigit : Bool) : List Char → Option (List Char)
  | [] => some []
  | '_' :: rest =>
    match afterDigit, rest with
    | true, next :: _ =>
      if (digitValue? next).isSome then dropUnderscores false rest else none
    | _, _ => none
  | c :: rest => (dropUnderscores (digitValue? c).isSome rest).map (c :: ·)

/-- An exponent that is the whole rest of the text, or nothing. -/
def readExponent : List Char → Option Int
  | [] => some 0
  | c :: rest =>
    if c == 'e' || c == 'E' then
      match takeSign rest with
      | (negative, digits) =>
        match takeDigits digits with
        | ([], _) => none
        | (ds, []) => some (Binary64.signed negative (ofDigits ds))
        | (_, _ :: _) => none
    else none

/-- A decimal without sign and underscores. -/
def readDecimal (negative : Bool) (cs : List Char) : Option Binary64 :=
  match takeDigits cs with
  | (whole, '.' :: rest) =>
    match takeDigits rest with
    | (fraction, rest) =>
      if whole.isEmpty && fraction.isEmpty then none
      else (readExponent rest).map fun e =>
        ofDecimal negative (ofDigits (whole ++ fraction)) (e - fraction.length)
  | ([], _) => none
  | (whole, rest) => (readExponent rest).map (ofDecimal negative (ofDigits whole) ·)

/-- Read a whole text, already trimmed, as a number. -/
def read? (cs : List Char) : Option Binary64 :=
  match takeSign cs with
  | (negative, rest) =>
    let word := String.ofList (rest.map Char.toLower)
    if word = "inf" || word = "infinity" then some (.infinite negative)
    else if word = "nan" then some .nan
    else (dropUnderscores false rest).bind (readDecimal negative)

end PropertyRisk.Number
