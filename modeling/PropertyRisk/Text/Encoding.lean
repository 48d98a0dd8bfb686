import PropertyRisk.Text.Surrogate
import PropertyRisk.Text.Utf8

/-!
# Encodings of documents

A document starts with an ASCII character, so the zeros among its first bytes
tell whether its units are of one, two or four bytes, and which byte of a unit
comes first. Half of a surrogate pair may stand alone in two-byte units.
-/

namespace PropertyRisk.Text

inductive Encoding
  | utf8
  | utf16 (lastByteFirst : Bool)
  | utf32 (lastByteFirst : Bool)
deriving DecidableEq, Repr

namespace Encoding

/-- The encoding that the first bytes of a document show. -/
def of : List Nat → Encoding
  | 0 :: 0 :: _ :: _ :: _ => utf32 false
  | 0 :: _ :: _ :: _ :: _ => utf16 false
  | _ :: 0 :: 0 :: 0 :: _ => utf32 true
  | _ :: 0 :: _ :: _ :: _ => utf16 true
  | [0, _] => utf16 false
  | [_, 0] => utf16 true
  | _ => utf8

end Encoding

/-- The units of two bytes each, if no byte is left over. -/
def pairs? (lastByteFirst : Bool) : List Nat → Option (List Nat)
  | [] => some []
  | a :: b :: rest =>
    (pairs? lastByteFirst rest).map ((if lastByteFirst then 256 * b + a else 256 * a + b) :: ·)
  | [_] => none

/-- The numbers that two units each make. -/
def joinUnits? (lastUnitFirst : Bool) : List Nat → Option (List Nat)
  | [] => some []
  | a :: b :: rest =>
    (joinUnits? lastUnitFirst rest).map
      ((if lastUnitFirst then 65536 * b + a else 65536 * a + b) :: ·)
  | [_] => none

def isHighHalf (unit : Nat) : Bool := 0xd800 ≤ unit && unit ≤ 0xdbff

def isLowHalf (unit : Nat) : Bool := 0xdc00 ≤ unit && unit ≤ 0xdfff

/-- The character of a code point, which may be half of a surrogate pair. -/
def charOf? (code : Nat) : Option Char :=
  if isHighHalf code || isLowHalf code then some (ofHalf code)
  else if Nat.isValidChar code then some (Char.ofNat code)
  else none

/-- The characters of two-byte units. -/
def ofUnits : List Nat → List Char
  | high :: low :: rest =>
    if isHighHalf high && isLowHalf low then
      Char.ofNat (0x10000 + (high - 0xd800) * 0x400 + (low - 0xdc00)) :: ofUnits rest
    else (charOf? high).toList ++ ofUnits (low :: rest)
  | [unit] => (charOf? unit).toList
  | [] => []
termination_by units => units.length

/-- The text that bytes stand for, given as the characters that they make in
UTF-8; none if they end within a unit or name no character. -/
def decoded? (s : String) : Option String :=
  let bytes := s.toList.flatMap utf8
  match Encoding.of bytes with
  | .utf8 => some s
  | .utf16 lastByteFirst => (pairs? lastByteFirst bytes).map fun units => String.ofList (ofUnits units)
  | .utf32 lastByteFirst => do
    let units ← pairs? lastByteFirst bytes
    let codes ← joinUnits? lastByteFirst units
    return String.ofList (← codes.mapM charOf?)

end PropertyRisk.Text
