/-!
# Surrogates that stand alone

A text from outside may hold one half of a surrogate pair without the other. No
`Char` is such a half, so the half U+D800 + k is kept as the private-use
character U+10D800 + k, and is written out as the half it stands for.
-/

namespace PropertyRisk.Text

/-- How far a half is from the character that stands for it. -/
def halfOffset : Nat := 0x100000

/-- The character that stands for a half. -/
def ofHalf (code : Nat) : Char := Char.ofNat (code + halfOffset)

/-- The half that a character stands for. -/
def half? (c : Char) : Option Nat :=
  if 0x10d800 ≤ c.toNat && c.toNat ≤ 0x10dfff then some (c.toNat - halfOffset) else none

/-- Whether a text holds no half, so that it can be encoded. -/
def isWhole (s : String) : Bool := s.toList.all fun c => (half? c).isNone

end PropertyRisk.Text
