/-!
# UTF-8

Bytes are read as characters. Where they make none, the longest start of a
character among them reads as one U+FFFD, and reading goes on after it.
-/

namespace PropertyRisk.Text

def utf8 (c : Char) : List Nat := (String.singleton c).toUTF8.toList.map UInt8.toNat

/-- How many bytes follow a first byte, and the least and the greatest byte that
may come next. No character is written longer than it has to be, and surrogates
are none. -/
def following? (byte : Nat) : Option (Nat × Nat × Nat) :=
  if byte < 0xc2 then none
  else if byte < 0xe0 then some (1, 0x80, 0xbf)
  else if byte < 0xf0 then
    some (2, if byte = 0xe0 then 0xa0 else 0x80, if byte = 0xed then 0x9f else 0xbf)
  else if byte < 0xf5 then
    some (3, if byte = 0xf0 then 0x90 else 0x80, if byte = 0xf4 then 0x8f else 0xbf)
  else none

/-- The part of a code point that a first byte holds. -/
def leadingBits (byte : Nat) : Nat :=
  if byte < 0xe0 then byte - 0xc0 else if byte < 0xf0 then byte - 0xe0 else byte - 0xf0

/-- Take in the bytes that are still to follow, the next of them between two
bounds. -/
def continued (code : Nat) : (more least greatest : Nat) → List Nat → Option Nat × List Nat
  | 0, _, _, bytes => (some code, bytes)
  | more + 1, least, greatest, byte :: bytes =>
    if least ≤ byte && byte ≤ greatest then
      continued (64 * code + (byte - 0x80)) more 0x80 0xbf bytes
    else (none, byte :: bytes)
  | _ + 1, _, _, [] => (none, [])

/-- The character that starts with a byte, and the bytes after it. -/
def takeCharacter (byte : Nat) (rest : List Nat) : Char × List Nat :=
  if byte < 0x80 then (Char.ofNat byte, rest)
  else
    match following? byte with
    | none => ('\ufffd', rest)
    | some (more, least, greatest) =>
      match continued (leadingBits byte) more least greatest rest with
      | (some code, rest) => (Char.ofNat code, rest)
      | (none, rest) => ('\ufffd', rest)

/-- Every round uses up a byte at least. -/
def charactersWithin : (fuel : Nat) → List Nat → List Char
  | 0, _ | _, [] => []
  | fuel + 1, byte :: rest =>
    match takeCharacter byte rest with
    | (c, rest) => c :: charactersWithin fuel rest

def characters (bytes : List Nat) : List Char := charactersWithin bytes.length bytes

end PropertyRisk.Text
