import PropertyRisk.Text.Printable
import PropertyRisk.Text.Surrogate

/-!
# Quoted text

Text inside a message stands in single quotes, or in double quotes when it
holds a single quote and no double one. The quote in use and the backslash are
escaped, and so is every character that is not printable, a lone surrogate among
them.
-/

namespace PropertyRisk.Text

/-- `width` lower-case hexadecimal digits, with leading zeros. -/
def hexDigits (width n : Nat) : List Char :=
  let digits := Nat.toDigits 16 n
  List.replicate (width - digits.length) '0' ++ digits

def escaped (quote : Char) (c : Char) : List Char :=
  if c == quote || c == '\\' then ['\\', c]
  else if c == '\n' then ['\\', 'n']
  else if c == '\r' then ['\\', 'r']
  else if c == '\t' then ['\\', 't']
  else if let some half := half? c then '\\' :: 'u' :: hexDigits 4 half
  else if isPrintable c then [c]
  else if c.toNat < 0x100 then '\\' :: 'x' :: hexDigits 2 c.toNat
  else if c.toNat < 0x10000 then '\\' :: 'u' :: hexDigits 4 c.toNat
  else '\\' :: 'U' :: hexDigits 8 c.toNat

/-- The quote character for a text. -/
def quoteFor (cs : List Char) : Char :=
  if cs.contains '\'' && !cs.contains '"' then '"' else '\''

def quoted (s : String) : String :=
  let cs := s.toList
  let quote := quoteFor cs
  String.ofList (quote :: (cs.flatMap (escaped quote) ++ [quote]))

end PropertyRisk.Text
