/-!
# Capital letters

Names of operators, joins and categories are matched by their upper-case text,
and all those names are ASCII. The only characters outside ASCII whose
upper-case form is ASCII are the ten in the table; every other character
outside ASCII keeps its place, so it still matches no ASCII name.
-/

namespace PropertyRisk.Text

/-- The upper-case form of a character, exact wherever that form is ASCII. -/
def capitalForm (c : Char) : List Char :=
  match c.toNat with
  | 0xdf => ['S', 'S']
  | 0x131 => ['I']
  | 0x17f => ['S']
  | 0xfb00 => ['F', 'F']
  | 0xfb01 => ['F', 'I']
  | 0xfb02 => ['F', 'L']
  | 0xfb03 => ['F', 'F', 'I']
  | 0xfb04 => ['F', 'F', 'L']
  | 0xfb05 => ['S', 'T']
  | 0xfb06 => ['S', 'T']
  | _ => [c.toUpper]

def capitals (s : String) : String :=
  String.ofList (s.toList.flatMap capitalForm)

/-- Lower-case letters of ASCII only. -/
def lowerAscii (s : String) : String :=
  String.ofList (s.toList.map Char.toLower)

/-- First letter in upper case, the rest in lower case, for ASCII words. -/
def sentenceCase (s : String) : String :=
  match s.toList with
  | [] => ""
  | c :: cs => String.ofList (c.toUpper :: cs.map Char.toLower)

end PropertyRisk.Text
