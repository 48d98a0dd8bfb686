/-!
# Blank characters

Two sets of blank characters are in use. `isBlank` is the wide one, with the
four information separators; `isSpace` is the property White_Space of the
Unicode standard. Trimming removes blanks at both ends and nothing inside.
-/

namespace PropertyRisk.Text

/-- The Unicode property White_Space. -/
def isSpace (c : Char) : Bool :=
  let n := c.toNat
  (0x9 ≤ n && n ≤ 0xd) || n == 0x20 || n == 0x85 || n == 0xa0 || n == 0x1680 ||
    (0x2000 ≤ n && n ≤ 0x200a) || n == 0x2028 || n == 0x2029 || n == 0x202f ||
    n == 0x205f || n == 0x3000

/-- White space together with the information separators U+001C to U+001F. -/
def isBlank (c : Char) : Bool :=
  isSpace c || (0x1c ≤ c.toNat && c.toNat ≤ 0x1f)

/-- Drop the characters of a class at both ends. -/
def trimBy (blank : Char → Bool) (cs : List Char) : List Char :=
  ((cs.dropWhile blank).reverse.dropWhile blank).reverse

def trim (s : String) : String :=
  String.ofList (trimBy isBlank s.toList)

/-- Trim white space only, keeping information separators. -/
def trimSpace (s : String) : String :=
  String.ofList (trimBy isSpace s.toList)

theorem isBlank_of_isWhitespace (c : Char) (h : c.isWhitespace = true) : isBlank c = true := by
  simp only [Char.isWhitespace, Bool.or_eq_true, decide_eq_true_eq] at h
  rcases h with ((h | h) | h) | h <;> subst h <;> rfl

@[simp] theorem trimBy_nil (blank : Char → Bool) : trimBy blank [] = [] := rfl

end PropertyRisk.Text
