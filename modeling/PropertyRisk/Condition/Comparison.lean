import PropertyRisk.Condition
import PropertyRisk.Value.Text
import PropertyRisk.Text.Blank
import PropertyRisk.Number.Reading

/-!
# Comparing a reading with an expected value

Equality is strict about kinds. The order operators first make a number of both
sides, and what is no number compares as false. Containment and membership work
on texts, membership against the parts of the expected text between commas.
-/

namespace PropertyRisk

/-- A whole number past every finite binary64 number was to be compared by
order. -/
structure TooLarge where
  number : Int
deriving DecidableEq, Repr

namespace Text

/-- Whether one text occurs in another, at any place. -/
def occursIn (needle : List Char) : List Char → Bool
  | [] => needle.isEmpty
  | c :: cs => needle.isPrefixOf (c :: cs) || occursIn needle cs

/-- The parts between separators; one more than there are separators. -/
def parts (separator : Char) : List Char → List (List Char)
  | [] => [[]]
  | c :: cs =>
    if c = separator then [] :: parts separator cs
    else
      match parts separator cs with
      | [] => [[c]]
      | first :: others => (c :: first) :: others

end Text

namespace Value

/-- A value as a number for the order operators: a truth value is 1 or 0, blank
text is 0, other text is read, and `none` means that it is no number. -/
def toNumber : Value → Except TooLarge (Option Binary64)
  | .bool b => .ok (some (if b then Binary64.one else Binary64.zero))
  | .int n =>
    match Binary64.ofInt? n with
    | some x => .ok (some x)
    | none => .error ⟨n⟩
  | .float x => .ok (some x)
  | v =>
    let cs := Text.trimBy Text.isBlank v.plain.toList
    .ok (if cs.isEmpty then some Binary64.zero else Number.read? cs)

/-- Compare two values by order, the observed one made a number first. -/
def ordered (r : Binary64 → Binary64 → Bool) (observed expected : Value) : Except TooLarge Bool :=
  match observed.toNumber with
  | .error e => .error e
  | .ok left =>
    match expected.toNumber with
    | .error e => .error e
    | .ok right =>
      match left, right with
      | some a, some b => .ok (r a b)
      | _, _ => .ok false

/-- Whether the text of the expected value occurs in that of the observed one. -/
def containsText (observed expected : Value) : Bool :=
  Text.occursIn expected.comparable.toList observed.comparable.toList

/-- Whether the text of the observed value is one of the parts expected. -/
def amongParts (observed expected : Value) : Bool :=
  (Text.parts ',' expected.comparable.toList).contains observed.comparable.toList

end Value

/-- Apply an operator to an observed and an expected value. -/
def Operator.compare (op : Operator) (observed expected : Value) : Except TooLarge Bool :=
  match op with
  | .equals => .ok (observed.strictEqual expected)
  | .notEquals => .ok (!observed.strictEqual expected)
  | .greaterThan => Value.ordered (fun a b => b.lt a) observed expected
  | .lessThan => Value.ordered Binary64.lt observed expected
  | .greaterOrEqual => Value.ordered (fun a b => b.le a) observed expected
  | .lessOrEqual => Value.ordered Binary64.le observed expected
  | .contains => .ok (observed.containsText expected)
  | .notContains => .ok (!observed.containsText expected)
  | .isIn => .ok (observed.amongParts expected)
  | .notIn => .ok (!observed.amongParts expected)

/-- Apply an operator given by name; a name of no operator compares as false. -/
def compareByName (name : String) (observed expected : Value) : Except TooLarge Bool :=
  match Operator.ofName? name with
  | some op => op.compare observed expected
  | none => .ok false

end PropertyRisk
