/-!
# Binary64 numbers

A finite binary64 number is a whole multiple of 2^-1074, so its magnitude is a
natural number of such units. Order and equality then are those of the
integers. Rounding is to the nearest representable number, a tie going to the
even neighbour.
-/

namespace PropertyRisk

/-- Binary64 numbers; `units` counts multiples of 2^-1074. -/
inductive Binary64
  | nan
  | infinite (negative : Bool)
  | finite (negative : Bool) (units : Nat)
deriving DecidableEq, Repr, Inhabited

namespace Binary64

/-- The number one, in units. -/
def unitsPerOne : Nat := Nat.pow 2 1074

/-- The first magnitude past the largest finite number, in units. -/
def limit : Nat := Nat.pow 2 2098

/-- The distance between neighbours at a magnitude: 53 significant bits, and
never less than one unit. -/
def spacing (units : Nat) : Nat := Nat.pow 2 (units.log2 - 52)

/-- The whole number nearest to `num / den`, a tie going to the even one. -/
def roundDiv (num den : Nat) : Nat :=
  let low := num / den
  let twice := 2 * (num % den)
  if twice < den then low
  else if den < twice then low + 1
  else if low % 2 = 0 then low else low + 1

/-- The representable magnitude nearest to `num / den` units. -/
def roundUnits (num den : Nat) : Nat :=
  let step := spacing (num / den)
  roundDiv num (den * step) * step

def ofUnits (negative : Bool) (units : Nat) : Binary64 :=
  if limit ≤ units then .infinite negative else .finite negative units

/-- The nearest number to an integer; `none` when it is past every finite one. -/
def ofInt? (n : Int) : Option Binary64 :=
  let units := roundUnits (n.natAbs * unitsPerOne) 1
  if limit ≤ units then none else some (.finite (decide (n < 0)) units)

def zero : Binary64 := .finite false 0

def one : Binary64 := .finite false unitsPerOne

def signed (negative : Bool) (n : Nat) : Int :=
  if negative then -(n : Int) else n

/-- The place of a number on the integer line, in units; infinities stand at
the limit, which no finite number reaches. NaN has no place. -/
def place : Binary64 → Option Int
  | .nan => none
  | .infinite negative => some (signed negative limit)
  | .finite negative units => some (signed negative units)

/-- Compare two numbers by their places; false as soon as one is NaN. -/
def relate (r : Int → Int → Bool) (a b : Binary64) : Bool :=
  match a.place, b.place with
  | some x, some y => r x y
  | _, _ => false

def lt (a b : Binary64) : Bool := relate (fun x y => decide (x < y)) a b

def le (a b : Binary64) : Bool := relate (fun x y => decide (x ≤ y)) a b

/-- Numeric equality: the two zeros are equal, NaN equals nothing. -/
def same (a b : Binary64) : Bool := relate (fun x y => decide (x = y)) a b

/-- Exact equality with an integer, without rounding the integer. -/
def sameInt (a : Binary64) (n : Int) : Bool :=
  match a with
  | .finite negative units => decide (signed negative units = n * unitsPerOne)
  | _ => false

/-- The integer that a number is, if it is one. -/
def toInt? : Binary64 → Option Int
  | .finite negative units =>
    if units % unitsPerOne = 0 then some (signed negative (units / unitsPerOne)) else none
  | _ => none

theorem place_inj_iff {x y : Int} {a b : Binary64} (ha : a.place = some x) (hb : b.place = some y) :
    a.same b = true ↔ x = y := by
  simp [same, relate, ha, hb]

theorem same_comm (a b : Binary64) : a.same b = b.same a := by
  unfold same relate
  cases a.place <;> cases b.place <;> simp [eq_comm]

theorem lt_irrefl (a : Binary64) : a.lt a = false := by
  unfold lt relate
  cases a.place <;> simp

end Binary64

end PropertyRisk
