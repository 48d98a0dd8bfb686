import PropertyRisk.Value

/-!
# The order of values

Numbers are ordered by size, texts by their characters, and lists by their first
items that differ. Values of different kinds have no order, nor have absent
values and objects. NaN comes neither before nor after a number.
-/

namespace PropertyRisk.Value

/-- Where a number stands: before, among or after the finite ones, and there at
which multiple of the smallest step. -/
structure Place where
  side : Int
  units : Int
deriving DecidableEq, Repr

def Place.before (p q : Place) : Bool :=
  decide (p.side < q.side) || (decide (p.side = q.side) && decide (p.units < q.units))

/-- The places of a value that is a number; NaN has none. -/
def places? : Value → Option (List Place)
  | .bool b => some [⟨0, ofBool b * Binary64.unitsPerOne⟩]
  | .int n => some [⟨0, n * Binary64.unitsPerOne⟩]
  | .float .nan => some []
  | .float (.infinite negative) => some [⟨Binary64.signed negative 1, 0⟩]
  | .float (.finite negative units) => some [⟨0, Binary64.signed negative units⟩]
  | _ => none

mutual

/-- Whether one value comes before another, if they have an order. -/
def before? : Value → Value → Option Bool
  | .text a, .text b => some (decide (a < b))
  | .list as, .list bs => itemsBefore? as bs
  | a, b =>
    match a.places?, b.places? with
    | some [p], some [q] => some (p.before q)
    | some _, some _ => some false
    | _, _ => none

def itemsBefore? : List Value → List Value → Option Bool
  | [], bs => some (!bs.isEmpty)
  | _ :: _, [] => some false
  | a :: as, b :: bs => if equal a b then itemsBefore? as bs else before? a b

end

/-- Whether every two of some values have an order. -/
def allOrdered : List Value → Bool
  | [] => true
  | v :: rest => rest.all (fun w => (before? v w).isSome && (before? w v).isSome) && allOrdered rest

/-- Records in the order of a value of theirs, equal ones as they came; none if
two of the values have no order. -/
def sortedBy? (key : α → Value) (records : List α) : Option (List α) :=
  if allOrdered (records.map key) then
    some (records.mergeSort fun a b => decide (before? (key b) (key a) ≠ some true))
  else none

@[simp] theorem before?_text (a b : String) :
    before? (.text a) (.text b) = some (decide (a < b)) := by
  simp [before?]

end PropertyRisk.Value
