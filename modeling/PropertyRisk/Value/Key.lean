import PropertyRisk.Value

/-!
# Keys

A record is kept under a key. Any value can be a key that is neither a list nor
an object, and equal values are one key: `1`, `1.0` and true name the same
record. NaN equals nothing, so nothing is found under it.
-/

namespace PropertyRisk

inductive Key
  | null
  | whole (n : Int)
  /-- A number that is not whole. -/
  | float (x : Binary64)
  | text (s : String)
deriving DecidableEq, Repr

namespace Value

/-- The key that a value is. -/
def key? : Value → Option Key
  | .null => some .null
  | .bool b => some (.whole (ofBool b))
  | .int n => some (.whole n)
  | .float x =>
    match x.toInt? with
    | some n => some (.whole n)
    | none => some (.float x)
  | .text s => some (.text s)
  | .list _ | .object _ => none

def isNaN : Value → Bool
  | .float .nan => true
  | _ => false

@[simp] theorem key?_text (s : String) : (Value.text s).key? = some (.text s) := rfl

@[simp] theorem isNaN_text (s : String) : (Value.text s).isNaN = false := rfl

end Value

end PropertyRisk
