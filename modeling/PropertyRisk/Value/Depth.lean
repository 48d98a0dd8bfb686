import PropertyRisk.Value

/-!
# The depth of a value

A scalar is one level deep, and a list or an object one level deeper than the
deepest value in it.
-/

namespace PropertyRisk.Value

mutual

def depth : Value → Nat
  | .list items => depthOfItems items + 1
  | .object fields => depthOfFields fields + 1
  | _ => 1

/-- The depth of the deepest value of a list; of an empty one there is none. -/
def depthOfItems : List Value → Nat
  | [] => 0
  | v :: rest => max (depth v) (depthOfItems rest)

def depthOfFields : List (String × Value) → Nat
  | [] => 0
  | (_, v) :: rest => max (depth v) (depthOfFields rest)

end

theorem depth_pos (v : Value) : 0 < v.depth := by
  cases v <;> simp [depth]

end PropertyRisk.Value
