import PropertyRisk.Condition.Comparison
import PropertyRisk.Observation

/-!
# Judging condition trees

A tree is judged on a list of observations, of which the first of each type
counts. A leaf whose type was not observed does not hold, nor does a group
without members. Members are judged in order, and no further than needed.
-/

namespace PropertyRisk

/-- The first observation of a type. -/
def firstOf (typeId : String) (observations : List Observation) : Option Observation :=
  observations.find? (·.typeId = typeId)

namespace Leaf

/-- Judge a leaf on the observation of its type. -/
def holdsOf (l : Leaf) (o : Observation) : Except TooLarge Bool :=
  match l.valueIds with
  | some ids => .ok (ids.contains (o.valueId.getD ""))
  | none =>
    if l.value = .null ∨ o.value = .null then .ok false
    else l.operator.compare o.value l.value

def evaluate (observations : List Observation) (l : Leaf) : Except TooLarge Bool :=
  match firstOf l.typeId observations with
  | none => .ok false
  | some o => l.holdsOf o

end Leaf

namespace Condition

mutual

def evaluate (observations : List Observation) : Condition → Except TooLarge Bool
  | .leaf l => l.evaluate observations
  | .group join conditions =>
    match conditions, join with
    | [], _ => .ok false
    | c :: rest, .and => allHold observations (c :: rest)
    | c :: rest, .or => anyHolds observations (c :: rest)

def allHold (observations : List Observation) : List Condition → Except TooLarge Bool
  | [] => .ok true
  | c :: rest =>
    match evaluate observations c with
    | .ok true => allHold observations rest
    | other => other

def anyHolds (observations : List Observation) : List Condition → Except TooLarge Bool
  | [] => .ok false
  | c :: rest =>
    match evaluate observations c with
    | .ok false => anyHolds observations rest
    | other => other

end

end Condition

/-- Whether a rule's logic triggers on some observations. -/
def Criteria.evaluate (observations : List Observation) (c : Criteria) : Except TooLarge Bool :=
  c.toCondition.evaluate observations

end PropertyRisk
