import PropertyRisk.Condition
import PropertyRisk.Value.Text

/-!
# Rules in plain words

A tree is written with the names of observation types and values from the
catalog, an id standing for itself when the catalog has no name. Members are
separated by the join in lower case, and a nested group stands in parentheses.
A leaf without value ids and without a value is written as nothing.
-/

namespace PropertyRisk

def Operator.phrase : Operator → String
  | .equals => "equals"
  | .notEquals => "does not equal"
  | .greaterThan => "is greater than"
  | .lessThan => "is less than"
  | .greaterOrEqual => "is greater than or equal to"
  | .lessOrEqual => "is less than or equal to"
  | .contains => "contains"
  | .notContains => "does not contain"
  | .isIn => "is in"
  | .notIn => "is not in"

def Join.phrase : Join → String
  | .and => " and "
  | .or => " or "

/-- The names of observation types and values, by id. -/
structure Names where
  types : List (String × String)
  values : List (String × String)

/-- The name of an id, or the id itself. -/
def nameIn (names : List (String × String)) (id : String) : String :=
  (names.lookup id).getD id

def Leaf.phrase (names : Names) (l : Leaf) : String :=
  let type := nameIn names.types l.typeId
  match l.valueIds with
  | some ids => type ++ " is " ++ Value.joined " or " (ids.map (nameIn names.values))
  | none =>
    if l.value = .null then ""
    else type ++ " " ++ l.operator.phrase ++ " " ++ l.value.comparable

namespace Condition

mutual

/-- A member of a group. -/
def phrase (names : Names) : Condition → String
  | .leaf l => l.phrase names
  | .group join conditions =>
    "(" ++ Value.joined join.phrase (phrases names conditions) ++ ")"

def phrases (names : Names) : List Condition → List String
  | [] => []
  | c :: rest => phrase names c :: phrases names rest

end

end Condition

def Criteria.phrase (names : Names) (c : Criteria) : String :=
  Value.joined c.join.phrase (Condition.phrases names c.conditions)

end PropertyRisk
