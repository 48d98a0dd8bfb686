import PropertyRisk.Value

/-!
# Condition trees

A rule's logic is a tree. A leaf states one test on the observations of a type:
either that the recorded catalog value is among some values, or that the reading
compares with an expected value. A group joins its members by *and* or *or*.
The top of a rule is always a group, so it has a type of its own, `Criteria`.
-/

namespace PropertyRisk

inductive Operator
  | equals
  | notEquals
  | greaterThan
  | lessThan
  | greaterOrEqual
  | lessOrEqual
  | contains
  | notContains
  | isIn
  | notIn
deriving DecidableEq, Repr, Inhabited

namespace Operator

def all : List Operator :=
  [equals, notEquals, greaterThan, lessThan, greaterOrEqual, lessOrEqual, contains, notContains,
    isIn, notIn]

def name : Operator → String
  | equals => "EQUALS"
  | notEquals => "NOT_EQUALS"
  | greaterThan => "GREATER_THAN"
  | lessThan => "LESS_THAN"
  | greaterOrEqual => "GREATER_THAN_OR_EQUALS"
  | lessOrEqual => "LESS_THAN_OR_EQUALS"
  | contains => "CONTAINS"
  | notContains => "NOT_CONTAINS"
  | isIn => "IN"
  | notIn => "NOT_IN"

def ofName? (s : String) : Option Operator := all.find? (·.name = s)

@[simp] theorem ofName?_name (op : Operator) : ofName? op.name = some op := by
  cases op <;> decide

end Operator

inductive Join
  | and
  | or
deriving DecidableEq, Repr, Inhabited

namespace Join

def name : Join → String
  | and => "AND"
  | or => "OR"

def ofName? (s : String) : Option Join := [and, or].find? (·.name = s)

@[simp] theorem ofName?_name (j : Join) : ofName? j.name = some j := by
  cases j <;> decide

end Join

/-- What kind of value a leaf is about. It documents the leaf and has no part in
judging it. -/
inductive ValueKind
  | enum
  | boolean
  | number
  | string
  | date
deriving DecidableEq, Repr, Inhabited

namespace ValueKind

def all : List ValueKind := [enum, boolean, number, string, date]

def name : ValueKind → String
  | enum => "ENUM"
  | boolean => "BOOLEAN"
  | number => "NUMBER"
  | string => "STRING"
  | date => "DATE"

def ofName? (s : String) : Option ValueKind := all.find? (·.name = s)

@[simp] theorem ofName?_name (k : ValueKind) : ofName? k.name = some k := by
  cases k <;> decide

end ValueKind

/-- One test. With `valueIds` it asks for a catalog value, and the operator and
value play no part; an absent value is `null`. -/
structure Leaf where
  typeId : String
  operator : Operator := .equals
  kind : ValueKind := .enum
  value : Value := .null
  valueIds : Option (List String) := none
deriving DecidableEq, Repr, Inhabited

inductive Condition
  | leaf (leaf : Leaf)
  | group (join : Join) (conditions : List Condition)
deriving Repr, Inhabited

/-- The logic of a rule: a group at the top. -/
structure Criteria where
  join : Join
  conditions : List Condition
deriving Repr, Inhabited

namespace Condition

mutual

def decEq : (a b : Condition) → Decidable (a = b)
  | .leaf a, .leaf b => decidable_of_iff (a = b) ⟨congrArg _, fun h => by injection h⟩
  | .group j as, .group k bs =>
    if hj : j = k then
      match decEqList as bs with
      | isTrue h => isTrue (by rw [hj, h])
      | isFalse h => isFalse fun e => h (by injection e)
    else isFalse fun e => hj (by injection e)
  | .leaf _, .group .. | .group .., .leaf _ => isFalse (by simp)

def decEqList : (as bs : List Condition) → Decidable (as = bs)
  | [], [] => isTrue rfl
  | [], _ :: _ => isFalse (by simp)
  | _ :: _, [] => isFalse (by simp)
  | a :: as, b :: bs =>
    match decEq a b, decEqList as bs with
    | isTrue h, isTrue hs => isTrue (by rw [h, hs])
    | isFalse h, _ => isFalse fun e => h (List.cons.inj e).1
    | _, isFalse h => isFalse fun e => h (List.cons.inj e).2

end

instance : DecidableEq Condition := decEq

mutual

/-- The leaves of a tree, depth first, in the order written. -/
def leaves : Condition → List Leaf
  | .leaf l => [l]
  | .group _ conditions => leavesOf conditions

def leavesOf : List Condition → List Leaf
  | [] => []
  | c :: rest => leaves c ++ leavesOf rest

end

theorem leavesOf_eq_flatMap (cs : List Condition) : leavesOf cs = cs.flatMap leaves := by
  induction cs with
  | nil => rfl
  | cons c rest ih => simp [leavesOf, ih]

end Condition

deriving instance DecidableEq for Criteria

namespace Criteria

def toCondition (c : Criteria) : Condition := .group c.join c.conditions

def leaves (c : Criteria) : List Leaf := Condition.leavesOf c.conditions

@[simp] theorem leaves_toCondition (c : Criteria) : c.toCondition.leaves = c.leaves := by
  simp [toCondition, leaves, Condition.leaves]

end Criteria

end PropertyRisk
