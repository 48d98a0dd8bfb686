import PropertyRisk.Condition

/-!
# Writing condition trees

The document of a tree names every join, operator and kind, and leaves out a
leaf's absent value and value ids.
-/

namespace PropertyRisk

def Leaf.toValue (l : Leaf) : Value :=
  .object <|
    [("observation_type_id", .text l.typeId), ("operator", .text l.operator.name),
      ("value_type", .text l.kind.name)] ++
    (if l.value = .null then [] else [("value", l.value)]) ++
    l.valueIds.toList.map fun ids => ("observation_value_ids", .list (ids.map .text))

namespace Condition

mutual

def toValue : Condition → Value
  | .leaf l => l.toValue
  | .group join conditions =>
    .object [("join_operator", .text join.name), ("conditions", .list (toValues conditions))]

def toValues : List Condition → List Value
  | [] => []
  | c :: rest => toValue c :: toValues rest

end

end Condition

def Criteria.toValue (c : Criteria) : Value := c.toCondition.toValue

end PropertyRisk
