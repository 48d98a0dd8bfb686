import PropertyRisk.Value.Text

/-!
# Observations

An observation is one measured fact about a property: of which type it is, and
a catalog value, a raw reading, or both. An absent reading is `null`.
-/

namespace PropertyRisk

structure Observation where
  typeId : String
  valueId : Option String := none
  value : Value := .null
deriving DecidableEq, Repr, Inhabited

namespace Observation

/-- The observation that a document describes; it must name a type. -/
def ofValue? : Value → Option Observation
  | .object fields =>
    let typeId := (Value.field? "observation_type_id" fields).getD .null
    if typeId.holds then
      some {
        typeId := typeId.plain
        valueId :=
          match Value.field? "observation_value_id" fields with
          | none | some .null => none
          | some v => some v.plain
        value := (Value.field? "value" fields).getD .null }
    else none
  | _ => none

/-- The document of an observation, without its absent fields. -/
def toValue (o : Observation) : Value :=
  .object <|
    ("observation_type_id", .text o.typeId) ::
      ((o.valueId.toList.map fun id => ("observation_value_id", Value.text id)) ++
        if o.value = .null then [] else [("value", o.value)])

/-- The document of a list of observations. -/
def listToValue (observations : List Observation) : Value := .list (observations.map toValue)

/-- The record of an observation, absent fields included. -/
def toRecord (o : Observation) : Value :=
  .object [("observation_type_id", .text o.typeId),
    ("observation_value_id", .ofText? o.valueId), ("value", o.value)]

end Observation

end PropertyRisk
