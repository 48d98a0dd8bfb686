import PropertyRisk.Condition

/-!
# Catalogs

The observation catalog names what can be observed and the values it can take;
the mitigation catalog names the ways to mitigate and the values to choose from.
A record handed in without an id, or with one that does not hold, gets its id
from the store. A storage may keep any value in a field.
-/

namespace PropertyRisk

structure ObservationType where
  id : Value
  name : Value
  kind : Value
  description : Value
  multiple : Value
deriving DecidableEq, Repr

structure ObservationTypeDraft where
  id : Value := .null
  name : Value
  kind : Value := .text ValueKind.enum.name
  description : Value := .null
  multiple : Value := .bool false
deriving DecidableEq, Repr

structure ObservationValue where
  id : Value
  typeId : Value
  value : Value
  description : Value
deriving DecidableEq, Repr

structure ObservationValueDraft where
  id : Value := .null
  typeId : Value
  value : Value
  description : Value := .null
deriving DecidableEq, Repr

structure MitigationType where
  id : Value
  name : Value
  description : Value
  kind : Value
  multiple : Value
deriving DecidableEq, Repr

structure MitigationTypeDraft where
  id : Value := .null
  name : Value
  description : Value := .null
  kind : Value := .text "enum"
  multiple : Value := .bool false
deriving DecidableEq, Repr

/-- How much of a weakness a mitigation takes away. -/
inductive MitigationCategory
  | full
  | bridge
deriving DecidableEq, Repr

namespace MitigationCategory

def name : MitigationCategory → String
  | full => "FULL"
  | bridge => "BRIDGE"

def all : List MitigationCategory := [full, bridge]

def ofName? (s : String) : Option MitigationCategory := all.find? (·.name = s)

end MitigationCategory

structure MitigationValue where
  id : Value
  typeId : Value
  value : Value
  description : Value
  category : Value
deriving DecidableEq, Repr

structure MitigationValueDraft where
  id : Value := .null
  typeId : Value
  value : Value
  description : Value := .null
  category : Value := .text MitigationCategory.full.name
deriving DecidableEq, Repr

/-- A mitigation type with the values it offers. -/
structure MitigationOption where
  type : MitigationType
  values : List MitigationValue
deriving DecidableEq, Repr

def ObservationTypeDraft.withId (d : ObservationTypeDraft) (id : Value) : ObservationType :=
  ⟨id, d.name, d.kind, d.description, d.multiple⟩

def ObservationValueDraft.withId (d : ObservationValueDraft) (id : Value) : ObservationValue :=
  ⟨id, d.typeId, d.value, d.description⟩

def MitigationTypeDraft.withId (d : MitigationTypeDraft) (id : Value) : MitigationType :=
  ⟨id, d.name, d.description, d.kind, d.multiple⟩

def MitigationValueDraft.withId (d : MitigationValueDraft) (id : Value) : MitigationValue :=
  ⟨id, d.typeId, d.value, d.description, d.category⟩

end PropertyRisk
