import PropertyRisk.Storage
import PropertyRisk.Text.Capital

/-!
# Keeping the catalogs

Kinds and categories are matched in any case. A value is created only under a
type that exists.
-/

namespace PropertyRisk.Engine

/-- The name that a value gives in any case. -/
def memberName (ofName? : String → Option α) (name : α → String) (all : List α) (field : String)
    (given : Value) : Except Error String :=
  match ofName? (Text.capitals given.plain) with
  | some a => .ok (name a)
  | none => .error (.invalid (.notMember field (all.map name)))

namespace Catalogs

def createObservationType (g : Storage σ) (name kind description multiple : Value) :
    Op σ ObservationType := do
  let kind ← Op.ofExcept
    (memberName ValueKind.ofName? ValueKind.name ValueKind.all "value_type" kind)
  g.perform (.createObservationType { name, kind := .text kind, description, multiple })

def listObservationTypes (g : Storage σ) : Op σ (List ObservationType) :=
  g.perform .listObservationTypes

def createObservationValue (g : Storage σ) (typeId value description : Value) :
    Op σ ObservationValue := do
  if (← g.perform (.getObservationTypes [typeId])).isEmpty then
    throw (.notFound .observationType typeId)
  else g.perform (.createObservationValue { typeId, value, description })

def createMitigationType (g : Storage σ) (name description multiple : Value) :
    Op σ MitigationType :=
  g.perform (.createMitigationType { name, description, multiple })

def listMitigationTypes (g : Storage σ) : Op σ (List MitigationType) :=
  g.perform .listMitigationTypes

def createMitigationValue (g : Storage σ) (typeId value description category : Value) :
    Op σ MitigationValue := do
  match ← g.perform (.getMitigationType typeId) with
  | none => throw (.notFound .mitigationType typeId)
  | some _ =>
    let category ← Op.ofExcept
      (memberName MitigationCategory.ofName? MitigationCategory.name MitigationCategory.all
        "category" category)
    g.perform (.createMitigationValue { typeId, value, description, category := .text category })

end Catalogs

end PropertyRisk.Engine
