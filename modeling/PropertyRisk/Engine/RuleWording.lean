import PropertyRisk.Engine.RuleChanges
import PropertyRisk.Condition.Phrase

/-!
# Rules in plain words

A stored rule is worded with the names that the catalog has for what its tree
refers to.
-/

namespace PropertyRisk.Engine.Rules

/-- The id and the label of a value. Labels are joined, so they must be texts. -/
def labelOf (v : ObservationValue) : Except Error (String × String) :=
  match v.value with
  | .text label => .ok (v.id.plain, label)
  | _ => .error (.fault .wrongShape)

/-- The catalog names of everything a tree names. -/
def namesIn (g : Storage σ) (tree : Criteria) : Op σ Names := do
  let typeIds := distinctSorted (tree.leaves.map Leaf.typeId)
  let valueIds := distinctSorted (valueIdsOf tree.leaves)
  let types ← if typeIds.isEmpty then pure []
    else g.perform (.getObservationTypes (typeIds.map .text))
  let values ← if valueIds.isEmpty then pure []
    else g.perform (.getObservationValues (valueIds.map .text))
  return ⟨types.map fun t => (t.id.plain, t.name.plain), ← Op.ofExcept (values.mapM labelOf)⟩

def render (g : Storage σ) (id : Value) : Op σ String := do
  let rule ← get g id
  let names ← namesIn g rule.tree
  return "Rule: " ++ rule.name.plain ++ "\nDescription: " ++ rule.description.plain ++
    "\nConditions: " ++ rule.tree.phrase names

end PropertyRisk.Engine.Rules
