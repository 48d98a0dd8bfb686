import PropertyRisk.Engine.RuleChanges

/-!
# Trials of rules

A tree can be tried on sets of observations, and a change of a rule on what the
rule has found, without anything being written.
-/

namespace PropertyRisk.Engine

/-- How many vulnerabilities a change would be judged on, and how many of them
it would remove. -/
structure RulePreview where
  affected : Nat
  removed : Nat
deriving DecidableEq, Repr

/-- One set of observations, and whether a tree triggers on it. -/
structure RuleTrial where
  observations : List Observation
  triggered : Bool
deriving DecidableEq, Repr

namespace Rules

/-- The observations of a trial, given bare or under `observations`. -/
def trialObservations (v : Value) : Except Error (List Observation) :=
  match v with
  | .object fields => readObservationList ((Value.field? "observations" fields).getD (.list []))
  | v => readObservationList v

def try_ (tree : Criteria) (v : Value) : Except Error RuleTrial :=
  match trialObservations v with
  | .error e => .error e
  | .ok observations =>
    match tree.evaluate observations with
    | .error _ => .error (.fault .tooLarge)
    | .ok triggered => .ok ⟨observations, triggered⟩

/-- Tell for each set of observations whether a tree triggers on it. The catalog
is not asked, and nothing is stored. -/
def test (document cases : Value) : Except Error (List RuleTrial) :=
  match Criteria.read document with
  | .error problems => .error (.invalid (.tree problems))
  | .ok tree =>
    match itemsOf cases with
    | .error e => .error e
    | .ok items => items.mapM (try_ tree)

/-- Whether a change to a tree would remove a vulnerability. -/
def wouldRemove (g : Storage σ) (tree : Criteria) (v : Vulnerability) : Op σ Bool := do
  let observations ← observationsOf g v.assessmentId
  if observations.isEmpty then return false
  else return !(← judge tree observations)

/-- Count what a change to a tree would remove, without changing anything. -/
def preview (g : Storage σ) (id document : Value) : Op σ RulePreview := do
  let _ ← get g id
  let tree ← Op.orElse (.invalid <| .tree ·) (Criteria.read document)
  let vulnerabilities ← g.perform (.listVulnerabilitiesForRule id)
  let removed ← vulnerabilities.mapM (wouldRemove g tree)
  return ⟨vulnerabilities.length, removed.count true⟩

end Rules

end PropertyRisk.Engine
