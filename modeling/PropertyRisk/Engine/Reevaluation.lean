import PropertyRisk.Engine.Workflow

/-!
# Re-evaluating properties

Re-evaluating a property judges all its vulnerabilities under the rules as they
stand and deletes what no longer triggers. Where a rule is gone nothing is
judged, and the vulnerability is reported.
-/

namespace PropertyRisk.Engine

/-- What re-evaluating a property came to. -/
structure Reevaluation where
  propertyId : Value
  checked : Nat
  removed : Nat
  orphaned : List Value
  errors : List ItemFailure
deriving DecidableEq, Repr

namespace Vulnerabilities

/-- Whether a vulnerability's rule, if it exists, triggers on its observations. -/
def evaluate (g : Storage σ) (id : Value) : Op σ Bool := do
  let v ← get g id
  match ← g.perform (.getRule v.ruleId) with
  | none => return false
  | some rule => judge rule.tree (← observationsOf g v.assessmentId)

/-- What became of a vulnerability when its property was re-evaluated. -/
inductive Finding
  /-- Its rule does not exist. -/
  | orphaned
  /-- It has no observations to be judged on. -/
  | unjudged
  | kept
  | removed
  /-- The storage failed before it was judged. -/
  | failed (failure : StorageFailure)
  /-- It was judged, and its deletion failed. -/
  | failedToRemove (failure : StorageFailure)
deriving DecidableEq, Repr

def discard (g : Storage σ) (v : Vulnerability) : Op σ Finding := do
  match ← Op.attempt (g.perform (.deleteVulnerability v.id)) with
  | .error failure => return .failedToRemove failure
  | .ok true => return .removed
  | .ok false => return .kept

/-- Judge a vulnerability under a rule. -/
def rejudge (g : Storage σ) (rule : Rule) (v : Vulnerability) : Op σ Finding := do
  match ← Op.attempt (observationsOf g v.assessmentId) with
  | .error failure => return .failed failure
  | .ok observations =>
    if observations.isEmpty then return .unjudged
    else if ← judge rule.tree observations then return .kept
    else discard g v

def reexamine (g : Storage σ) (v : Vulnerability) : Op σ Finding := do
  match ← Op.attempt (g.perform (.getRule v.ruleId)) with
  | .error failure => return .failed failure
  | .ok none => return .orphaned
  | .ok (some rule) => rejudge g rule v

def reexamineAll (g : Storage σ) : List Vulnerability → Op σ (List (Vulnerability × Finding))
  | [] => return []
  | v :: rest => do
    let finding ← reexamine g v
    let others ← reexamineAll g rest
    return (v, finding) :: others

/-- Whether a vulnerability came to be judged. -/
def Finding.isChecked : Finding → Bool
  | .kept | .removed | .failedToRemove _ => true
  | _ => false

def Finding.failure? : Finding → Option StorageFailure
  | .failed failure | .failedToRemove failure => some failure
  | _ => none

/-- Sum up the findings on a property. -/
def summary (propertyId : Value) (findings : List (Vulnerability × Finding)) : Reevaluation where
  propertyId := propertyId
  checked := findings.countP (·.2.isChecked)
  removed := findings.countP (·.2 = .removed)
  orphaned := (findings.filter (·.2 = .orphaned)).map (·.1.id)
  errors := findings.filterMap fun (v, finding) => finding.failure?.map (⟨v.id, ·⟩)

/-- Judge every vulnerability of a property again. -/
def reevaluate (g : Storage σ) (propertyId : Value) : Op σ Reevaluation := do
  let vs ← listForProperty g propertyId
  return summary propertyId (← reexamineAll g vs)

end Vulnerabilities

end PropertyRisk.Engine
