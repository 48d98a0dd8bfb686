import PropertyRisk.Engine.Judging

/-!
# Working on vulnerabilities

A vulnerability is opened when a rule triggers, gets a mitigation, and moves
through its statuses. A move backwards is reported, and refused where the
workflow is enforced.
-/

namespace PropertyRisk.Engine

/-- A move from one status to another. -/
structure StatusChange where
  vulnerability : Vulnerability
  fromStatus : Value
  isRegression : Bool
deriving DecidableEq, Repr

namespace Vulnerabilities

def get (g : Storage σ) (id : Value) : Op σ Vulnerability := do
  match ← g.perform (.getVulnerability id) with
  | some v => return v
  | none => throw (.notFound .vulnerability id)

def listForProperty (g : Storage σ) (propertyId : Value) : Op σ (List Vulnerability) :=
  g.perform (.listVulnerabilitiesForProperty propertyId none)

/-- The first vulnerability of a rule that is still to be worked on. -/
def firstUnresolved (ruleId : Value) : List Vulnerability → Except Error (Option Vulnerability)
  | [] => .ok none
  | v :: rest =>
    if v.ruleId.equal ruleId then
      match v.isUnresolved with
      | .error e => .error e
      | .ok true => .ok (some v)
      | .ok false => firstUnresolved ruleId rest
    else firstUnresolved ruleId rest

/-- The first vulnerability of a rule and property that is still to be worked on. -/
def findUnresolved (g : Storage σ) (ruleId propertyId : Value) : Op σ (Option Vulnerability) := do
  Op.ofExcept (firstUnresolved ruleId (← listForProperty g propertyId))

/-- Open a vulnerability, detected now. -/
def create (g : Storage σ) (ruleId assessmentId propertyId mitigationTypeId : Value) :
    Op σ Vulnerability := do
  let now ← g.now
  g.perform <| .createVulnerability
    { ruleId, assessmentId, propertyId, detectedAt := .text now, mitigationTypeId }

/-- The mitigation type of a vulnerability with its values, if it has one that
exists. -/
def mitigationOptions (g : Storage σ) (id : Value) : Op σ (List MitigationOption) := do
  let v ← get g id
  if v.mitigationTypeId.holds then
    match ← g.perform (.getMitigationType v.mitigationTypeId) with
    | none => return []
    | some type =>
      let values ← g.perform (.listMitigationValues type.id)
      return [⟨type, values⟩]
  else return []

/-- Change a vulnerability that must exist. -/
def change (g : Storage σ) (id : Value) (change : VulnerabilityChange) : Op σ Vulnerability := do
  match ← g.perform (.updateVulnerability id change) with
  | some v => return v
  | none => throw (.notFound .vulnerability id)

def assignMitigationType (g : Storage σ) (id typeId : Value) : Op σ Vulnerability := do
  match ← g.perform (.getMitigationType typeId) with
  | none => throw (.notFound .mitigationType typeId)
  | some _ =>
    let now ← g.now
    change g id { mitigationTypeId := some typeId, updatedAt := some (.text now) }

/-- Record the mitigation chosen, and move the vulnerability to review. -/
def applyMitigation (g : Storage σ) (id valueId description : Value) : Op σ Vulnerability := do
  let now ← g.now
  change g id
    { status := some (.text Status.inReview.name), mitigationValueId := some valueId
      mitigationDescription := some description, updatedAt := some (.text now) }

/-- Notes to set, unless they are null. -/
def notesToSet (notes : Value) : Option Value := if notes = .null then none else some notes

/-- Move a vulnerability to a status, with notes if any are given. -/
def updateStatus (g : Storage σ) (enforced : Bool) (id status notes : Value) :
    Op σ StatusChange := do
  let status := status.plain
  if (Status.ofName? status).isNone then throw (.invalid (.status status))
  else
    let current ← get g id
    let backwards ← Op.ofExcept (isRegression current.status (.text status))
    if backwards && enforced then throw (.invalid (.regression current.status status))
    else
      let now ← g.now
      let v ← change g id
        { status := some (.text status), notes := notesToSet notes, updatedAt := some (.text now) }
      return ⟨v, current.status, backwards⟩

end Vulnerabilities

end PropertyRisk.Engine
