import PropertyRisk.Error
import PropertyRisk.Observation

/-!
# Assessments and vulnerabilities

An assessment is a set of observations on one property. A vulnerability records
that a rule triggered on an assessment; it names the rule and may outlive it.
Its status moves from `open` over `in_review` to `resolved`. A storage may keep any
value in a field.
-/

namespace PropertyRisk

structure Assessment where
  id : Value
  propertyId : Value
  observations : List Observation
  assessedAt : Value
deriving DecidableEq, Repr

/-- An assessment not stored yet; a time that does not hold stands for the time
of writing. -/
structure AssessmentDraft where
  propertyId : Value
  observations : List Observation
  assessedAt : Value := .text ""
deriving DecidableEq, Repr

/-- The steps of the workflow. -/
inductive Status
  | opened
  | inReview
  | resolved
deriving DecidableEq, Repr

namespace Status

def name : Status → String
  | opened => "open"
  | inReview => "in_review"
  | resolved => "resolved"

def ofName? (s : String) : Option Status := [opened, inReview, resolved].find? (·.name = s)

/-- How far along the workflow a status is. -/
def rank : Status → Nat
  | opened => 0
  | inReview => 1
  | resolved => 2

@[simp] theorem ofName?_name (s : Status) : ofName? s.name = some s := by
  cases s <;> decide

end Status

/-- How far along the workflow a status is that may be any value; what is no
status comes before all. A list or an object cannot be looked up. -/
def statusRank (v : Value) : Except Error Int :=
  match v with
  | .text name =>
    match Status.ofName? name with
    | some s => .ok s.rank
    | none => .ok (-1)
  | .list _ | .object _ => .error (.fault .wrongShape)
  | _ => .ok (-1)

/-- Whether a move goes backwards in the workflow. -/
def isRegression (fromStatus toStatus : Value) : Except Error Bool :=
  match statusRank fromStatus, statusRank toStatus with
  | .ok rank, .ok next => .ok (decide (next < rank))
  | .error e, _ | _, .error e => .error e

structure Vulnerability where
  id : Value
  ruleId : Value
  assessmentId : Value
  propertyId : Value
  status : Value
  detectedAt : Value
  mitigationTypeId : Value
  mitigationValueId : Value
  mitigationDescription : Value
  notes : Value
  createdAt : Value
  updatedAt : Value
deriving DecidableEq, Repr

/-- A vulnerability not stored yet; a time that does not hold stands for the
time of writing. -/
structure VulnerabilityDraft where
  ruleId : Value
  assessmentId : Value
  propertyId : Value
  status : Value := .text Status.opened.name
  detectedAt : Value := .text ""
  mitigationTypeId : Value := .null
  mitigationValueId : Value := .null
  mitigationDescription : Value := .null
  notes : Value := .null
deriving DecidableEq, Repr

/-- Whether work on a vulnerability is still to be done. -/
def Vulnerability.isUnresolved (v : Vulnerability) : Except Error Bool :=
  match v.status with
  | .text name => .ok (name = Status.opened.name || name = Status.inReview.name)
  | .list _ | .object _ => .error (.fault .wrongShape)
  | _ => .ok false

/-- What a change sets in a stored vulnerability; `others` are names of no field. -/
structure VulnerabilityChange where
  ruleId : Option Value := none
  assessmentId : Option Value := none
  propertyId : Option Value := none
  status : Option Value := none
  detectedAt : Option Value := none
  mitigationTypeId : Option Value := none
  mitigationValueId : Option Value := none
  mitigationDescription : Option Value := none
  notes : Option Value := none
  id : Option Value := none
  createdAt : Option Value := none
  updatedAt : Option Value := none
  others : List String := []
deriving DecidableEq, Repr

namespace VulnerabilityChange

def fieldNames : List String :=
  ["rule_id", "assessment_id", "property_id", "status", "detected_at", "mitigation_type_id",
    "mitigation_value_id", "mitigation_description", "notes", "id", "created_at", "updated_at"]

/-- The change that fields ask for. -/
def ofFields (fields : List (String × Value)) : VulnerabilityChange where
  ruleId := Value.field? "rule_id" fields
  assessmentId := Value.field? "assessment_id" fields
  propertyId := Value.field? "property_id" fields
  status := Value.field? "status" fields
  detectedAt := Value.field? "detected_at" fields
  mitigationTypeId := Value.field? "mitigation_type_id" fields
  mitigationValueId := Value.field? "mitigation_value_id" fields
  mitigationDescription := Value.field? "mitigation_description" fields
  notes := Value.field? "notes" fields
  id := Value.field? "id" fields
  createdAt := Value.field? "created_at" fields
  updatedAt := Value.field? "updated_at" fields
  others := (fields.map (·.1)).filter (!fieldNames.contains ·)

end VulnerabilityChange

/-- The vulnerability after a change, at the time `now` unless the change says
otherwise. -/
def Vulnerability.changed (v : Vulnerability) (change : VulnerabilityChange) (now : String) :
    Vulnerability where
  id := change.id.getD v.id
  ruleId := change.ruleId.getD v.ruleId
  assessmentId := change.assessmentId.getD v.assessmentId
  propertyId := change.propertyId.getD v.propertyId
  status := change.status.getD v.status
  detectedAt := change.detectedAt.getD v.detectedAt
  mitigationTypeId := change.mitigationTypeId.getD v.mitigationTypeId
  mitigationValueId := change.mitigationValueId.getD v.mitigationValueId
  mitigationDescription := change.mitigationDescription.getD v.mitigationDescription
  notes := change.notes.getD v.notes
  createdAt := change.createdAt.getD v.createdAt
  updatedAt := change.updatedAt.getD (.text now)

end PropertyRisk
