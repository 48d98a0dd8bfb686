import PropertyRisk.Rule
import PropertyRisk.Vulnerability
import PropertyRisk.Catalog
import PropertyRisk.Condition.Writing

/-!
# Rows

A row keeps a record in columns: texts, of which some may be null, flags, and
the property's number. Trees and observations are kept as documents and read
again with every row.
-/

namespace PropertyRisk

structure RuleRow where
  id : String
  name : String
  description : String
  tree : Value
  effectiveFrom : String
  effectiveTo : Option String
  isActive : Bool
  version : Int
  createdAt : String
  updatedAt : String

structure VulnerabilityRow where
  id : String
  ruleId : String
  assessmentId : String
  propertyId : Value
  status : String
  detectedAt : String
  mitigationTypeId : Option String
  mitigationValueId : Option String
  mitigationDescription : Option String
  notes : Option String
  createdAt : String
  updatedAt : String

structure AssessmentRow where
  id : String
  propertyId : Value
  assessedAt : String
  observations : Value

structure ObservationTypeRow where
  id : String
  name : String
  description : Option String
  kind : String
  multiple : Bool

structure ObservationValueRow where
  id : String
  typeId : String
  value : String
  description : Option String

structure MitigationTypeRow where
  id : String
  name : String
  description : Option String
  kind : String
  multiple : Bool

structure MitigationValueRow where
  id : String
  typeId : String
  value : String
  description : Option String
  category : String

/-- The rule of a row, its tree read from the document. -/
def RuleRow.toRule (r : RuleRow) : Except Error Rule :=
  match Criteria.read r.tree with
  | .error problems => .error (.invalid (.tree problems))
  | .ok tree =>
    .ok { id := .text r.id, name := .text r.name, description := .text r.description, tree
          effectiveFrom := .text r.effectiveFrom, effectiveTo := .ofText? r.effectiveTo
          isActive := .bool r.isActive, version := r.version, createdAt := .text r.createdAt
          updatedAt := r.updatedAt }

def VulnerabilityRow.toVulnerability (r : VulnerabilityRow) : Vulnerability where
  id := .text r.id
  ruleId := .text r.ruleId
  assessmentId := .text r.assessmentId
  propertyId := r.propertyId
  status := .text r.status
  detectedAt := .text r.detectedAt
  mitigationTypeId := .ofText? r.mitigationTypeId
  mitigationValueId := .ofText? r.mitigationValueId
  mitigationDescription := .ofText? r.mitigationDescription
  notes := .ofText? r.notes
  createdAt := .text r.createdAt
  updatedAt := .text r.updatedAt

/-- Read a list of observations; each must name its type. -/
def readObservations (items : List Value) : Except Error (List Observation) :=
  items.mapM fun v =>
    match Observation.ofValue? v with
    | some o => .ok o
    | none => .error (.invalid .observation)

def AssessmentRow.toAssessment (r : AssessmentRow) : Except Error Assessment :=
  match r.observations with
  | .list items =>
    match readObservations items with
    | .error e => .error e
    | .ok observations => .ok ⟨.text r.id, r.propertyId, observations, .text r.assessedAt⟩
  | _ => .error (.fault .wrongShape)

def ObservationTypeRow.toType (r : ObservationTypeRow) : ObservationType where
  id := .text r.id
  name := .text r.name
  kind := .text r.kind
  description := .ofText? r.description
  multiple := .bool r.multiple

def ObservationValueRow.toValue (r : ObservationValueRow) : ObservationValue where
  id := .text r.id
  typeId := .text r.typeId
  value := .text r.value
  description := .ofText? r.description

def MitigationTypeRow.toType (r : MitigationTypeRow) : MitigationType where
  id := .text r.id
  name := .text r.name
  description := .ofText? r.description
  kind := .text r.kind
  multiple := .bool r.multiple

def MitigationValueRow.toValue (r : MitigationValueRow) : MitigationValue where
  id := .text r.id
  typeId := .text r.typeId
  value := .text r.value
  description := .ofText? r.description
  category := .text r.category

end PropertyRisk
