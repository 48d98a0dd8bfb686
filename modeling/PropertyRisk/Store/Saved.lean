import PropertyRisk.Store.Tables

/-!
# Saved tables

Tables are saved as one document, a list of rows for each table, and are whole
again when they are read back.
-/

namespace PropertyRisk

namespace Saved

def text? (key : String) (v : Value) : Option String :=
  match v.get? key with
  | some (.text s) => some s
  | _ => none

/-- A text that may be absent. -/
def optional? (key : String) (v : Value) : Option (Option String) :=
  match v.get? key with
  | some (.text s) => some (some s)
  | some .null => some none
  | _ => none

def int? (key : String) (v : Value) : Option Int :=
  match v.get? key with
  | some (.int n) => some n
  | _ => none

def bool? (key : String) (v : Value) : Option Bool :=
  match v.get? key with
  | some (.bool b) => some b
  | _ => none

def ruleRow (r : RuleRow) : Value :=
  .object [("id", .text r.id), ("name", .text r.name), ("description", .text r.description),
    ("functional_rule", r.tree), ("effective_from", .text r.effectiveFrom),
    ("effective_to", .ofText? r.effectiveTo), ("is_active", .bool r.isActive),
    ("version", .int r.version), ("created_at", .text r.createdAt),
    ("updated_at", .text r.updatedAt)]

def readRuleRow (v : Value) : Option RuleRow := do
  return {
    id := ← text? "id" v, name := ← text? "name" v, description := ← text? "description" v
    tree := ← v.get? "functional_rule", effectiveFrom := ← text? "effective_from" v
    effectiveTo := ← optional? "effective_to" v, isActive := ← bool? "is_active" v
    version := ← int? "version" v, createdAt := ← text? "created_at" v
    updatedAt := ← text? "updated_at" v }

def vulnerabilityRow (r : VulnerabilityRow) : Value :=
  .object [("id", .text r.id), ("rule_id", .text r.ruleId),
    ("assessment_id", .text r.assessmentId), ("property_id", r.propertyId),
    ("status", .text r.status), ("detected_at", .text r.detectedAt),
    ("mitigation_type_id", .ofText? r.mitigationTypeId),
    ("mitigation_value_id", .ofText? r.mitigationValueId),
    ("mitigation_description", .ofText? r.mitigationDescription), ("notes", .ofText? r.notes),
    ("created_at", .text r.createdAt), ("updated_at", .text r.updatedAt)]

def readVulnerabilityRow (v : Value) : Option VulnerabilityRow := do
  return {
    id := ← text? "id" v, ruleId := ← text? "rule_id" v
    assessmentId := ← text? "assessment_id" v, propertyId := ← v.get? "property_id"
    status := ← text? "status" v, detectedAt := ← text? "detected_at" v
    mitigationTypeId := ← optional? "mitigation_type_id" v
    mitigationValueId := ← optional? "mitigation_value_id" v
    mitigationDescription := ← optional? "mitigation_description" v
    notes := ← optional? "notes" v, createdAt := ← text? "created_at" v
    updatedAt := ← text? "updated_at" v }

def assessmentRow (r : AssessmentRow) : Value :=
  .object [("id", .text r.id), ("property_id", r.propertyId),
    ("assessed_at", .text r.assessedAt), ("observations", r.observations)]

def readAssessmentRow (v : Value) : Option AssessmentRow := do
  return {
    id := ← text? "id" v, propertyId := ← v.get? "property_id"
    assessedAt := ← text? "assessed_at" v, observations := ← v.get? "observations" }

def observationTypeRow (t : ObservationTypeRow) : Value :=
  .object [("id", .text t.id), ("name", .text t.name), ("value_type", .text t.kind),
    ("description", .ofText? t.description), ("multiple", .bool t.multiple)]

def readObservationTypeRow (v : Value) : Option ObservationTypeRow := do
  return {
    id := ← text? "id" v, name := ← text? "name" v, kind := ← text? "value_type" v
    description := ← optional? "description" v, multiple := ← bool? "multiple" v }

def observationValueRow (o : ObservationValueRow) : Value :=
  .object [("id", .text o.id), ("observation_type_id", .text o.typeId), ("value", .text o.value),
    ("description", .ofText? o.description)]

def readObservationValueRow (v : Value) : Option ObservationValueRow := do
  return {
    id := ← text? "id" v, typeId := ← text? "observation_type_id" v, value := ← text? "value" v
    description := ← optional? "description" v }

def mitigationTypeRow (t : MitigationTypeRow) : Value :=
  .object [("id", .text t.id), ("name", .text t.name), ("description", .ofText? t.description),
    ("value_type", .text t.kind), ("multiple", .bool t.multiple)]

def readMitigationTypeRow (v : Value) : Option MitigationTypeRow := do
  return {
    id := ← text? "id" v, name := ← text? "name" v, description := ← optional? "description" v
    kind := ← text? "value_type" v, multiple := ← bool? "multiple" v }

def mitigationValueRow (m : MitigationValueRow) : Value :=
  .object [("id", .text m.id), ("mitigation_type_id", .text m.typeId), ("value", .text m.value),
    ("description", .ofText? m.description), ("category", .text m.category)]

def readMitigationValueRow (v : Value) : Option MitigationValueRow := do
  return {
    id := ← text? "id" v, typeId := ← text? "mitigation_type_id" v, value := ← text? "value" v
    description := ← optional? "description" v, category := ← text? "category" v }

def table (row : α → Value) (t : Table α) : Value := .list (t.rows.records.map row)

/-- Read the rows of a table, each of which has an id. -/
def readTable (read : Value → Option α) (key : String) (v : Value) : Option (Table α) := do
  match ← v.get? key with
  | .list items =>
    return { rows := ← items.mapM fun item => do return (← text? "id" item, ← read item) }
  | _ => none

end Saved

namespace Tables

open Saved

def toDocument (s : Tables) : Value :=
  .object [("rules", table ruleRow s.rules),
    ("vulnerabilities", table vulnerabilityRow s.vulnerabilities),
    ("assessments", table assessmentRow s.assessments),
    ("observation_types", table observationTypeRow s.observationTypes),
    ("observation_values", table observationValueRow s.observationValues),
    ("mitigation_types", table mitigationTypeRow s.mitigationTypes),
    ("mitigation_values", table mitigationValueRow s.mitigationValues)]

def ofDocument? (v : Value) : Option Tables := do
  return {
    rules := ← readTable readRuleRow "rules" v
    vulnerabilities := ← readTable readVulnerabilityRow "vulnerabilities" v
    assessments := ← readTable readAssessmentRow "assessments" v
    observationTypes := ← readTable readObservationTypeRow "observation_types" v
    observationValues := ← readTable readObservationValueRow "observation_values" v
    mitigationTypes := ← readTable readMitigationTypeRow "mitigation_types" v
    mitigationValues := ← readTable readMitigationValueRow "mitigation_values" v }

end Tables

end PropertyRisk
