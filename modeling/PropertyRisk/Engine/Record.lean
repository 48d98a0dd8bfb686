import PropertyRisk.Engine.RuleTrials
import PropertyRisk.Engine.Reevaluation
import PropertyRisk.Engine.Assessments
import PropertyRisk.Condition.Writing

/-!
# Records as documents

Every record and result has a document with all its fields, an absent value as
`null`.
-/

namespace PropertyRisk

namespace Record

def nat (n : Nat) : Value := .int n

def rule (r : Rule) : Value :=
  .object [("name", r.name), ("description", r.description),
    ("functional_rule", r.tree.toValue), ("effective_from", r.effectiveFrom),
    ("effective_to", r.effectiveTo), ("is_active", r.isActive), ("version", .int r.version),
    ("id", r.id), ("created_at", r.createdAt), ("updated_at", .text r.updatedAt)]

def vulnerability (v : Vulnerability) : Value :=
  .object [("rule_id", v.ruleId), ("assessment_id", v.assessmentId),
    ("property_id", v.propertyId), ("status", v.status), ("detected_at", v.detectedAt),
    ("mitigation_type_id", v.mitigationTypeId), ("mitigation_value_id", v.mitigationValueId),
    ("mitigation_description", v.mitigationDescription), ("notes", v.notes), ("id", v.id),
    ("created_at", v.createdAt), ("updated_at", v.updatedAt)]

def observations (os : List Observation) : Value := .list (os.map Observation.toRecord)

def assessment (a : Assessment) : Value :=
  .object [("property_id", a.propertyId), ("observations", observations a.observations),
    ("assessed_at", a.assessedAt), ("id", a.id)]

def observationType (t : ObservationType) : Value :=
  .object [("name", t.name), ("value_type", t.kind), ("description", t.description),
    ("multiple", t.multiple), ("id", t.id)]

def observationValue (v : ObservationValue) : Value :=
  .object [("observation_type_id", v.typeId), ("value", v.value),
    ("description", v.description), ("id", v.id)]

def mitigationType (t : MitigationType) : Value :=
  .object [("name", t.name), ("description", t.description), ("value_type", t.kind),
    ("multiple", t.multiple), ("id", t.id)]

def mitigationValue (v : MitigationValue) : Value :=
  .object [("mitigation_type_id", v.typeId), ("value", v.value),
    ("description", v.description), ("category", v.category), ("id", v.id)]

def mitigationOption (o : MitigationOption) : Value :=
  .object [("type", mitigationType o.type), ("values", .list (o.values.map mitigationValue))]

open Engine

def itemFailure (f : ItemFailure) : Value :=
  .object [("item_id", f.itemId), ("message", .text f.failure.message)]

def itemFailures (fs : List ItemFailure) : Value := .list (fs.map itemFailure)

def ruleUpdate (u : RuleUpdate) : Value :=
  .object [("rule", rule u.rule), ("vulnerabilities_removed", nat u.removed),
    ("errors", itemFailures u.errors)]

def rulePreview (p : RulePreview) : Value :=
  .object [("vulnerabilities_affected", nat p.affected), ("vulnerabilities_removed", nat p.removed)]

def ruleTrial (t : RuleTrial) : Value :=
  .object [("case", observations t.observations), ("triggered", .bool t.triggered)]

def statusChange (c : StatusChange) : Value :=
  .object [("vulnerability", vulnerability c.vulnerability), ("from_status", c.fromStatus),
    ("is_regression", .bool c.isRegression)]

def reevaluation (r : Reevaluation) : Value :=
  .object [("property_id", r.propertyId), ("checked", nat r.checked),
    ("removed", nat r.removed), ("orphaned", .list r.orphaned), ("errors", itemFailures r.errors)]

def processReport (r : ProcessReport) : Value :=
  .object [("assessment_id", r.assessmentId), ("rules_evaluated", nat r.evaluated),
    ("triggered_rule_ids", .list r.triggered), ("created", .list (r.created.map vulnerability)),
    ("skipped", nat r.skipped), ("errors", itemFailures r.errors)]

def propertyState (s : PropertyState) : Value :=
  .object [("property_id", s.propertyId), ("timestamp", .text s.time),
    ("vulnerabilities", .list (s.vulnerabilities.map vulnerability))]

end Record

end PropertyRisk
