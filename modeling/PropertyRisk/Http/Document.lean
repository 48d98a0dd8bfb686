import PropertyRisk.Http.Form
import PropertyRisk.Value.Depth

/-!
# Documents of replies

The document of a reply holds its records field by field, each of a kind: texts,
whole numbers, flags and members of a set. A value is brought into its kind as in
a form, and a record with a value that is not of its kind has no document.
-/

namespace PropertyRisk.Http

open Engine

namespace Document

/-! ## Fields -/

/-- A field whose value has a document. -/
abbrev Field := String × Option Value

def object (fields : List Field) : Option Value :=
  .object <$> fields.mapM fun (name, v) => v.map (name, ·)

def list (document : α → Option Value) (items : List α) : Option Value :=
  .list <$> items.mapM document

def text (v : Value) : Option Value := (Form.text v).map .text

def textOrNull : Value → Option Value
  | .null => some .null
  | v => text v

def whole (v : Value) : Option Value := (Form.whole v).map .int

def flag (v : Value) : Option Value := (Form.flag v).map .bool

/-- A member of a set, by its exact name. -/
def member (ofName? : String → Option α) (v : Value) : Option Value :=
  (Form.member ofName? v).map fun _ => v

def count (n : Nat) : Option Value := some (.int n)

/-- How many levels a document has room for below a tree. -/
def depthLimit : Nat := 255

/-- A tree, unless it is too deep for a document. -/
def tree (c : Criteria) : Option Value :=
  let v := c.toValue
  if v.depth ≤ depthLimit + 1 then some v else none

/-! ## Records -/

def rule (r : Rule) : Option Value :=
  object [("id", text r.id), ("name", text r.name), ("description", text r.description),
    ("functional_rule", tree r.tree), ("effective_from", text r.effectiveFrom),
    ("effective_to", textOrNull r.effectiveTo), ("is_active", flag r.isActive),
    ("version", some (.int r.version)), ("created_at", text r.createdAt),
    ("updated_at", some (.text r.updatedAt))]

def vulnerability (v : Vulnerability) : Option Value :=
  object [("id", text v.id), ("rule_id", text v.ruleId), ("assessment_id", text v.assessmentId),
    ("property_id", whole v.propertyId), ("status", member Status.ofName? v.status),
    ("detected_at", text v.detectedAt), ("mitigation_type_id", textOrNull v.mitigationTypeId),
    ("mitigation_value_id", textOrNull v.mitigationValueId),
    ("mitigation_description", textOrNull v.mitigationDescription),
    ("notes", textOrNull v.notes), ("created_at", text v.createdAt),
    ("updated_at", text v.updatedAt)]

def observationType (t : ObservationType) : Option Value :=
  object [("id", text t.id), ("name", text t.name), ("value_type", text t.kind),
    ("description", textOrNull t.description), ("multiple", flag t.multiple)]

def observationValue (v : ObservationValue) : Option Value :=
  object [("id", text v.id), ("observation_type_id", text v.typeId), ("value", text v.value),
    ("description", textOrNull v.description)]

def mitigationType (t : MitigationType) : Option Value :=
  object [("id", text t.id), ("name", text t.name), ("description", textOrNull t.description),
    ("value_type", text t.kind), ("multiple", flag t.multiple)]

def mitigationValue (v : MitigationValue) : Option Value :=
  object [("id", text v.id), ("mitigation_type_id", text v.typeId), ("value", text v.value),
    ("description", textOrNull v.description),
    ("category", member MitigationCategory.ofName? v.category)]

def mitigationOption (o : MitigationOption) : Option Value :=
  object [("type", mitigationType o.type), ("values", list mitigationValue o.values)]

/-! ## Results -/

def itemFailure (f : ItemFailure) : Option Value :=
  object [("item_id", text f.itemId), ("message", some (.text f.failure.message))]

def ruleUpdate (u : RuleUpdate) : Option Value :=
  object [("rule", rule u.rule), ("vulnerabilities_removed", count u.removed),
    ("errors", list itemFailure u.errors)]

def rulePreview (id : Value) (p : RulePreview) : Option Value :=
  object [("rule_id", text id), ("vulnerabilities_affected", count p.affected),
    ("vulnerabilities_removed", count p.removed)]

def wording (id : Value) (s : String) : Option Value :=
  object [("rule_id", text id), ("text", text (.text s))]

/-- A reading as it was sent; a number without a strict form has none here. -/
def reading : Value → Value
  | .float x => if Json.isStrict (.float x) then .float x else .null
  | v => v

def observation (o : Observation) : Value := { o with value := reading o.value }.toRecord

def trial (t : RuleTrial) : Option Value :=
  object [("observations", some (.list (t.observations.map observation))),
    ("triggered", some (.bool t.triggered))]

def statusChange (c : StatusChange) : Option Value :=
  object [("vulnerability", vulnerability c.vulnerability),
    ("from_status", member Status.ofName? c.fromStatus),
    ("is_regression", some (.bool c.isRegression))]

def property (propertyId : Value) (time : Option String) (vs : List Vulnerability) :
    Option Value :=
  object [("property_id", whole propertyId), ("timestamp", some (.ofText? time)),
    ("vulnerabilities", list vulnerability vs)]

def reevaluation (r : Reevaluation) : Option Value :=
  object [("property_id", whole r.propertyId), ("checked", count r.checked),
    ("removed", count r.removed), ("orphaned", list text r.orphaned),
    ("errors", list itemFailure r.errors)]

def report (r : ProcessReport) : Option Value :=
  object [("assessment_id", text r.assessmentId), ("rules_evaluated", count r.evaluated),
    ("triggered_rule_ids", list text r.triggered), ("created", list vulnerability r.created),
    ("skipped", count r.skipped), ("errors", list itemFailure r.errors)]

/-- The document of a reply to a call. -/
def ofReply (c : Call) (reply : Reply) : Option Value :=
  match c, reply with
  | _, .rule r => rule r
  | _, .rules rs => list rule rs
  | _, .ruleUpdate u => ruleUpdate u
  | .previewRule id _, .rulePreview p => rulePreview id p
  | .renderRule id, .text s => wording id s
  | _, .trials ts => object [("results", list trial ts)]
  | _, .vulnerability v => vulnerability v
  | .listForProperty propertyId, .vulnerabilities vs => property propertyId none vs
  | _, .state s => property s.propertyId (some s.time) s.vulnerabilities
  | _, .options os => list mitigationOption os
  | _, .statusChange change => statusChange change
  | _, .reevaluation r => reevaluation r
  | _, .report r => report r
  | _, .observationType t => observationType t
  | _, .observationTypes ts => list observationType ts
  | _, .observationValue v => observationValue v
  | _, .mitigationType t => mitigationType t
  | _, .mitigationTypes ts => list mitigationType ts
  | _, .mitigationValue v => mitigationValue v
  | _, reply => some reply.toValue

end Document

end PropertyRisk.Http
