import PropertyRisk.Op
import PropertyRisk.Rule
import PropertyRisk.Vulnerability
import PropertyRisk.Catalog

/-!
# Storages

What the engine asks of its storage is a `Request`, typed by its answer. A
storage performs requests on a state and tells the time. Everything the engine
knows of its storage passes here, so failures and the edits of other clients are
storages around a storage.

A record that does not exist is answered by `none` or `false`, never by an
error.
-/

namespace PropertyRisk

inductive Request : Type → Type
  | createRule (draft : RuleDraft) : Request Rule
  | getRule (id : Value) : Request (Option Rule)
  | listRules : Request (List Rule)
  | listRulesEffectiveAt (time : Value) : Request (List Rule)
  | updateRule (id : Value) (change : RuleChange) (expected : Option Value) :
      Request (Option Rule)
  | deleteRule (id : Value) : Request Bool
  | createVulnerability (draft : VulnerabilityDraft) : Request Vulnerability
  | getVulnerability (id : Value) : Request (Option Vulnerability)
  | listVulnerabilitiesForRule (ruleId : Value) : Request (List Vulnerability)
  | listVulnerabilitiesForProperty (propertyId : Value) (until_ : Option Value) :
      Request (List Vulnerability)
  | updateVulnerability (id : Value) (change : VulnerabilityChange) :
      Request (Option Vulnerability)
  | deleteVulnerability (id : Value) : Request Bool
  | createAssessment (draft : AssessmentDraft) : Request Assessment
  | getAssessment (id : Value) : Request (Option Assessment)
  | createObservationType (draft : ObservationTypeDraft) : Request ObservationType
  | listObservationTypes : Request (List ObservationType)
  | getObservationTypes (ids : List Value) : Request (List ObservationType)
  | createObservationValue (draft : ObservationValueDraft) : Request ObservationValue
  | getObservationValues (ids : List Value) : Request (List ObservationValue)
  | createMitigationType (draft : MitigationTypeDraft) : Request MitigationType
  | getMitigationType (id : Value) : Request (Option MitigationType)
  | listMitigationTypes : Request (List MitigationType)
  | createMitigationValue (draft : MitigationValueDraft) : Request MitigationValue
  | listMitigationValues (typeId : Value) : Request (List MitigationValue)
  | ping : Request Bool

namespace Request

def operation : Request α → Operation
  | createRule _ => .createRule
  | getRule _ => .getRule
  | listRules => .listRules
  | listRulesEffectiveAt _ => .listRulesEffectiveAt
  | updateRule .. => .updateRule
  | deleteRule _ => .deleteRule
  | createVulnerability _ => .createVulnerability
  | getVulnerability _ => .getVulnerability
  | listVulnerabilitiesForRule _ => .listVulnerabilitiesForRule
  | listVulnerabilitiesForProperty .. => .listVulnerabilitiesForProperty
  | updateVulnerability .. => .updateVulnerability
  | deleteVulnerability _ => .deleteVulnerability
  | createAssessment _ => .createAssessment
  | getAssessment _ => .getAssessment
  | createObservationType _ => .createObservationType
  | listObservationTypes => .listObservationTypes
  | getObservationTypes _ => .getObservationTypes
  | createObservationValue _ => .createObservationValue
  | getObservationValues _ => .getObservationValues
  | createMitigationType _ => .createMitigationType
  | getMitigationType _ => .getMitigationType
  | listMitigationTypes => .listMitigationTypes
  | createMitigationValue _ => .createMitigationValue
  | listMitigationValues _ => .listMitigationValues
  | ping => .ping

/-- What picks out one call of an operation among others: the id or the ids asked
for, the property, the time, or the rule that a new vulnerability is for. -/
def key? : Request α → Option Value
  | getRule id | deleteRule id | updateRule id .. => some id
  | listRulesEffectiveAt time => some time
  | createVulnerability draft => some draft.ruleId
  | getVulnerability id | deleteVulnerability id | updateVulnerability id _ => some id
  | listVulnerabilitiesForRule ruleId => some ruleId
  | listVulnerabilitiesForProperty propertyId _ => some propertyId
  | getAssessment id | getMitigationType id | listMitigationValues id => some id
  | getObservationTypes ids | getObservationValues ids => some (.list ids)
  | _ => none

end Request

structure Storage (σ : Type) where
  now : Op σ String
  perform : {α : Type} → Request α → Op σ α

namespace Storage

/-- A storage on a part of a larger state. -/
def within (part : Op.Part τ σ) (g : Storage σ) : Storage τ where
  now := Op.within part g.now
  perform r := Op.within part (g.perform r)

/-- A storage that answers nothing. -/
def silent : Storage σ where
  now := throw (.storage ⟨.ping, .unstated⟩)
  perform r := throw (.storage ⟨r.operation, .unstated⟩)

/-- Close a store whose writes ask for the written record again, through the
storage and with `layer` around every request. Reads ask for nothing more, so
two rounds reach every request. -/
def tie (layer : Storage σ → Storage σ) (answer : Storage σ → Storage σ) : Storage σ :=
  layer (answer (layer (answer silent)))

end Storage

/-- A failure to inject: every call of an operation, or those with certain keys. -/
structure Injected where
  operation : Operation
  keys : Option (List Value)
  cause : StorageCause
deriving DecidableEq, Repr

namespace Injected

def strikes (i : Injected) (r : Request α) : Bool :=
  i.operation = r.operation &&
    match i.keys with
    | none => true
    | some keys =>
      match r.key? with
      | some key => keys.any (·.equal key)
      | none => false

/-- The failure of a request among those injected; the first that strikes. -/
def failureOf (injected : List Injected) (r : Request α) : Option StorageFailure :=
  (injected.find? (·.strikes r)).map fun i => ⟨r.operation, i.cause⟩

end Injected

/-- A storage whose requests fail without effect as `failing` says of the state. -/
def Storage.guarded (failing : σ → List Injected) (g : Storage σ) : Storage σ where
  now := g.now
  perform r := fun s =>
    match Injected.failureOf (failing s) r with
    | some failure => (.error (.storage failure), s)
    | none => g.perform r s

end PropertyRisk
