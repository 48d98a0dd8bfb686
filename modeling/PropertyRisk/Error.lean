import PropertyRisk.Condition.Reading

/-!
# Errors

A call ends in one of four ways other than success: what was asked for is not
valid, something it names does not exist, the storage failed, or the data was of
a shape that the operation cannot work on. Causes are data; `message` words them.
-/

namespace PropertyRisk

/-- A record that a call can fail to find. -/
inductive Entity
  | rule
  | vulnerability
  | assessment
  | observationType
  | mitigationType
deriving DecidableEq, Repr

namespace Entity

def name : Entity → String
  | rule => "rule"
  | vulnerability => "vulnerability"
  | assessment => "assessment"
  | observationType => "observation_type"
  | mitigationType => "mitigation_type"

def title : Entity → String
  | rule => "Rule"
  | vulnerability => "Vulnerability"
  | assessment => "Assessment"
  | observationType => "Observation type"
  | mitigationType => "Mitigation type"

end Entity

/-- The operations of a storage. -/
inductive Operation
  | createSchema
  | createRule
  | getRule
  | listRules
  | listRulesEffectiveAt
  | updateRule
  | deleteRule
  | createVulnerability
  | getVulnerability
  | listVulnerabilitiesForRule
  | listVulnerabilitiesForProperty
  | updateVulnerability
  | deleteVulnerability
  | createAssessment
  | getAssessment
  | createObservationType
  | listObservationTypes
  | getObservationTypes
  | createObservationValue
  | getObservationValues
  | createMitigationType
  | getMitigationType
  | listMitigationTypes
  | createMitigationValue
  | listMitigationValues
  | ping
deriving DecidableEq, Repr

namespace Operation

def name : Operation → String
  | createSchema => "create_schema"
  | createRule => "create_rule"
  | getRule => "get_rule"
  | listRules => "list_rules"
  | listRulesEffectiveAt => "list_rules_effective_at"
  | updateRule => "update_rule"
  | deleteRule => "delete_rule"
  | createVulnerability => "create_vulnerability"
  | getVulnerability => "get_vulnerability"
  | listVulnerabilitiesForRule => "list_vulnerabilities_for_rule"
  | listVulnerabilitiesForProperty => "list_vulnerabilities_for_property"
  | updateVulnerability => "update_vulnerability"
  | deleteVulnerability => "delete_vulnerability"
  | createAssessment => "create_assessment"
  | getAssessment => "get_assessment"
  | createObservationType => "create_observation_type"
  | listObservationTypes => "list_observation_types"
  | getObservationTypes => "get_observation_types"
  | createObservationValue => "create_observation_value"
  | getObservationValues => "get_observation_values"
  | createMitigationType => "create_mitigation_type"
  | getMitigationType => "get_mitigation_type"
  | listMitigationTypes => "list_mitigation_types"
  | createMitigationValue => "create_mitigation_value"
  | listMitigationValues => "list_mitigation_values"
  | ping => "ping"

def all : List Operation :=
  [createSchema, createRule, getRule, listRules, listRulesEffectiveAt, updateRule, deleteRule,
    createVulnerability, getVulnerability, listVulnerabilitiesForRule,
    listVulnerabilitiesForProperty, updateVulnerability, deleteVulnerability, createAssessment,
    getAssessment, createObservationType, listObservationTypes, getObservationTypes,
    createObservationValue, getObservationValues, createMitigationType, getMitigationType,
    listMitigationTypes, createMitigationValue, listMitigationValues, ping]

def ofName? (s : String) : Option Operation := all.find? (·.name = s)

end Operation

/-- Why a storage operation failed. The database's own words are not kept. -/
inductive StorageCause
  | unstated
  | stated (cause : String)
  | database
deriving DecidableEq, Repr

structure StorageFailure where
  operation : Operation
  cause : StorageCause
deriving DecidableEq, Repr

namespace StorageFailure

def message (f : StorageFailure) : String :=
  "Storage operation '" ++ f.operation.name ++ "' failed" ++
    match f.cause with
    | .unstated => ""
    | .stated cause => ": " ++ cause
    | .database => ": <sql>"

end StorageFailure

/-- What is wrong with a rule or a change of one. -/
inductive RuleProblem
  | nameMissing
  | descriptionMissing
  | blank (field : String)
  | activeNotBoolean
  | treeNull
  | timestamp (given : String)
  | windowReversed
  | unknownTypes (ids : List String)
  | unknownValues (ids : List String)
  | foreignValue (valueId typeId : String)
deriving DecidableEq, Repr

def timestampMessage (given : String) : String :=
  "Invalid timestamp: " ++ Text.quoted given

namespace RuleProblem

def message : RuleProblem → String
  | nameMissing => "name is required"
  | descriptionMissing => "description is required"
  | blank field => field ++ " must not be empty"
  | activeNotBoolean => "is_active must be true or false"
  | treeNull => "functional_rule must not be null"
  | timestamp given => timestampMessage given
  | windowReversed => "effective_to must be later than effective_from"
  | unknownTypes ids => "Invalid observation types: " ++ Value.joined ", " ids
  | unknownValues ids => "Invalid observation values: " ++ Value.joined ", " ids
  | foreignValue valueId typeId =>
    "Observation value " ++ valueId ++ " does not belong to observation type " ++ typeId

end RuleProblem

/-- What makes a call invalid. -/
inductive Invalid
  | timestamp (given : String)
  | observation
  | tree (problems : List NodeProblem)
  | rule (problems : List RuleProblem)
  | ruleChange (problems : List RuleProblem)
  | unknownFields (names : List String)
  | modifiedConcurrently (ruleId : Value)
  | status (given : String)
  | regression (fromStatus : Value) (toStatus : String)
  | timestampMissing
  | notMember (field : String) (allowed : List String)
deriving DecidableEq, Repr

namespace Invalid

/-- The single problems, where there may be several. -/
def problems : Invalid → List String
  | tree problems => problems.map NodeProblem.message
  | rule problems | ruleChange problems => problems.map RuleProblem.message
  | _ => []

def headline : Invalid → String
  | timestamp given => timestampMessage given
  | observation => "Observation requires an observation_type_id"
  | tree _ => "Malformed condition tree"
  | rule _ => "Invalid rule definition"
  | ruleChange _ => "Invalid rule update"
  | unknownFields names => "Unknown rule fields: " ++ Value.joined ", " names
  | modifiedConcurrently ruleId =>
    "Rule " ++ ruleId.plain ++ " was modified concurrently; retry the update"
  | status given =>
    "Invalid status " ++ Text.quoted given ++ "; expected one of: open, in_review, resolved"
  | regression fromStatus toStatus =>
    "Status regression not allowed: " ++ fromStatus.plain ++ " -> " ++ toStatus
  | timestampMissing => "An evaluation timestamp is required for point-in-time processing"
  | notMember field allowed => field ++ " must be one of: " ++ Value.joined ", " allowed

def message (i : Invalid) : String :=
  match i.problems with
  | [] => i.headline
  | problems => i.headline ++ ": " ++ Value.joined "; " problems

end Invalid

/-- Data that an operation cannot work on, for which the engine has no words. -/
inductive Fault
  /-- A whole number past the range that can be compared or stored. -/
  | tooLarge
  /-- A list was needed, a key, values with an order, or a field of that name. -/
  | wrongShape
  /-- A text was needed. -/
  | notText
  /-- The kind was right, and the content was not. -/
  | wrongContent
  /-- A text with half a surrogate pair was to be encoded. -/
  | unencodable
  /-- A document was nested too deep to be read. -/
  | tooDeep
  /-- A path was too long to be looked up. -/
  | pathTooLong
  /-- An address was not that of a database. -/
  | badAddress
  /-- An address named a kind of database that nobody knows. -/
  | unknownDatabase
  /-- An address named a kind of database that is not at hand. -/
  | missingDriver
deriving DecidableEq, Repr

inductive Error
  | invalid (cause : Invalid)
  | notFound (entity : Entity) (id : Value)
  | storage (failure : StorageFailure)
  | fault (fault : Fault)
deriving DecidableEq, Repr

namespace Error

/-- The wording of an error; a fault has none. -/
def message? : Error → Option String
  | invalid cause => some cause.message
  | notFound entity id => some (entity.title ++ " " ++ id.plain ++ " not found.")
  | storage failure => some failure.message
  | fault _ => none

/-- The code of an error; a fault has none. -/
def code? : Error → Option String
  | invalid _ => some "validation_error"
  | notFound entity _ => some (entity.name ++ "_not_found")
  | storage _ => some "persistence_error"
  | fault _ => none

end Error

end PropertyRisk
