import PropertyRisk.Store.Shelf
import PropertyRisk.Store.World
import PropertyRisk.Store.Cell
import PropertyRisk.Store.Row

/-!
# The store in tables

Each kind of record has a table. Rules are listed by the text of their creation
time, vulnerabilities by that of their detection time, each then by id.

A table may be gone, or lack a column; what touches it then fails. A statement
binds its values in the order of the columns before it does anything, and a
column that takes no null refuses one. A write that is to answer with the
written record asks for it again after writing.
-/

namespace PropertyRisk

/-- What has become of a table. -/
inductive TableState
  | whole
  | lacking (column : String)
  | gone
deriving DecidableEq, Repr

structure Table (α : Type) where
  rows : Shelf String α := []
  state : TableState := .whole

/-- How a statement touches a table: it names all columns, only those it sets,
or none. -/
inductive Touch
  | everyColumn
  | columns (names : List String)

namespace Table

/-- Whether a statement can be prepared. -/
def allows (t : Table α) (touch : Touch) : Bool :=
  match t.state, touch with
  | .whole, _ => true
  | .gone, _ => false
  | .lacking _, .everyColumn => false
  | .lacking column, .columns names => !names.contains column

end Table

structure Tables where
  rules : Table RuleRow := {}
  vulnerabilities : Table VulnerabilityRow := {}
  assessments : Table AssessmentRow := {}
  observationTypes : Table ObservationTypeRow := {}
  observationValues : Table ObservationValueRow := {}
  mitigationTypes : Table MitigationTypeRow := {}
  mitigationValues : Table MitigationValueRow := {}

namespace Tables

open World

/-- Records in the order of a text of theirs, equal ones as they came. -/
def sortedBy (key : α → String) (records : List α) : List α :=
  records.mergeSort fun a b => decide (key a ≤ key b)

/-- Order by two texts, the second deciding between equal first ones. -/
def sortedByTexts (first second : α → String) (records : List α) : List α :=
  records.mergeSort fun a b =>
    decide (first a < first b) || (decide (first a = first b) && decide (second a ≤ second b))

/-! ## Statements -/

/-- Fail an operation in the database. -/
def refuse (operation : Operation) : Op (World Tables) α :=
  throw (.storage ⟨operation, .database⟩)

/-- Go on only if a statement on a table can be prepared. -/
def prepare (operation : Operation) (touch : Touch) (t : Table α) : Op (World Tables) Unit :=
  if t.allows touch then pure () else refuse operation

/-- Bind what a column makes of a value. -/
def bound (operation : Operation) : Except Cell.Refusal α → Op (World Tables) α
  | .ok a => pure a
  | .error .listOrObject => refuse operation
  | .error .tooLarge => throw (.fault .tooLarge)
  | .error .unencodable => throw (.fault .unencodable)

def bindText (operation : Operation) (v : Value) : Op (World Tables) (Option String) :=
  bound operation (Cell.text v)

def bindNumber (operation : Operation) (v : Value) : Op (World Tables) Value :=
  bound operation (Cell.number v)

/-- A column that takes no null. -/
def notNull (operation : Operation) (cell : Option α) : Op (World Tables) α :=
  match cell with
  | some a => pure a
  | none => refuse operation

def numberNotNull (operation : Operation) (v : Value) : Op (World Tables) Value :=
  if v = .null then refuse operation else pure v

/-- The new content of a column, if a change sets it, or the old one. -/
def setText (operation : Operation) (new : Option (Option String)) (old : String) :
    Op (World Tables) String :=
  match new with
  | none => pure old
  | some cell => notNull operation cell

/-- Add a row under an id that no row has yet. -/
def insert (operation : Operation) (t : Table α) (id : String) (row : α) :
    Op (World Tables) (Table α) :=
  if (t.rows.get? id).isSome then refuse operation
  else pure { t with rows := t.rows.put id row }

/-- The rows of a table, for a statement that names all columns. -/
def select (operation : Operation) (table : Tables → Table α) : Op (World Tables) (List α) := do
  let t := table (← stored)
  prepare operation .everyColumn t
  return t.rows.records

/-- The row under an id. -/
def selectOne (operation : Operation) (table : Tables → Table α) (id : Value) :
    Op (World Tables) (Option α) := do
  let t := table (← stored)
  prepare operation .everyColumn t
  return (← bindText operation id).bind t.rows.get?

/-- Remove the row under an id, and tell whether there was one. -/
def eraseRow (operation : Operation) (t : Table α) (id : Value) :
    Op (World Tables) (Table α × Bool) := do
  prepare operation (.columns []) t
  match ← bindText operation id with
  | none => return (t, false)
  | some id => return ({ t with rows := t.rows.erase id }, (t.rows.get? id).isSome)

/-! ## Rules -/

def insertRule (d : RuleDraft) : Op (World Tables) String := do
  let now ← now
  let id ← fresh
  let s ← stored
  prepare .createRule .everyColumn s.rules
  let name ← bindText .createRule d.name
  let description ← bindText .createRule d.description
  let effectiveFrom ← bindText .createRule (d.effectiveFrom.orElse (.text now))
  let effectiveTo ← bindText .createRule d.effectiveTo
  let row : RuleRow :=
    { id, name := ← notNull .createRule name, description := ← notNull .createRule description
      tree := d.tree.toValue, effectiveFrom := ← notNull .createRule effectiveFrom, effectiveTo
      isActive := d.isActive.holds, version := 1, createdAt := now, updatedAt := now }
  let rules ← insert .createRule s.rules id row
  save { s with rules }
  return id

def readRule (row : RuleRow) : Op (World Tables) Rule := Op.ofExcept row.toRule

def getRule (id : Value) : Op (World Tables) (Option Rule) := do
  match ← selectOne .getRule Tables.rules id with
  | none => return none
  | some row => return some (← readRule row)

def listRules : Op (World Tables) (List Rule) := do
  let rows ← select .listRules Tables.rules
  (sortedByTexts RuleRow.createdAt RuleRow.id rows).mapM readRule

/-- The columns that a change of a rule sets. -/
def ruleColumns (change : RuleChange) : List String :=
  (if change.name.isSome then ["name"] else []) ++
  (if change.description.isSome then ["description"] else []) ++
  (if change.tree.isSome then ["functional_rule"] else []) ++
  (if change.effectiveFrom.isSome then ["effective_from"] else []) ++
  (if change.effectiveTo.isSome then ["effective_to"] else []) ++
  (if change.isActive.isSome then ["is_active"] else []) ++ ["version", "updated_at"]

/-- Write a change, and tell whether there was a row to change. Fields that are
no columns to be set are passed over. -/
def changeRule (id : Value) (change : RuleChange) (expected : Option Value) :
    Op (World Tables) Bool := do
  let tree ← Op.orElse (.invalid <| .tree ·) (change.tree.mapM TreeSource.read)
  let s ← stored
  prepare .updateRule (.columns (ruleColumns change)) s.rules
  let name ← change.name.mapM (bindText .updateRule)
  let description ← change.description.mapM (bindText .updateRule)
  let effectiveFrom ← change.effectiveFrom.mapM (bindText .updateRule)
  let effectiveTo ← change.effectiveTo.mapM (bindText .updateRule)
  let id ← bindText .updateRule id
  let expected ← expected.mapM (bindNumber .updateRule)
  match id.bind s.rules.rows.get? with
  | none => return false
  | some row =>
    if expected.any (!·.equal (.int row.version)) then return false
    else
      let row := { row with
        name := ← setText .updateRule name row.name
        description := ← setText .updateRule description row.description
        tree := (tree.map Criteria.toValue).getD row.tree
        effectiveFrom := ← setText .updateRule effectiveFrom row.effectiveFrom
        effectiveTo := effectiveTo.getD row.effectiveTo
        isActive := (change.isActive.map Value.holds).getD row.isActive
        version := row.version + 1
        updatedAt := ← now }
      save { s with rules := { s.rules with rows := s.rules.rows.put row.id row } }
      return true

def deleteRule (id : Value) : Op (World Tables) Bool := do
  let s ← stored
  let (rules, found) ← eraseRow .deleteRule s.rules id
  save { s with rules }
  return found

/-! ## Vulnerabilities -/

def insertVulnerability (d : VulnerabilityDraft) : Op (World Tables) String := do
  let operation := Operation.createVulnerability
  let now ← now
  let id ← fresh
  let s ← stored
  prepare operation .everyColumn s.vulnerabilities
  let ruleId ← bindText operation d.ruleId
  let assessmentId ← bindText operation d.assessmentId
  let propertyId ← bindNumber operation d.propertyId
  let status ← bindText operation d.status
  let detectedAt ← bindText operation (d.detectedAt.orElse (.text now))
  let mitigationTypeId ← bindText operation d.mitigationTypeId
  let mitigationValueId ← bindText operation d.mitigationValueId
  let mitigationDescription ← bindText operation d.mitigationDescription
  let notes ← bindText operation d.notes
  let row : VulnerabilityRow :=
    { id, ruleId := ← notNull operation ruleId, assessmentId := ← notNull operation assessmentId
      propertyId := ← numberNotNull operation propertyId, status := ← notNull operation status
      detectedAt := ← notNull operation detectedAt, mitigationTypeId, mitigationValueId
      mitigationDescription, notes, createdAt := now, updatedAt := now }
  let vulnerabilities ← insert operation s.vulnerabilities id row
  save { s with vulnerabilities }
  return id

def getVulnerability (id : Value) : Op (World Tables) (Option Vulnerability) := do
  let row ← selectOne .getVulnerability Tables.vulnerabilities id
  return row.map VulnerabilityRow.toVulnerability

def byDetection (rows : List VulnerabilityRow) : List Vulnerability :=
  (sortedByTexts VulnerabilityRow.detectedAt VulnerabilityRow.id rows).map
    VulnerabilityRow.toVulnerability

def listForRule (ruleId : Value) : Op (World Tables) (List Vulnerability) := do
  let rows ← select .listVulnerabilitiesForRule Tables.vulnerabilities
  let ruleId ← bindText .listVulnerabilitiesForRule ruleId
  return byDetection (rows.filter fun row => ruleId = some row.ruleId)

/-- The vulnerabilities of a property, up to an instant if one is given. The
instant is read after the rows. -/
def listForProperty (propertyId : Value) (until_ : Option Value) :
    Op (World Tables) (List Vulnerability) := do
  let rows ← select .listVulnerabilitiesForProperty Tables.vulnerabilities
  let propertyId ← bindNumber .listVulnerabilitiesForProperty propertyId
  let vs := byDetection (rows.filter (·.propertyId.equal propertyId))
  match until_ with
  | none => return vs
  | some time =>
    let cutoff ← Op.ofExcept (requireStampValue time)
    let stamped ← Op.ofExcept (stampAll vs)
    return (stamped.filter (·.1.le cutoff)).map (·.2)

/-- The columns that a change of a vulnerability sets. -/
def vulnerabilityColumns (change : VulnerabilityChange) : List String :=
  (if change.id.isSome then ["id"] else []) ++
  (if change.ruleId.isSome then ["rule_id"] else []) ++
  (if change.assessmentId.isSome then ["assessment_id"] else []) ++
  (if change.propertyId.isSome then ["property_id"] else []) ++
  (if change.status.isSome then ["status"] else []) ++
  (if change.detectedAt.isSome then ["detected_at"] else []) ++
  (if change.mitigationTypeId.isSome then ["mitigation_type_id"] else []) ++
  (if change.mitigationValueId.isSome then ["mitigation_value_id"] else []) ++
  (if change.mitigationDescription.isSome then ["mitigation_description"] else []) ++
  (if change.notes.isSome then ["notes"] else []) ++
  (if change.createdAt.isSome then ["created_at"] else []) ++ ["updated_at"]

/-- A row under an id that may be a new one, which no other row has. -/
def moveRow (operation : Operation) (t : Table α) (old new : String) (row : α) :
    Op (World Tables) (Table α) :=
  if old = new then pure { t with rows := t.rows.put old row }
  else insert operation { t with rows := t.rows.erase old } new row

/-- Write a change, and tell whether there was a row to change. A change of an
unknown field is refused before anything else. -/
def changeVulnerability (id : Value) (change : VulnerabilityChange) :
    Op (World Tables) Bool := do
  let operation := Operation.updateVulnerability
  if !change.others.isEmpty then refuse operation
  else
    let now ← now
    let s ← stored
    prepare operation (.columns (vulnerabilityColumns change)) s.vulnerabilities
    let newId ← change.id.mapM (bindText operation)
    let ruleId ← change.ruleId.mapM (bindText operation)
    let assessmentId ← change.assessmentId.mapM (bindText operation)
    let propertyId ← change.propertyId.mapM (bindNumber operation)
    let status ← change.status.mapM (bindText operation)
    let detectedAt ← change.detectedAt.mapM (bindText operation)
    let mitigationTypeId ← change.mitigationTypeId.mapM (bindText operation)
    let mitigationValueId ← change.mitigationValueId.mapM (bindText operation)
    let mitigationDescription ← change.mitigationDescription.mapM (bindText operation)
    let notes ← change.notes.mapM (bindText operation)
    let createdAt ← change.createdAt.mapM (bindText operation)
    let updatedAt ← bindText operation (change.updatedAt.getD (.text now))
    let id ← bindText operation id
    match id.bind s.vulnerabilities.rows.get? with
    | none => return false
    | some row =>
      let changed : VulnerabilityRow :=
        { id := ← setText operation newId row.id
          ruleId := ← setText operation ruleId row.ruleId
          assessmentId := ← setText operation assessmentId row.assessmentId
          propertyId := ← numberNotNull operation (propertyId.getD row.propertyId)
          status := ← setText operation status row.status
          detectedAt := ← setText operation detectedAt row.detectedAt
          mitigationTypeId := mitigationTypeId.getD row.mitigationTypeId
          mitigationValueId := mitigationValueId.getD row.mitigationValueId
          mitigationDescription := mitigationDescription.getD row.mitigationDescription
          notes := notes.getD row.notes
          createdAt := ← setText operation createdAt row.createdAt
          updatedAt := ← notNull operation updatedAt }
      let vulnerabilities ← moveRow operation s.vulnerabilities row.id changed.id changed
      save { s with vulnerabilities }
      return true

def deleteVulnerability (id : Value) : Op (World Tables) Bool := do
  let s ← stored
  let (vulnerabilities, found) ← eraseRow .deleteVulnerability s.vulnerabilities id
  save { s with vulnerabilities }
  return found

/-! ## Assessments -/

def insertAssessment (d : AssessmentDraft) : Op (World Tables) String := do
  let operation := Operation.createAssessment
  let id ← fresh
  let now ← now
  let s ← stored
  prepare operation .everyColumn s.assessments
  let propertyId ← bindNumber operation d.propertyId
  let assessedAt ← bindText operation (d.assessedAt.orElse (.text now))
  let row : AssessmentRow :=
    { id, propertyId := ← numberNotNull operation propertyId
      assessedAt := ← notNull operation assessedAt
      observations := Observation.listToValue d.observations }
  let assessments ← insert operation s.assessments id row
  save { s with assessments }
  return id

def getAssessment (id : Value) : Op (World Tables) (Option Assessment) := do
  match ← selectOne .getAssessment Tables.assessments id with
  | none => return none
  | some row => return some (← Op.ofExcept row.toAssessment)

/-! ## Catalogs

A record that is created is answered as it was given, except for a mitigation
type, which is read again. -/

def insertObservationType (d : ObservationTypeDraft) : Op (World Tables) ObservationType := do
  let operation := Operation.createObservationType
  let given ← idOr d.id
  let s ← stored
  prepare operation .everyColumn s.observationTypes
  let id ← bindText operation given
  let name ← bindText operation d.name
  let description ← bindText operation d.description
  let kind ← bindText operation d.kind
  let row : ObservationTypeRow :=
    { id := ← notNull operation id, name := ← notNull operation name, description
      kind := ← notNull operation kind, multiple := d.multiple.holds }
  let observationTypes ← insert operation s.observationTypes row.id row
  save { s with observationTypes }
  return d.withId given

def insertObservationValue (d : ObservationValueDraft) : Op (World Tables) ObservationValue := do
  let operation := Operation.createObservationValue
  let given ← idOr d.id
  let s ← stored
  prepare operation .everyColumn s.observationValues
  let id ← bindText operation given
  let typeId ← bindText operation d.typeId
  let value ← bindText operation d.value
  let description ← bindText operation d.description
  let row : ObservationValueRow :=
    { id := ← notNull operation id, typeId := ← notNull operation typeId
      value := ← notNull operation value, description }
  let observationValues ← insert operation s.observationValues row.id row
  save { s with observationValues }
  return d.withId given

/-- The id under which the new type is to be read again. -/
def insertMitigationType (d : MitigationTypeDraft) : Op (World Tables) Value := do
  let operation := Operation.createMitigationType
  let given ← idOr d.id
  let s ← stored
  prepare operation .everyColumn s.mitigationTypes
  let id ← bindText operation given
  let name ← bindText operation d.name
  let description ← bindText operation d.description
  let kind ← bindText operation d.kind
  let row : MitigationTypeRow :=
    { id := ← notNull operation id, name := ← notNull operation name, description
      kind := ← notNull operation kind, multiple := d.multiple.holds }
  let mitigationTypes ← insert operation s.mitigationTypes row.id row
  save { s with mitigationTypes }
  return given

def getMitigationType (id : Value) : Op (World Tables) (Option MitigationType) := do
  let row ← selectOne .getMitigationType Tables.mitigationTypes id
  return row.map MitigationTypeRow.toType

def insertMitigationValue (d : MitigationValueDraft) : Op (World Tables) MitigationValue := do
  let operation := Operation.createMitigationValue
  let given ← idOr d.id
  let s ← stored
  prepare operation .everyColumn s.mitigationValues
  let id ← bindText operation given
  let typeId ← bindText operation d.typeId
  let value ← bindText operation d.value
  let description ← bindText operation d.description
  let category ← bindText operation d.category
  let row : MitigationValueRow :=
    { id := ← notNull operation id, typeId := ← notNull operation typeId
      value := ← notNull operation value, description, category := ← notNull operation category }
  let mitigationValues ← insert operation s.mitigationValues row.id row
  save { s with mitigationValues }
  return d.withId given

/-- The rows with one of some ids, each once and by id; asking for none does not
touch the table. -/
def selectByIds (operation : Operation) (table : Tables → Table α) (idOf : α → String)
    (ids : List Value) : Op (World Tables) (List α) := do
  if ids.isEmpty then return []
  else
    let rows ← select operation table
    let ids ← ids.mapM (bindText operation)
    return sortedBy idOf (rows.filter fun row => ids.contains (some (idOf row)))

def listMitigationValues (typeId : Value) : Op (World Tables) (List MitigationValue) := do
  let rows ← select .listMitigationValues Tables.mitigationValues
  let typeId ← bindText .listMitigationValues typeId
  return (sortedBy MitigationValueRow.value (rows.filter fun row => typeId = some row.typeId)).map
    MitigationValueRow.toValue

/-- Whether the rules can be read. -/
def ping : Op (World Tables) Bool := do
  return (← stored).rules.allows .everyColumn

/-! ## Requests -/

/-- Ask again for a record that was just written. -/
def reread (self : Storage τ) (r : Request (Option α)) : Op τ α := do
  match ← self.perform r with
  | some a => return a
  | none => throw (.fault .notText)

/-- Perform a request; a write asks `self` for what it wrote. -/
def answer (part : Op.Part τ (World Tables)) (self : Storage τ) : Storage τ where
  now := Op.within part now
  perform
    | .createRule d => do reread self (.getRule (.text (← Op.within part (insertRule d))))
    | .getRule id => Op.within part (getRule id)
    | .listRules => Op.within part listRules
    | .listRulesEffectiveAt time => do
      Op.ofExcept (effectiveAmong time (← self.perform .listRules))
    | .updateRule id change expected => do
      if ← Op.within part (changeRule id change expected) then self.perform (.getRule id)
      else return none
    | .deleteRule id => Op.within part (deleteRule id)
    | .createVulnerability d => do
      reread self (.getVulnerability (.text (← Op.within part (insertVulnerability d))))
    | .getVulnerability id => Op.within part (getVulnerability id)
    | .listVulnerabilitiesForRule ruleId => Op.within part (listForRule ruleId)
    | .listVulnerabilitiesForProperty propertyId until_ =>
      Op.within part (listForProperty propertyId until_)
    | .updateVulnerability id change => do
      if ← Op.within part (changeVulnerability id change) then
        self.perform (.getVulnerability id)
      else return none
    | .deleteVulnerability id => Op.within part (deleteVulnerability id)
    | .createAssessment d => do
      reread self (.getAssessment (.text (← Op.within part (insertAssessment d))))
    | .getAssessment id => Op.within part (getAssessment id)
    | .createObservationType d => Op.within part (insertObservationType d)
    | .listObservationTypes => Op.within part do
      let rows ← select .listObservationTypes Tables.observationTypes
      return (sortedBy ObservationTypeRow.name rows).map ObservationTypeRow.toType
    | .getObservationTypes ids => Op.within part do
      let rows ← selectByIds .getObservationTypes Tables.observationTypes ObservationTypeRow.id ids
      return rows.map ObservationTypeRow.toType
    | .createObservationValue d => Op.within part (insertObservationValue d)
    | .getObservationValues ids => Op.within part do
      let rows ←
        selectByIds .getObservationValues Tables.observationValues ObservationValueRow.id ids
      return rows.map ObservationValueRow.toValue
    | .createMitigationType d => do
      reread self (.getMitigationType (← Op.within part (insertMitigationType d)))
    | .getMitigationType id => Op.within part (getMitigationType id)
    | .listMitigationTypes => Op.within part do
      let rows ← select .listMitigationTypes Tables.mitigationTypes
      return (sortedBy MitigationTypeRow.name rows).map MitigationTypeRow.toType
    | .createMitigationValue d => Op.within part (insertMitigationValue d)
    | .listMitigationValues typeId => Op.within part (listMitigationValues typeId)
    | .ping => Op.within part ping

/-- The store in tables as a storage of its own. -/
def storage : Storage (World Tables) := Storage.tie id (answer .whole)

/-- A database in which no table has been created. -/
def gone : Tables where
  rules := { state := .gone }
  vulnerabilities := { state := .gone }
  assessments := { state := .gone }
  observationTypes := { state := .gone }
  observationValues := { state := .gone }
  mitigationTypes := { state := .gone }
  mitigationValues := { state := .gone }

/-- Bring a table back, empty, if it is gone. -/
def Table.recreated (t : Table α) : Table α :=
  match t.state with
  | .gone => {}
  | _ => t

/-- Opening a database creates the tables that are missing. -/
def opened (s : Tables) : Tables where
  rules := Table.recreated s.rules
  vulnerabilities := Table.recreated s.vulnerabilities
  assessments := Table.recreated s.assessments
  observationTypes := Table.recreated s.observationTypes
  observationValues := Table.recreated s.observationValues
  mitigationTypes := Table.recreated s.mitigationTypes
  mitigationValues := Table.recreated s.mitigationValues

end Tables

end PropertyRisk
