import PropertyRisk.Store.Shelf
import PropertyRisk.Store.World
import PropertyRisk.Value.Key
import PropertyRisk.Value.Order

/-!
# The store in memory

Records are kept as they are, under any value that can be a key. Rules are
listed in the order of creation, vulnerabilities by the instant of detection,
catalog records by name, which must have an order.
-/

namespace PropertyRisk

structure Memory where
  rules : Shelf Key Rule := []
  vulnerabilities : Shelf Key Vulnerability := []
  assessments : Shelf Key Assessment := []
  observationTypes : Shelf Key ObservationType := []
  observationValues : Shelf Key ObservationValue := []
  mitigationTypes : Shelf Key MitigationType := []
  mitigationValues : Shelf Key MitigationValue := []

namespace Memory

/-! ## Keys -/

def keyOf (id : Value) : Except Error Key :=
  match id.key? with
  | some key => .ok key
  | none => .error (.fault .wrongShape)

/-- The record under an id. -/
def find (shelf : Shelf Key α) (id : Value) : Except Error (Option α) :=
  match keyOf id with
  | .error e => .error e
  | .ok key => .ok (if id.isNaN then none else shelf.get? key)

/-- The records under some ids, in the order asked for. -/
def findAll (shelf : Shelf Key α) : List Value → Except Error (List α)
  | [] => .ok []
  | id :: rest =>
    match find shelf id with
    | .error e => .error e
    | .ok found =>
      match findAll shelf rest with
      | .error e => .error e
      | .ok others => .ok (found.toList ++ others)

/-- Keep a record under an id. -/
def place (id : Value) (a : α) (shelf : Shelf Key α) : Except Error (Shelf Key α) :=
  match keyOf id with
  | .error e => .error e
  | .ok key => .ok (if id.isNaN then shelf ++ [(key, a)] else shelf.put key a)

/-- The shelf without the record under an id. -/
def without (id : Value) (shelf : Shelf Key α) : Except Error (Shelf Key α) :=
  match keyOf id with
  | .error e => .error e
  | .ok key => .ok (if id.isNaN then shelf else shelf.erase key)

@[simp] theorem find_text (shelf : Shelf Key α) (id : String) :
    find shelf (.text id) = .ok (shelf.get? (.text id)) := rfl

@[simp] theorem place_text (shelf : Shelf Key α) (id : String) (a : α) :
    place (.text id) a shelf = .ok (shelf.put (.text id) a) := rfl

@[simp] theorem without_text (shelf : Shelf Key α) (id : String) :
    without (.text id) shelf = .ok (shelf.erase (.text id)) := rfl

/-! ## Lists -/

/-- Vulnerabilities by the instant of detection, equal instants as they came. -/
def byDetection (vs : List Vulnerability) : Except Error (List Vulnerability) :=
  match stampAll vs with
  | .error e => .error e
  | .ok stamped => .ok ((stamped.mergeSort fun a b => a.1.le b.1).map (·.2))

/-- The vulnerabilities of a property, up to an instant if one is given. -/
def ofProperty (m : Memory) (propertyId : Value) (until_ : Option Value) :
    Except Error (List Vulnerability) :=
  let vs := m.vulnerabilities.records.filter (·.propertyId.equal propertyId)
  match until_ with
  | none => byDetection vs
  | some time =>
    match requireStampValue time with
    | .error e => .error e
    | .ok cutoff =>
      match stampAll vs with
      | .error e => .error e
      | .ok stamped => byDetection ((stamped.filter (·.1.le cutoff)).map (·.2))

/-- Records in the order of a value of theirs. -/
def inOrder (key : α → Value) (records : List α) : Except Error (List α) :=
  match Value.sortedBy? key records with
  | some sorted => .ok sorted
  | none => .error (.fault .wrongShape)

open World

/-! ## Rules -/

def createRule (d : RuleDraft) : Op (World Memory) Rule := do
  let now ← now
  let id ← fresh
  let rule : Rule :=
    { id := .text id, name := d.name, description := d.description, tree := d.tree
      effectiveFrom := d.effectiveFrom.orElse (.text now), effectiveTo := d.effectiveTo
      isActive := d.isActive, version := 1, createdAt := .text now, updatedAt := now }
  let m ← stored
  save { m with rules := m.rules.put (.text id) rule }
  return rule

/-- The tree of a change is read before the rule is looked up, and unknown
fields are refused last. -/
def updateRule (id : Value) (change : RuleChange) (expected : Option Value) :
    Op (World Memory) (Option Rule) := do
  let tree ← Op.orElse (.invalid <| .tree ·) (change.tree.mapM TreeSource.read)
  let m ← stored
  match ← Op.ofExcept (find m.rules id) with
  | none => return none
  | some current =>
    if expected.any (!·.equal (.int current.version)) then return none
    else if !change.others.isEmpty then throw (.fault .wrongShape)
    else
      let rule := current.changed change tree (← now)
      save { m with rules := ← Op.ofExcept (place id rule m.rules) }
      return some rule

def deleteRule (id : Value) : Op (World Memory) Bool := do
  let m ← stored
  let found ← Op.ofExcept (find m.rules id)
  save { m with rules := ← Op.ofExcept (without id m.rules) }
  return found.isSome

/-! ## Vulnerabilities -/

def createVulnerability (d : VulnerabilityDraft) : Op (World Memory) Vulnerability := do
  let now ← now
  let id ← fresh
  let v : Vulnerability :=
    { id := .text id, ruleId := d.ruleId, assessmentId := d.assessmentId
      propertyId := d.propertyId, status := d.status
      detectedAt := d.detectedAt.orElse (.text now)
      mitigationTypeId := d.mitigationTypeId, mitigationValueId := d.mitigationValueId
      mitigationDescription := d.mitigationDescription, notes := d.notes
      createdAt := .text now, updatedAt := .text now }
  let m ← stored
  save { m with vulnerabilities := m.vulnerabilities.put (.text id) v }
  return v

def updateVulnerability (id : Value) (change : VulnerabilityChange) :
    Op (World Memory) (Option Vulnerability) := do
  let m ← stored
  match ← Op.ofExcept (find m.vulnerabilities id) with
  | none => return none
  | some current =>
    if !change.others.isEmpty then throw (.fault .wrongShape)
    else
      let v := current.changed change (← now)
      save { m with vulnerabilities := ← Op.ofExcept (place id v m.vulnerabilities) }
      return some v

def deleteVulnerability (id : Value) : Op (World Memory) Bool := do
  let m ← stored
  let found ← Op.ofExcept (find m.vulnerabilities id)
  save { m with vulnerabilities := ← Op.ofExcept (without id m.vulnerabilities) }
  return found.isSome

/-! ## Assessments and catalogs -/

def createAssessment (d : AssessmentDraft) : Op (World Memory) Assessment := do
  let id ← fresh
  let now ← now
  let a : Assessment :=
    ⟨.text id, d.propertyId, d.observations, d.assessedAt.orElse (.text now)⟩
  let m ← stored
  save { m with assessments := m.assessments.put (.text id) a }
  return a

def createObservationType (d : ObservationTypeDraft) : Op (World Memory) ObservationType := do
  let t := d.withId (← idOr d.id)
  let m ← stored
  save { m with observationTypes := ← Op.ofExcept (place t.id t m.observationTypes) }
  return t

def createObservationValue (d : ObservationValueDraft) : Op (World Memory) ObservationValue := do
  let v := d.withId (← idOr d.id)
  let m ← stored
  save { m with observationValues := ← Op.ofExcept (place v.id v m.observationValues) }
  return v

def createMitigationType (d : MitigationTypeDraft) : Op (World Memory) MitigationType := do
  let t := d.withId (← idOr d.id)
  let m ← stored
  save { m with mitigationTypes := ← Op.ofExcept (place t.id t m.mitigationTypes) }
  return t

def createMitigationValue (d : MitigationValueDraft) : Op (World Memory) MitigationValue := do
  let v := d.withId (← idOr d.id)
  let m ← stored
  save { m with mitigationValues := ← Op.ofExcept (place v.id v m.mitigationValues) }
  return v

/-- Read something off the store. -/
def look (f : Memory → Except Error α) : Op (World Memory) α := do
  Op.ofExcept (f (← stored))

/-- Perform a request; the rules effective at a time are chosen among those that
`self` lists. -/
def answer (part : Op.Part τ (World Memory)) (self : Storage τ) : Storage τ where
  now := Op.within part now
  perform
    | .listRulesEffectiveAt time => do
      Op.ofExcept (effectiveAmong time (← self.perform .listRules))
    | .createRule d => Op.within part (createRule d)
    | .getRule id => Op.within part (look fun m => find m.rules id)
    | .listRules => Op.within part (look fun m => .ok m.rules.records)
    | .updateRule id change expected => Op.within part (updateRule id change expected)
    | .deleteRule id => Op.within part (deleteRule id)
    | .createVulnerability d => Op.within part (createVulnerability d)
    | .getVulnerability id => Op.within part (look fun m => find m.vulnerabilities id)
    | .listVulnerabilitiesForRule ruleId => Op.within part <| look fun m =>
      byDetection (m.vulnerabilities.records.filter (·.ruleId.equal ruleId))
    | .listVulnerabilitiesForProperty propertyId until_ => Op.within part <| look fun m =>
      m.ofProperty propertyId until_
    | .updateVulnerability id change => Op.within part (updateVulnerability id change)
    | .deleteVulnerability id => Op.within part (deleteVulnerability id)
    | .createAssessment d => Op.within part (createAssessment d)
    | .getAssessment id => Op.within part (look fun m => find m.assessments id)
    | .createObservationType d => Op.within part (createObservationType d)
    | .listObservationTypes => Op.within part <| look fun m =>
      inOrder ObservationType.name m.observationTypes.records
    | .getObservationTypes ids => Op.within part (look fun m => findAll m.observationTypes ids)
    | .createObservationValue d => Op.within part (createObservationValue d)
    | .getObservationValues ids => Op.within part (look fun m => findAll m.observationValues ids)
    | .createMitigationType d => Op.within part (createMitigationType d)
    | .getMitigationType id => Op.within part (look fun m => find m.mitigationTypes id)
    | .listMitigationTypes => Op.within part <| look fun m =>
      inOrder MitigationType.name m.mitigationTypes.records
    | .createMitigationValue d => Op.within part (createMitigationValue d)
    | .listMitigationValues typeId => Op.within part <| look fun m =>
      inOrder MitigationValue.value (m.mitigationValues.records.filter (·.typeId.equal typeId))
    | .ping => pure true

/-- The store in memory as a storage of its own. -/
def storage : Storage (World Memory) := Storage.tie id (answer .whole)

end Memory

end PropertyRisk
