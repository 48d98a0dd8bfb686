import PropertyRisk.Engine.Assessments
import PropertyRisk.Engine.RuleChanges
import PropertyRisk.Store.Memory
import PropertyRisk.Proofs.Shelves
import PropertyRisk.Proofs.Triple

/-!
# What the engine relies on in a store

A `View` says which records a store holds, as the store in memory would keep
them, and what the store makes of the values it is handed. `View.Lawful` states
for each request how it is answered from these records and what it changes in
them. The laws do not fix the order of a list, only what is on it.
-/

namespace PropertyRisk

open Engine (ItemFailure)

@[simp] theorem Value.equal_text (a b : String) :
    (Value.text a).equal (.text b) = decide (a = b) := by
  simp [Value.equal]

@[simp] theorem Value.orElse_self (v : Value) : v.orElse v = v := ite_self v

theorem Engine.mem_distinctSorted {s : String} {texts : List String} :
    s ∈ distinctSorted texts ↔ s ∈ texts := by
  simp [distinctSorted]

/-- Whether an error refuses a call: what was given is not valid, or names nothing. -/
def Error.isRejection : Error → Bool
  | invalid _ | notFound .. => true
  | storage _ | fault _ => false

/-- Whether a request changes nothing. -/
def Request.isRead : Request α → Bool
  | getRule _ | listRules | listRulesEffectiveAt _ | getVulnerability _
  | listVulnerabilitiesForRule _ | listVulnerabilitiesForProperty .. | getAssessment _
  | listObservationTypes | getObservationTypes _ | getObservationValues _ | getMitigationType _
  | listMitigationTypes | listMitigationValues _ | ping => true
  | _ => false

/-- Whether a request writes to a catalog. -/
def Request.isCatalogWrite : Request α → Bool
  | createObservationType _ | createObservationValue _ | createMitigationType _
  | createMitigationValue _ => true
  | _ => false

/-- Whether an id is in use: for a record, or for the rule of a vulnerability,
which may be gone. -/
def Memory.Uses (m : Memory) (s : String) : Prop :=
  Key.text s ∈ m.rules.keys ∨ Key.text s ∈ m.vulnerabilities.keys ∨
    Key.text s ∈ m.assessments.keys ∨ ∃ x ∈ m.vulnerabilities.records, x.ruleId = .text s

/-- Vulnerabilities whose detection times can be read. -/
def Stamped (xs : List Vulnerability) : Prop :=
  ∀ x ∈ xs, ∃ stamp, requireStampValue x.detectedAt = .ok stamp

def Memory.Stamped (m : Memory) : Prop := PropertyRisk.Stamped m.vulnerabilities.records

/-- A later state of a world: some ids may have been issued. -/
structure World.Follows (w w' : World S) : Prop where
  clock : w'.clock = w.clock
  idOf : w'.idOf = w.idOf
  issued : w.issued ≤ w'.issued

theorem World.Follows.refl (w : World S) : w.Follows w := ⟨rfl, rfl, Nat.le_refl _⟩

structure View (S : Type) where
  storage : Storage (World S)
  /-- The records that a store holds. -/
  records : S → Memory
  /-- A store in which nothing is missing and everything can be read. -/
  Whole : S → Prop
  /-- A text that is taken as it is. -/
  Plain : String → Prop
  /-- A property's number that is taken as it is. -/
  Settled : Value → Prop
  /-- A tree that is read back as it was written. -/
  Tree : Criteria → Prop
  /-- Observations that are read back as they were written. -/
  Noted : List Observation → Prop
  /-- The id that a value names in a request, if it is taken and names any. -/
  name : Operation → Value → Except Error (Option String)
  /-- What is kept of a text. -/
  column : Value → Value
  /-- What is kept of a flag. -/
  flag : Value → Value
  /-- Whether a change of a rule is taken, at the version it expects. -/
  takes : RuleChange → Int → Except Error Unit

namespace View

variable {S : Type} (v : View S)

/-! ## States -/

/-- A text that is taken as it is, as a value. -/
def Text (x : Value) : Prop := ∃ s, v.Plain s ∧ x = .text s

/-- Every record of a shelf is there once, under its own id. -/
structure Shelved (id : α → Value) (shelf : Shelf Key α) : Prop where
  distinct : shelf.Distinct
  own : ∀ p ∈ shelf, ∃ s, v.Plain s ∧ p.1 = .text s ∧ id p.2 = .text s

/-- A vulnerability whose references and status are texts. -/
structure Finding (x : Vulnerability) : Prop where
  ruleId : v.Text x.ruleId
  assessmentId : v.Text x.assessmentId
  status : ∃ s, x.status = .text s

structure Kept (m : Memory) : Prop where
  rules : v.Shelved Rule.id m.rules
  vulnerabilities : v.Shelved Vulnerability.id m.vulnerabilities
  assessments : v.Shelved Assessment.id m.assessments
  findings : ∀ x ∈ m.vulnerabilities.records, v.Finding x
  settled : ∀ a ∈ m.assessments.records, v.Settled a.propertyId

/-- The store of a world can be worked with. -/
structure Ready (w : World S) : Prop where
  whole : v.Whole w.store
  kept : v.Kept (v.records w.store)

/-- The ids that are still to come can be used, and none is in use already. -/
structure Supplied (w : World S) : Prop where
  injective : Function.Injective w.idOf
  plain : ∀ n, v.Plain (w.idOf n)
  unused : ∀ n, w.issued < n → ¬(v.records w.store).Uses (w.idOf n)

/-- The store of a world has come to hold the records `m`. -/
structure Becomes (w : World S) (m : Memory) (w' : World S) : Prop where
  whole : v.Whole w'.store
  records : v.records w'.store = m
  clock : w'.clock = w.clock
  idOf : w'.idOf = w.idOf
  issued : w.issued ≤ w'.issued

/-- The store of a world has come to hold other rules, and nothing else has changed. -/
structure RulesBecome (w : World S) (rules : Shelf Key Rule) (w' : World S) : Prop where
  follows : w.Follows w'
  records : v.records w'.store = { v.records w.store with rules }
  whole : v.Whole w.store → v.Whole w'.store

namespace RulesBecome

variable {v : View S} {w w' : World S} {rules : Shelf Key Rule}

theorem becomes (h : v.RulesBecome w rules w') (hw : v.Whole w.store) :
    v.Becomes w { v.records w.store with rules } w' :=
  ⟨h.whole hw, h.records, h.follows.clock, h.follows.idOf, h.follows.issued⟩

theorem of_becomes (h : v.Becomes w { v.records w.store with rules } w') :
    v.RulesBecome w rules w' :=
  ⟨⟨h.clock, h.idOf, h.issued⟩, h.records, fun _ => h.whole⟩

theorem refl (v : View S) (w : World S) : v.RulesBecome w (v.records w.store).rules w :=
  ⟨.refl w, rfl, fun h => h⟩

end RulesBecome

/-! ## Answers -/

/-- What looking for an id on a shelf is answered with. -/
def look (operation : Operation) (id : Value) (shelf : Shelf Key α) : Except Error (Option α) :=
  (v.name operation id).map (·.bind fun s => shelf.get? (.text s))

/-- A shelf without what an id names. -/
def drop (operation : Operation) (id : Value) (shelf : Shelf Key α) : Shelf Key α :=
  match v.name operation id with
  | .ok (some s) => shelf.erase (.text s)
  | _ => shelf

/-- What is kept of a change of a rule. -/
def kept (change : RuleChange) : RuleChange :=
  { change with
    name := change.name.map v.column
    description := change.description.map v.column
    effectiveFrom := change.effectiveFrom.map v.column
    effectiveTo := change.effectiveTo.map v.column
    isActive := change.isActive.map v.flag }

end View

/-- A change that leaves a rule where it is, and whose tree has been read. -/
structure RuleChange.Proper (change : RuleChange) (tree : Option Criteria) : Prop where
  tree : change.tree = tree.map .parsed
  id : change.id = none
  createdAt : change.createdAt = none
  others : change.others = []

/-- A change that does not touch what a vulnerability was found by. -/
structure VulnerabilityChange.IsWorkflow (change : VulnerabilityChange) : Prop where
  id : change.id = none
  ruleId : change.ruleId = none
  assessmentId : change.assessmentId = none
  propertyId : change.propertyId = none
  detectedAt : change.detectedAt = none
  status : ∀ x, change.status = some x → ∃ s, x = .text s
  others : change.others = []

/-- Two states of one vulnerability. -/
structure Vulnerability.Same (x y : Vulnerability) : Prop where
  id : y.id = x.id
  ruleId : y.ruleId = x.ruleId
  assessmentId : y.assessmentId = x.assessmentId
  propertyId : y.propertyId = x.propertyId
  detectedAt : y.detectedAt = x.detectedAt
  status : (∃ s, x.status = .text s) → ∃ s, y.status = .text s

/-- The rule that a store makes of a draft, where `column` and `flag` are what it keeps of a
text and of a flag. -/
def RuleDraft.stored (d : RuleDraft) (column flag : Value → Value) (id now : String) : Rule where
  id := .text id
  name := column d.name
  description := column d.description
  tree := d.tree
  effectiveFrom := column (d.effectiveFrom.orElse (.text now))
  effectiveTo := column d.effectiveTo
  isActive := flag d.isActive
  version := 1
  createdAt := .text now
  updatedAt := now

theorem RuleDraft.window_stored (d : RuleDraft) (column flag : Value → Value) (id now : String) :
    (d.stored column flag id now).window =
      ⟨column (d.effectiveFrom.orElse (.text now)), column d.effectiveTo⟩ := rfl

/-- A vulnerability as it is opened. -/
def Vulnerability.opened (id ruleId assessmentId : String) (propertyId : Value) (now : String) :
    Vulnerability where
  id := .text id
  ruleId := .text ruleId
  assessmentId := .text assessmentId
  propertyId := propertyId
  status := .text Status.opened.name
  detectedAt := .text now
  mitigationTypeId := .null
  mitigationValueId := .null
  mitigationDescription := .null
  notes := .null
  createdAt := .text now
  updatedAt := .text now

namespace View

variable {S : Type}

open Op (Triple Keeps)

structure Lawful (v : View S) : Prop where
  plain_stamp : ∀ {s : Time.Stamp}, v.Plain s.text
  column_text : ∀ {s}, v.Plain s → v.column (.text s) = .text s
  column_null : v.column .null = .null
  flag_bool : ∀ {b}, v.flag (.bool b) = .bool b
  tree_of_read : ∀ {x tree}, Criteria.read x = .ok tree → v.Tree tree
  noted_of_read : ∀ {x os}, Engine.readObservationList x = .ok os → v.Noted os
  name_text : ∀ {operation s}, v.Plain s → v.name operation (.text s) = .ok (some s)
  text_of_name : ∀ {operation s t}, v.name operation (.text s) = .ok (some t) → t = s
  name_congr : ∀ {operation id s} (other),
    v.name operation id = .ok (some s) → v.name other id = .ok (some s)
  now : ∀ {w}, v.storage.now.run w = (.ok w.clock.text, w)
  reads : ∀ {α} {r : Request α}, r.isRead → Op.Quiet (v.storage.perform r)
  getRule : ∀ {w} (id), v.Ready w →
    (v.storage.perform (.getRule id)).run w = (v.look .getRule id (v.records w.store).rules, w)
  getAssessment : ∀ {w} (id), v.Ready w →
    (v.storage.perform (.getAssessment id)).run w =
      (v.look .getAssessment id (v.records w.store).assessments, w)
  listRules : ∀ {w}, v.Ready w → ∃ rs, rs.Perm (v.records w.store).rules.records ∧
    (v.storage.perform .listRules).run w = (.ok rs, w)
  listRulesEffectiveAt : ∀ {time}, v.storage.perform (.listRulesEffectiveAt time) =
    v.storage.perform .listRules >>= fun rs => Op.ofExcept (effectiveAmong time rs)
  listForRule : ∀ {w id s}, v.Ready w → (v.records w.store).Stamped →
    v.name .listVulnerabilitiesForRule id = .ok (some s) →
    ∃ xs, xs.Perm ((v.records w.store).vulnerabilities.records.filter (·.ruleId = .text s)) ∧
      (v.storage.perform (.listVulnerabilitiesForRule id)).run w = (.ok xs, w)
  listForProperty : ∀ {w p}, v.Ready w → (v.records w.store).Stamped → v.Settled p →
    ∃ xs, xs.Perm ((v.records w.store).vulnerabilities.records.filter (·.propertyId.equal p)) ∧
      (v.storage.perform (.listVulnerabilitiesForProperty p none)).run w = (.ok xs, w)
  createRule : ∀ {w d}, v.Ready w → v.Supplied w → v.Tree d.tree →
    Triple (v.storage.perform (.createRule d)) w
      (fun r w' => r.id = .text (w.idOf (w.issued + 1)) ∧ r.tree = d.tree ∧
        w'.issued = w.issued + 1 ∧
        v.Becomes w { v.records w.store with
          rules := (v.records w.store).rules.put (.text (w.idOf (w.issued + 1))) r } w')
      (fun _ w' => v.Becomes w (v.records w.store) w')
  updateRule : ∀ {w id s r} (change) {tree}, v.Ready w → v.name .updateRule id = .ok (some s) →
    (v.records w.store).rules.get? (.text s) = some r → change.Proper tree →
    (∀ t, tree = some t → v.Tree t) →
    ∃ w', (v.storage.perform (.updateRule id change (some (.int r.version)))).run w =
        ((v.takes change r.version).map fun _ =>
          some (r.changed (v.kept change) tree w.clock.text), w') ∧
      v.Becomes w { v.records w.store with
        rules := match v.takes change r.version with
          | .ok _ => (v.records w.store).rules.put (.text s)
              (r.changed (v.kept change) tree w.clock.text)
          | .error _ => (v.records w.store).rules } w'
  deleteRule : ∀ {w} (id), v.Ready w → ∃ w',
    (v.storage.perform (.deleteRule id)).run w =
        ((v.look .deleteRule id (v.records w.store).rules).map Option.isSome, w') ∧
      v.Becomes w { v.records w.store with
        rules := v.drop .deleteRule id (v.records w.store).rules } w'
  createVulnerability : ∀ {w ruleId assessmentId p}, v.Ready w → v.Supplied w →
    v.Plain ruleId → v.Plain assessmentId → v.Settled p → ∃ w',
    (v.storage.perform (.createVulnerability { ruleId := .text ruleId
                                               assessmentId := .text assessmentId
                                               propertyId := p
                                               detectedAt := .text w.clock.text })).run w =
        (.ok (.opened (w.idOf (w.issued + 1)) ruleId assessmentId p w.clock.text), w') ∧
      w'.issued = w.issued + 1 ∧
      v.Becomes w { v.records w.store with
        vulnerabilities := (v.records w.store).vulnerabilities.put
          (.text (w.idOf (w.issued + 1)))
          (.opened (w.idOf (w.issued + 1)) ruleId assessmentId p w.clock.text) } w'
  updateVulnerability : ∀ {w} (id) {change}, v.Ready w → change.IsWorkflow →
    Triple (v.storage.perform (.updateVulnerability id change)) w
      (fun y? w' => match y? with
        | none => w' = w
        | some y => ∃ s x, (v.records w.store).vulnerabilities.get? (.text s) = some x ∧
            x.Same y ∧ v.Becomes w { v.records w.store with
              vulnerabilities := (v.records w.store).vulnerabilities.put (.text s) y } w')
      (fun _ w' => w' = w)
  deleteVulnerability : ∀ {w} (id), v.Ready w → ∃ w',
    (v.storage.perform (.deleteVulnerability id)).run w =
        ((v.look .deleteVulnerability id (v.records w.store).vulnerabilities).map
          Option.isSome, w') ∧
      v.Becomes w { v.records w.store with
        vulnerabilities := v.drop .deleteVulnerability id (v.records w.store).vulnerabilities } w'
  createAssessment : ∀ {w d}, v.Ready w → v.Supplied w → v.Noted d.observations →
    Triple (v.storage.perform (.createAssessment d)) w
      (fun a w' => a.id = .text (w.idOf (w.issued + 1)) ∧ a.observations = d.observations ∧
        v.Settled a.propertyId ∧ w'.issued = w.issued + 1 ∧
        v.Becomes w { v.records w.store with
          assessments := (v.records w.store).assessments.put
            (.text (w.idOf (w.issued + 1))) a } w')
      (fun _ w' => v.Becomes w (v.records w.store) w')
  catalogs : ∀ {α} {r : Request α} {w}, v.Ready w → r.isCatalogWrite →
    Keeps (fun w' => ∃ m, m.rules = (v.records w.store).rules ∧
      m.vulnerabilities = (v.records w.store).vulnerabilities ∧
      m.assessments = (v.records w.store).assessments ∧ v.Becomes w m w')
      (v.storage.perform r) w

/-! ## Look-up -/

variable {v : View S} {operation : Operation} {id : Value} {shelf : Shelf Key α} {a : α}

theorem look_eq_some : v.look operation id shelf = .ok (some a) ↔
    ∃ s, v.name operation id = .ok (some s) ∧ shelf.get? (.text s) = some a := by
  unfold look
  rcases v.name operation id with _ | _ | s <;> simp [Except.map]

theorem look_of_name {s : String} (h : v.name operation id = .ok (some s)) :
    v.look operation id shelf = .ok (shelf.get? (.text s)) := by
  simp [look, h, Except.map]

theorem drop_of_name {s : String} (h : v.name operation id = .ok (some s)) :
    v.drop operation id shelf = shelf.erase (.text s) := by
  simp [drop, h]

/-- What cannot be looked up is not dropped either. -/
theorem drop_of_look_error {e : Error} (h : v.look operation id shelf = .error e) :
    v.drop operation id shelf = shelf := by
  unfold drop
  split
  · rename_i hn
    simp [look_of_name hn] at h
  · rfl

end View

end PropertyRisk
