import PropertyRisk.Engine.Record
import PropertyRisk.Engine.RuleWording
import PropertyRisk.Engine.Catalogs

/-!
# Calls of the engine

Everything a caller can ask of the engine is a `Call`, and everything it can be
told is a `Reply`. A run of the engine is a list of calls.
-/

namespace PropertyRisk.Engine

/-- The policies that an engine is set up with. -/
structure Policy where
  dedupe : Bool := true
  enforced : Bool := false
deriving DecidableEq, Repr

inductive Call
  | getRule (id : Value)
  | listRules
  | checkTree (tree : Value)
  | createRule (input : RuleInput)
  | updateRule (id : Value) (patch : RulePatch)
  | deleteRule (id : Value)
  | testRule (tree cases : Value)
  | previewRule (id tree : Value)
  | renderRule (id : Value)
  | getVulnerability (id : Value)
  | listForProperty (propertyId : Value)
  | findUnresolved (ruleId propertyId : Value)
  | observationsOf (assessmentId : Value)
  | createVulnerability (ruleId assessmentId propertyId mitigationTypeId : Value)
  | mitigationOptions (id : Value)
  | assignMitigationType (id typeId : Value)
  | applyMitigation (id valueId description : Value)
  | updateStatus (id status notes : Value)
  | evaluateVulnerability (id : Value)
  | reevaluateProperty (propertyId : Value)
  | recordAssessment (propertyId observations assessedAt : Value)
  | getAssessment (id : Value)
  | process (source : AssessmentSource)
  | processAt (source : AssessmentSource) (time : Value)
  | stateAt (propertyId time : Value)
  | createObservationType (name kind description multiple : Value)
  | listObservationTypes
  | createObservationValue (typeId value description : Value)
  | createMitigationType (name description multiple : Value)
  | listMitigationTypes
  | createMitigationValue (typeId value description category : Value)

inductive Reply
  | done
  | answer (b : Bool)
  | text (s : String)
  | tree (tree : Criteria)
  | rule (r : Rule)
  | rules (rs : List Rule)
  | ruleUpdate (u : RuleUpdate)
  | rulePreview (p : RulePreview)
  | trials (ts : List RuleTrial)
  | vulnerability (v : Vulnerability)
  | vulnerability? (v : Option Vulnerability)
  | vulnerabilities (vs : List Vulnerability)
  | observations (os : List Observation)
  | options (os : List MitigationOption)
  | statusChange (c : StatusChange)
  | reevaluation (r : Reevaluation)
  | assessment (a : Assessment)
  | report (r : ProcessReport)
  | state (s : PropertyState)
  | observationType (t : ObservationType)
  | observationTypes (ts : List ObservationType)
  | observationValue (v : ObservationValue)
  | mitigationType (t : MitigationType)
  | mitigationTypes (ts : List MitigationType)
  | mitigationValue (v : MitigationValue)
deriving DecidableEq, Repr

namespace Call

def run (policy : Policy) (g : Storage σ) : Call → Op σ Reply
  | getRule id => .rule <$> Rules.get g id
  | listRules => .rules <$> Rules.list g
  | checkTree tree => .tree <$> Rules.checkTree g tree
  | createRule input => .rule <$> Rules.create g input
  | updateRule id patch => .ruleUpdate <$> Rules.update g id patch
  | deleteRule id => (fun _ => .done) <$> Rules.delete g id
  | testRule tree cases => .trials <$> Op.ofExcept (Rules.test tree cases)
  | previewRule id tree => .rulePreview <$> Rules.preview g id tree
  | renderRule id => .text <$> Rules.render g id
  | getVulnerability id => .vulnerability <$> Vulnerabilities.get g id
  | listForProperty propertyId => .vulnerabilities <$> Vulnerabilities.listForProperty g propertyId
  | findUnresolved ruleId propertyId =>
    .vulnerability? <$> Vulnerabilities.findUnresolved g ruleId propertyId
  | observationsOf assessmentId => .observations <$> Engine.observationsOf g assessmentId
  | createVulnerability ruleId assessmentId propertyId mitigationTypeId =>
    .vulnerability <$> Vulnerabilities.create g ruleId assessmentId propertyId mitigationTypeId
  | mitigationOptions id => .options <$> Vulnerabilities.mitigationOptions g id
  | assignMitigationType id typeId =>
    .vulnerability <$> Vulnerabilities.assignMitigationType g id typeId
  | applyMitigation id valueId description =>
    .vulnerability <$> Vulnerabilities.applyMitigation g id valueId description
  | updateStatus id status notes =>
    .statusChange <$> Vulnerabilities.updateStatus g policy.enforced id status notes
  | evaluateVulnerability id => .answer <$> Vulnerabilities.evaluate g id
  | reevaluateProperty propertyId => .reevaluation <$> Vulnerabilities.reevaluate g propertyId
  | recordAssessment propertyId observations assessedAt =>
    .assessment <$> Assessments.record g propertyId observations assessedAt
  | getAssessment id => .assessment <$> Assessments.get g id
  | process source => .report <$> Assessments.process g policy.dedupe source
  | processAt source time => .report <$> Assessments.processAt g policy.dedupe source time
  | stateAt propertyId time => .state <$> Assessments.stateAt g propertyId time
  | createObservationType name kind description multiple =>
    .observationType <$> Catalogs.createObservationType g name kind description multiple
  | listObservationTypes => .observationTypes <$> Catalogs.listObservationTypes g
  | createObservationValue typeId value description =>
    .observationValue <$> Catalogs.createObservationValue g typeId value description
  | createMitigationType name description multiple =>
    .mitigationType <$> Catalogs.createMitigationType g name description multiple
  | listMitigationTypes => .mitigationTypes <$> Catalogs.listMitigationTypes g
  | createMitigationValue typeId value description category =>
    .mitigationValue <$> Catalogs.createMitigationValue g typeId value description category

/-- Run calls one after another, whether or not they succeed. -/
def runAll (policy : Policy) (g : Storage σ) : List Call → σ → List (Except Error Reply) × σ
  | [], s => ([], s)
  | call :: rest, s =>
    let (reply, s) := (call.run policy g).run s
    let (replies, s) := runAll policy g rest s
    (reply :: replies, s)

end Call

namespace Reply

def toValue : Reply → Value
  | done => .null
  | answer b => .bool b
  | text s => .text s
  | tree c => c.toValue
  | rule r => Record.rule r
  | rules rs => .list (rs.map Record.rule)
  | ruleUpdate u => Record.ruleUpdate u
  | rulePreview p => Record.rulePreview p
  | trials ts => .list (ts.map Record.ruleTrial)
  | vulnerability v => Record.vulnerability v
  | vulnerability? v => (v.map Record.vulnerability).getD .null
  | vulnerabilities vs => .list (vs.map Record.vulnerability)
  | observations os => Record.observations os
  | options os => .list (os.map Record.mitigationOption)
  | statusChange c => Record.statusChange c
  | reevaluation r => Record.reevaluation r
  | assessment a => Record.assessment a
  | report r => Record.processReport r
  | state s => Record.propertyState s
  | observationType t => Record.observationType t
  | observationTypes ts => .list (ts.map Record.observationType)
  | observationValue v => Record.observationValue v
  | mitigationType t => Record.mitigationType t
  | mitigationTypes ts => .list (ts.map Record.mitigationType)
  | mitigationValue v => Record.mitigationValue v

end Reply

end PropertyRisk.Engine
