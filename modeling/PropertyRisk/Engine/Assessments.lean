import PropertyRisk.Engine.Workflow

/-!
# Processing assessments

An assessment is recorded with its observations and then processed: each active
rule is judged on them, and a rule that triggers opens a vulnerability, unless
duplicates are avoided and one for the same rule and property is unresolved.
At a point in time only rules effective then take part. A storage failure on one
rule's behalf is reported with the others' results.
-/

namespace PropertyRisk.Engine

/-- An assessment to process: by id, as a record, or not stored yet. -/
inductive AssessmentSource
  | stored (id : Value)
  | record (assessment : Assessment)
  | draft (draft : AssessmentDraft)

/-- What processing an assessment came to. -/
structure ProcessReport where
  assessmentId : Value
  evaluated : Nat
  triggered : List Value
  created : List Vulnerability
  skipped : Nat
  errors : List ItemFailure
deriving DecidableEq, Repr

/-- The vulnerabilities of a property that were detected up to a time. -/
structure PropertyState where
  propertyId : Value
  time : String
  vulnerabilities : List Vulnerability
deriving DecidableEq, Repr

namespace Assessments

/-- Record an assessment. Its time is brought into its written form; without one
the store sets it. -/
def recordDraft (g : Storage σ) (propertyId : Value) (observations : List Observation)
    (assessedAt : Value) : Op σ Assessment := do
  if assessedAt.holds then
    let stamp ← Op.ofExcept (requireStampValue assessedAt)
    g.perform (.createAssessment ⟨propertyId, observations, .text stamp.text⟩)
  else g.perform (.createAssessment ⟨propertyId, observations, .text ""⟩)

def record (g : Storage σ) (propertyId observations assessedAt : Value) : Op σ Assessment := do
  recordDraft g propertyId (← Op.ofExcept (readObservationList observations)) assessedAt

def get (g : Storage σ) (id : Value) : Op σ Assessment := do
  match ← g.perform (.getAssessment id) with
  | some a => return a
  | none => throw (.notFound .assessment id)

def resolve (g : Storage σ) : AssessmentSource → Op σ Assessment
  | .stored id => get g id
  | .record a => pure a
  | .draft d => recordDraft g d.propertyId d.observations d.assessedAt

/-- What a rule came to when an assessment was processed. -/
inductive Verdict
  /-- The rule is gone, inactive or not effective. -/
  | passedOver
  | clear
  /-- It triggered, and an unresolved vulnerability was there already. -/
  | skipped (ruleId : Value)
  | created (ruleId : Value) (v : Vulnerability)
  /-- The storage failed before the rule was judged. -/
  | failed (failure : StorageFailure)
  /-- It triggered, and the storage failed after that. -/
  | failedToCreate (ruleId : Value) (failure : StorageFailure)
deriving DecidableEq, Repr

namespace Verdict

def isEvaluated : Verdict → Bool
  | passedOver | failed _ => false
  | _ => true

/-- The rule as it was judged, if it triggered. -/
def triggered? : Verdict → Option Value
  | skipped ruleId | created ruleId _ | failedToCreate ruleId _ => some ruleId
  | _ => none

def isSkipped : Verdict → Bool
  | skipped _ => true
  | _ => false

def created? : Verdict → Option Vulnerability
  | created _ v => some v
  | _ => none

def failure? : Verdict → Option StorageFailure
  | failed failure | failedToCreate _ failure => some failure
  | _ => none

end Verdict

/-- Open a vulnerability, unless duplicates are avoided and one is unresolved. -/
def open_ (g : Storage σ) (dedupe : Bool) (a : Assessment) (rule : Rule) :
    Op σ (Option Vulnerability) := do
  let existing ← if dedupe then Vulnerabilities.findUnresolved g rule.id a.propertyId
    else pure none
  if existing.isSome then return none
  else return some (← Vulnerabilities.create g rule.id a.id a.propertyId .null)

/-- Judge a rule on an assessment. -/
def judgeRule (g : Storage σ) (dedupe : Bool) (a : Assessment) (rule : Rule) : Op σ Verdict := do
  if ← judge rule.tree a.observations then
    match ← Op.attempt (open_ g dedupe a rule) with
    | .error failure => return .failedToCreate rule.id failure
    | .ok none => return .skipped rule.id
    | .ok (some v) => return .created rule.id v
  else return .clear

/-- Whether a rule takes part: it is active, and effective at the time given. -/
def takesPart (time : Option String) (rule : Rule) : Except Error Bool :=
  if !rule.isActive.holds then .ok false
  else
    match time with
    | none => .ok true
    | some t => rule.window.containsValue (.text t)

/-- Read a candidate again, which may have changed since it was listed, and
judge it. -/
def examine (g : Storage σ) (dedupe : Bool) (a : Assessment) (time : Option String)
    (candidate : Rule) : Op σ Verdict := do
  match ← Op.attempt (g.perform (.getRule candidate.id)) with
  | .error failure => return .failed failure
  | .ok none => return .passedOver
  | .ok (some rule) =>
    if ← Op.ofExcept (takesPart time rule) then judgeRule g dedupe a rule
    else return .passedOver

def examineAll (g : Storage σ) (dedupe : Bool) (a : Assessment) (time : Option String) :
    List Rule → Op σ (List (Rule × Verdict))
  | [] => return []
  | candidate :: rest => do
    let verdict ← examine g dedupe a time candidate
    let others ← examineAll g dedupe a time rest
    return (candidate, verdict) :: others

/-- Sum up the verdicts on an assessment. -/
def report (assessmentId : Value) (verdicts : List (Rule × Verdict)) : ProcessReport where
  assessmentId := assessmentId
  evaluated := verdicts.countP (·.2.isEvaluated)
  triggered := verdicts.filterMap (·.2.triggered?)
  created := verdicts.filterMap (·.2.created?)
  skipped := verdicts.countP (·.2.isSkipped)
  errors := verdicts.filterMap fun (rule, verdict) => verdict.failure?.map (⟨rule.id, ·⟩)

/-- Judge every active rule on an assessment. -/
def process (g : Storage σ) (dedupe : Bool) (source : AssessmentSource) : Op σ ProcessReport := do
  let a ← resolve g source
  let candidates ← g.perform .listRules
  return report a.id (← examineAll g dedupe a none candidates)

/-- Judge the rules effective at a time, by default that of the assessment. -/
def processAt (g : Storage σ) (dedupe : Bool) (source : AssessmentSource) (time : Value) :
    Op σ ProcessReport := do
  let a ← resolve g source
  let given := time.orElse a.assessedAt
  if !given.holds then throw (.invalid .timestampMissing)
  else
    let stamp ← Op.ofExcept (requireStampValue given)
    let candidates ← g.perform (.listRulesEffectiveAt (.text stamp.text))
    return report a.id (← examineAll g dedupe a (some stamp.text) candidates)

/-- The stored vulnerabilities of a property detected up to a time. -/
def stateAt (g : Storage σ) (propertyId time : Value) : Op σ PropertyState := do
  let stamp ← Op.ofExcept (requireStampValue time)
  let vs ← g.perform (.listVulnerabilitiesForProperty propertyId (some (.text stamp.text)))
  return ⟨propertyId, stamp.text, vs⟩

end Assessments

end PropertyRisk.Engine
