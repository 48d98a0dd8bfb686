import PropertyRisk.Engine.Assessments

/-!
# What processing makes of each rule

The fate of a rule depends on the rule, the assessment, what was found before and
the failures injected on the rule's behalf, but not on the other rules. A report
sums up the fates of the listed rules, in their order.
-/

namespace PropertyRisk.Engine.Assessments

/-- A verdict without what it carries. -/
inductive Fate
  | passedOver
  | clear
  | skipped
  | created
  | failed (failure : StorageFailure)
  | failedToCreate (failure : StorageFailure)
deriving DecidableEq, Repr

namespace Fate

def isEvaluated : Fate → Bool
  | passedOver | failed _ => false
  | _ => true

def isTriggered : Fate → Bool
  | skipped | created | failedToCreate _ => true
  | _ => false

def failure? : Fate → Option StorageFailure
  | failed failure | failedToCreate failure => some failure
  | _ => none

/-- The verdict on a rule, where `x` is what it opens if it opens any. -/
def verdict (rule : Rule) (x : Vulnerability) : Fate → Verdict
  | passedOver => .passedOver
  | clear => .clear
  | skipped => .skipped rule.id
  | created => .created rule.id x
  | failed failure => .failed failure
  | failedToCreate failure => .failedToCreate rule.id failure

end Fate

/-! ## The fate of a rule -/

/-- The failure injected for reading a rule again. -/
def rereadFailure? (injected : List Injected) (rule : Rule) : Option StorageFailure :=
  Injected.failureOf injected (.getRule rule.id)

/-- The failure injected for opening a vulnerability under a rule. -/
def openFailure? (injected : List Injected) (rule : Rule) : Option StorageFailure :=
  Injected.failureOf injected
    (.createVulnerability { ruleId := rule.id, assessmentId := .null, propertyId := .null })

/-- Whether a rule is among the candidates: at a time, those effective then. -/
def isCandidate (time : Option String) (rule : Rule) : Bool :=
  match time with
  | none => true
  | some t =>
    match rule.window.containsValue (.text t) with
    | .ok effective => effective
    | .error _ => false

/-- Whether a rule takes part. -/
def isPresent (time : Option String) (rule : Rule) : Bool := rule.isActive.holds && isCandidate time rule

/-- Whether a rule's tree is true on the observations of an assessment. -/
def holdsOn (a : Assessment) (rule : Rule) : Bool :=
  match rule.tree.evaluate a.observations with
  | .ok holds => holds
  | .error _ => false

/-- Whether a vulnerability of a rule and property is open or in review. -/
def isPending (xs : List Vulnerability) (propertyId : Value) (rule : Rule) : Bool :=
  xs.any fun x => decide (x.ruleId = rule.id) && x.propertyId.equal propertyId &&
    (decide (x.status = .text Status.opened.name) || decide (x.status = .text Status.inReview.name))

/-- What becomes of a rule when an assessment is processed, `xs` being the
vulnerabilities found before. -/
def fateOf (injected : List Injected) (dedupe : Bool) (xs : List Vulnerability) (a : Assessment)
    (time : Option String) (rule : Rule) : Fate :=
  match rereadFailure? injected rule with
  | some failure => if isCandidate time rule then .failed failure else .passedOver
  | none =>
    if !isPresent time rule then .passedOver
    else if !holdsOn a rule then .clear
    else if dedupe && isPending xs a.propertyId rule then .skipped
    else
      match openFailure? injected rule with
      | some failure => .failedToCreate failure
      | none => .created

section
variable {injected : List Injected} {dedupe : Bool} {xs ys : List Vulnerability} {a : Assessment}
  {time : Option String} {rule : Rule}

theorem isPending_append (p : Value) :
    isPending (xs ++ ys) p rule = (isPending xs p rule || isPending ys p rule) :=
  List.any_append

/-- A fate depends on what was found before only by what is pending for the rule. -/
theorem fateOf_congr (h : isPending ys a.propertyId rule = isPending xs a.propertyId rule) :
    fateOf injected dedupe ys a time rule = fateOf injected dedupe xs a time rule := by
  simp only [fateOf, h]

/-- Injected failures of other rules do not change the fate of a rule. -/
theorem fateOf_of_spared (hget : rereadFailure? injected rule = none)
    (hopen : openFailure? injected rule = none) :
    fateOf injected dedupe xs a time rule = fateOf [] dedupe xs a time rule := by
  have hget' : rereadFailure? [] rule = none := rfl
  have hopen' : openFailure? [] rule = none := rfl
  simp only [fateOf, hget, hopen, hget', hopen']

theorem isTriggered_fateOf : (fateOf injected dedupe xs a time rule).isTriggered =
    ((rereadFailure? injected rule).isNone && isPresent time rule && holdsOn a rule) := by
  unfold fateOf
  cases rereadFailure? injected rule with
  | some failure => cases isCandidate time rule <;> rfl
  | none =>
    cases isPresent time rule <;> cases holdsOn a rule <;>
      cases dedupe && isPending xs a.propertyId rule <;> cases openFailure? injected rule <;> rfl

/-- A rule that triggers is skipped if and only if duplicates are avoided and one
is pending. -/
theorem fateOf_eq_skipped : fateOf injected dedupe xs a time rule = .skipped ↔
    (fateOf injected dedupe xs a time rule).isTriggered = true ∧ dedupe = true ∧
      isPending xs a.propertyId rule = true := by
  rw [isTriggered_fateOf]
  unfold fateOf
  cases rereadFailure? injected rule with
  | some failure => cases isCandidate time rule <;> simp
  | none =>
    cases isPresent time rule <;> cases holdsOn a rule <;> cases dedupe <;>
      cases isPending xs a.propertyId rule <;> cases openFailure? injected rule <;> simp

/-- Where nothing fails, a rule opens a vulnerability if it takes part and triggers, unless that is
a duplicate. -/
theorem fateOf_eq_created : fateOf [] dedupe xs a time rule = .created ↔
    isPresent time rule = true ∧ holdsOn a rule = true ∧
      ¬(dedupe = true ∧ isPending xs a.propertyId rule = true) := by
  simp only [fateOf, show rereadFailure? [] rule = none from rfl,
    show openFailure? [] rule = none from rfl]
  cases isPresent time rule <;> cases holdsOn a rule <;> cases dedupe <;>
    cases isPending xs a.propertyId rule <;> simp

theorem fateOf_of_not_candidate (h : isCandidate time rule = false) :
    fateOf injected dedupe xs a time rule = .passedOver := by
  unfold fateOf
  cases rereadFailure? injected rule <;> simp [isPresent, h]

/-! What is not among the candidates is passed over, so it counts for nothing. -/

theorem filter_candidates {p : Fate → Bool} (hp : p .passedOver = false) (rules : List Rule) :
    (rules.filter (isCandidate time)).filter (fun r => p (fateOf injected dedupe xs a time r)) =
      rules.filter fun r => p (fateOf injected dedupe xs a time r) := by
  rw [List.filter_filter]
  refine List.filter_congr fun r _ => ?_
  cases h : isCandidate time r with
  | true => simp
  | false => simp [fateOf_of_not_candidate h, hp]

theorem countP_candidates {p : Fate → Bool} (hp : p .passedOver = false) (rules : List Rule) :
    (rules.filter (isCandidate time)).countP (fun r => p (fateOf injected dedupe xs a time r)) =
      rules.countP fun r => p (fateOf injected dedupe xs a time r) := by
  rw [List.countP_eq_length_filter, filter_candidates hp, ← List.countP_eq_length_filter]

theorem errors_candidates (rules : List Rule) :
    ((rules.filter (isCandidate time)).filterMap fun r =>
        (fateOf injected dedupe xs a time r).failure?.map (ItemFailure.mk r.id)) =
      rules.filterMap fun r =>
        (fateOf injected dedupe xs a time r).failure?.map (ItemFailure.mk r.id) := by
  rw [List.filterMap_filter]
  congr 1
  funext r
  cases h : isCandidate time r with
  | true => simp
  | false => simp [fateOf_of_not_candidate h, Fate.failure?]

theorem operation_of_failureOf {α : Type} {r : Request α} {failure : StorageFailure}
    (h : Injected.failureOf injected r = some failure) : failure.operation = r.operation := by
  obtain ⟨i, -, rfl⟩ := Option.map_eq_some_iff.mp h
  rfl

/-- A failure after a rule triggered is one to open a vulnerability. -/
theorem failure_fateOf {failure : StorageFailure}
    (h : (fateOf injected dedupe xs a time rule).failure? = some failure) :
    (failure.operation = .createVulnerability ↔
      (fateOf injected dedupe xs a time rule).isTriggered = true) := by
  rw [isTriggered_fateOf]
  unfold fateOf at h
  cases hget : rereadFailure? injected rule with
  | some f =>
    have hop : f.operation = .getRule := operation_of_failureOf hget
    simp only [hget] at h
    split at h <;> cases h
    simp [hop]
  | none =>
    simp only [hget] at h
    split at h
    · cases h
    rename_i hpresent
    split at h
    · cases h
    rename_i hholds
    split at h
    · cases h
    split at h <;> cases h
    rename_i hopen
    have hop : failure.operation = .createVulnerability := operation_of_failureOf hopen
    simp only [Bool.not_eq_true', Bool.not_eq_false] at hpresent hholds
    simp [hop, hpresent, hholds]

end

/-! ## Sums -/

/-- The verdicts on rules one after another; `opened n` is what a rule opens after
`n` others have opened one each. -/
def verdictsFrom (fate : Rule → Fate) (opened : Nat → Rule → Vulnerability) :
    Nat → List Rule → List (Rule × Verdict)
  | _, [] => []
  | n, rule :: rest =>
    (rule, (fate rule).verdict rule (opened n rule)) ::
      verdictsFrom fate opened (if fate rule = .created then n + 1 else n) rest

section
variable {fate : Rule → Fate} {opened : Nat → Rule → Vulnerability} {n : Nat} {rules : List Rule}

theorem verdictsFrom_congr {other : Rule → Fate} (h : ∀ r ∈ rules, fate r = other r) :
    verdictsFrom fate opened n rules = verdictsFrom other opened n rules := by
  induction rules generalizing n with
  | nil => rfl
  | cons rule rest ih =>
    rw [verdictsFrom, verdictsFrom, h rule List.mem_cons_self,
      ih fun r hr => h r (List.mem_cons_of_mem _ hr)]

/-- The same count from another start. -/
theorem verdictsFrom_add (k : Nat) : verdictsFrom fate (fun i => opened (i + k)) n rules =
    verdictsFrom fate opened (n + k) rules := by
  induction rules generalizing n with
  | nil => rfl
  | cons rule rest ih =>
    rw [verdictsFrom, verdictsFrom, ih]
    split <;> simp [Nat.add_right_comm]

theorem triggered_verdictsFrom : (verdictsFrom fate opened n rules).filterMap (·.2.triggered?) =
    (rules.filter fun r => (fate r).isTriggered).map Rule.id := by
  induction rules generalizing n with
  | nil => rfl
  | cons rule rest ih =>
    simp only [verdictsFrom, List.filterMap_cons, ih, List.filter_cons]
    cases fate rule <;> rfl

theorem created_verdictsFrom : (verdictsFrom fate opened n rules).filterMap (·.2.created?) =
    (rules.filter (fate · = .created)).mapIdx fun i r => opened (n + i) r := by
  induction rules generalizing n with
  | nil => rfl
  | cons rule rest ih =>
    simp only [verdictsFrom, List.filterMap_cons, ih, List.filter_cons]
    cases fate rule <;>
      simp [Fate.verdict, Verdict.created?, List.mapIdx_cons, Nat.add_assoc, Nat.add_comm 1]

theorem skipped_verdictsFrom : (verdictsFrom fate opened n rules).countP (·.2.isSkipped) =
    rules.countP (fate · = .skipped) := by
  induction rules generalizing n with
  | nil => rfl
  | cons rule rest ih =>
    simp only [verdictsFrom, List.countP_cons, ih]
    cases fate rule <;> rfl

theorem evaluated_verdictsFrom : (verdictsFrom fate opened n rules).countP (·.2.isEvaluated) =
    rules.countP fun r => (fate r).isEvaluated := by
  induction rules generalizing n with
  | nil => rfl
  | cons rule rest ih =>
    simp only [verdictsFrom, List.countP_cons, ih]
    cases fate rule <;> rfl

theorem errors_verdictsFrom (opened : Nat → Rule → Vulnerability) (n : Nat) :
    ((verdictsFrom fate opened n rules).filterMap fun (rule, verdict) =>
      verdict.failure?.map (ItemFailure.mk rule.id)) =
    rules.filterMap fun r => (fate r).failure?.map (ItemFailure.mk r.id) := by
  induction rules generalizing n with
  | nil => rfl
  | cons rule rest ih =>
    simp only [verdictsFrom, List.filterMap_cons, ih]
    cases fate rule <;> rfl

theorem report_verdictsFrom (assessmentId : Value) :
    report assessmentId (verdictsFrom fate opened n rules) =
      { assessmentId
        evaluated := rules.countP fun r => (fate r).isEvaluated
        triggered := (rules.filter fun r => (fate r).isTriggered).map Rule.id
        created := (rules.filter (fate · = .created)).mapIdx fun i r => opened (n + i) r
        skipped := rules.countP (fate · = .skipped)
        errors := rules.filterMap fun r => (fate r).failure?.map (ItemFailure.mk r.id) } := by
  simp only [report, triggered_verdictsFrom, created_verdictsFrom, skipped_verdictsFrom,
    evaluated_verdictsFrom, ← errors_verdictsFrom opened n]

/-- Every rule that triggered was skipped, opened a vulnerability or failed to. -/
theorem countP_isTriggered (rules : List Rule) :
    rules.countP (fun r => (fate r).isTriggered) =
      rules.countP (fate · = .created) + rules.countP (fate · = .skipped) +
        rules.countP fun r => (fate r).isTriggered && (fate r).failure?.isSome := by
  induction rules with
  | nil => rfl
  | cons rule rest ih =>
    simp only [List.countP_cons, ih]
    cases fate rule <;> simp [Fate.isTriggered, Fate.failure?] <;> omega

end

end PropertyRisk.Engine.Assessments
