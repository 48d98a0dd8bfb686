import PropertyRisk.Proofs.Abreast
import PropertyRisk.Proofs.Founded

/-!
# Plays

A play is a run of calls that go by the order of creation: they refer to rules and
assessments by number, so that the same turns can be played in two worlds where the
ids differ. Two plays of the same turns, one with duplicates avoided and the other
without, stay abreast.
-/

namespace PropertyRisk

open Engine
open Engine.Assessments

/-! ## Turns -/

/-- The rule or the assessment with a number, or what some other value names. -/
inductive Reference
  | nth (n : Nat)
  | other (id : Value)

/-- An assessment to process: by id, as it was recorded, or not recorded yet. -/
inductive Subject
  | stored (assessment : Reference)
  | record (n : Nat)
  | draft (d : AssessmentDraft)

/-- A call that goes by numbers. What is processed is processed at a time if one is
given. -/
inductive Deed
  | createRule (input : RuleInput)
  | updateRule (rule : Reference) (patch : RulePatch)
  | deleteRule (rule : Reference)
  | record (propertyId observations assessedAt : Value)
  | process (subject : Subject) (time : Option Value)
  | reevaluate (propertyId : Value)

structure Turn where
  clock : Time.Stamp
  deed : Deed

def Reference.among (ids : List Value) : Reference → Value
  | nth n => ids.getD n .null
  | other id => id

def Subject.among (assessments : List Assessment) : Subject → AssessmentSource
  | stored assessment => .stored (assessment.among (assessments.map Assessment.id))
  | record n => (assessments[n]?.map .record).getD (.stored .null)
  | draft d => .draft d

/-- The call that a deed stands for, where rules and assessments are given in the
order of creation. -/
def Deed.call (rules : List Value) (assessments : List Assessment) : Deed → Call
  | createRule input => .createRule input
  | updateRule rule patch => .updateRule (rule.among rules) patch
  | deleteRule rule => .deleteRule (rule.among rules)
  | record propertyId observations assessedAt =>
    .recordAssessment propertyId observations assessedAt
  | process subject none => .process (subject.among assessments)
  | process subject (some time) => .processAt (subject.among assessments) time
  | reevaluate propertyId => .reevaluateProperty propertyId

/-- Whether a deed judges what may not be comparable. -/
def Deed.isJudging : Deed → Bool
  | updateRule .. | process .. => true
  | _ => false

/-- A world, with the ids of the rules that were created in it, in their order. -/
structure Play (b : Backing) where
  rules : List Value
  world : World b.Store

namespace Play

variable {b : Backing}

/-- The id of the rule that a call has created. -/
def created : Except Error Reply → List Value
  | .ok (.rule r) => [r.id]
  | _ => []

def run (policy : Policy) (p : Play b) (turn : Turn) : Except Error Reply × World b.Store :=
  ((turn.deed.call p.rules (b.view.records p.world.store).assessments.records).run policy
    b.storage).run { p.world with clock := turn.clock }

def step (policy : Policy) (p : Play b) (turn : Turn) : Play b where
  rules := p.rules ++ created (p.run policy turn).1
  world := (p.run policy turn).2

def after (policy : Policy) (p : Play b) (turns : List Turn) : Play b := turns.foldl (step policy) p

/-- Whether a rule has an unresolved vulnerability of a property. -/
def Unresolved (p : Play b) (n : Nat) (propertyId : Value) : Prop :=
  ∃ x ∈ b.vulnerabilities p.world.store, p.rules[n]? = some x.ruleId ∧
    x.propertyId = propertyId ∧ x.isUnresolved = .ok true

/-- Whether the call of a turn ends on numbers too large to be compared. -/
def Overflows (policy : Policy) (p : Play b) (turn : Turn) : Prop :=
  turn.deed.isJudging = true ∧ (p.run policy turn).1 = .error (.fault .tooLarge)

/-- Whether the call of a turn removes some of what a rule has found on a property,
and leaves some of it. -/
def Splits (policy : Policy) (p : Play b) (turn : Turn) : Prop :=
  ∃ x ∈ b.vulnerabilities p.world.store,
    x ∉ b.vulnerabilities (p.step policy turn).world.store ∧
    ∃ y ∈ b.vulnerabilities (p.step policy turn).world.store, y.ruleId = x.ruleId ∧
      x.propertyId.Matches y.propertyId

/-- Whether something never happens while turns are played. -/
def Never (policy : Policy) (C : Play b → Turn → Prop) : Play b → List Turn → Prop
  | _, [] => True
  | p, turn :: rest => ¬C p turn ∧ Never policy C (p.step policy turn) rest

/-! All this can be told of a given play. -/

section

variable (p : Play b) (policy : Policy) (turn : Turn) (n : Nat) (y : Value)

instance (x y : Value) : Decidable (x.Matches y) := inferInstanceAs (Decidable (_ ∨ _))

instance : Decidable (p.Unresolved n y) :=
  inferInstanceAs (Decidable (∃ x ∈ b.vulnerabilities p.world.store, _ ∧ _))

instance : Decidable (p.Overflows policy turn) := inferInstanceAs (Decidable (_ ∧ _))

instance : Decidable (p.Splits policy turn) :=
  inferInstanceAs (Decidable (∃ x ∈ b.vulnerabilities p.world.store, _ ∧
    ∃ y ∈ b.vulnerabilities (p.step policy turn).world.store, _ ∧ _))

instance decidableNever (C : Play b → Turn → Prop) [∀ p turn, Decidable (C p turn)] :
    (p : Play b) → (turns : List Turn) → Decidable (Never policy C p turns)
  | _, [] => inferInstanceAs (Decidable True)
  | p, turn :: rest =>
    have := decidableNever C (p.step policy turn) rest
    inferInstanceAs (Decidable (_ ∧ Never policy C (p.step policy turn) rest))

end

end Play

/-! ## Turns that fit -/

section

variable {S : Type} (v : View S) (idOf : Nat → String)

/-- What is referred to by another value than its id has none of the ids that are
handed out. -/
def Reference.Fits : Reference → Prop
  | nth _ => True
  | other id => v.Stray idOf id

def Subject.Fits : Subject → Prop
  | stored assessment => assessment.Fits v idOf
  | record _ => True
  | draft d => v.Noted d.observations

def Deed.Fits : Deed → Prop
  | updateRule rule _ | deleteRule rule => rule.Fits v idOf
  | process subject _ => subject.Fits v idOf
  | _ => True

end

theorem Backing.stray_null (b : Backing) (idOf : Nat → String) : b.view.Stray idOf .null := by
  cases b <;> exact fun operation n h => by cases h

end PropertyRisk
