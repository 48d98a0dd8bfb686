import PropertyRisk.Engine.RuleChecks
import PropertyRisk.Value.Key

/-!
# Rules and their changes

A change of a rule first judges again, under the tree it leads to, everything
the rule has found, and deletes what no longer triggers. The rule is written
last, and only if it still is the one that was read.
-/

namespace PropertyRisk.Engine

/-- What a caller gives for a new rule. -/
structure RuleInput where
  name : Value
  description : Value
  tree : Value
  effectiveFrom : Value := .null
  effectiveTo : Value := .null
  isActive : Value := .bool true

/-- What a caller gives to change a rule: values for some fields, and the names
of fields that cannot be changed. -/
structure RulePatch where
  name : Option Value := none
  description : Option Value := none
  tree : Option Value := none
  effectiveFrom : Option Value := none
  effectiveTo : Option Value := none
  isActive : Option Value := none
  unknown : List String := []

namespace RulePatch

def fieldNames : List String :=
  ["name", "description", "functional_rule", "effective_from", "effective_to", "is_active"]

/-- The change that an object asks for. -/
def ofFields (fields : List (String × Value)) : RulePatch where
  name := Value.field? "name" fields
  description := Value.field? "description" fields
  tree := Value.field? "functional_rule" fields
  effectiveFrom := Value.field? "effective_from" fields
  effectiveTo := Value.field? "effective_to" fields
  isActive := Value.field? "is_active" fields
  unknown := (fields.map (·.1)).filter (!fieldNames.contains ·)

/-- The names in a list that are no texts, or no fields of a patch. -/
def unknownItems (items : List Value) : List Value :=
  items.filter fun v =>
    match v with
    | .text name => !fieldNames.contains name
    | _ => true

/-- A patch that lists names only: it is empty, or it names something unknown, or
it is of no use. -/
def ofNames (items : List Value) : Except Error RulePatch :=
  match unknownItems items with
  | [] => if items.isEmpty then .ok {} else .error (.fault .wrongContent)
  | unknown =>
    match unknown.mapM textOf? with
    | some names => .ok { unknown := names }
    | none => .error (.fault .wrongShape)
where
  textOf? : Value → Option String
    | .text s => some s
    | _ => none

/-- The patch that a caller gives as a value: an object with the fields, or what
can be gone through for their names. -/
def read : Value → Except Error RulePatch
  | .object fields => .ok (ofFields fields)
  | v =>
    match itemsOf v with
    | .error e => .error e
    | .ok items => ofNames items

end RulePatch

/-- A changed rule, and what became of the vulnerabilities it had found. -/
structure RuleUpdate where
  rule : Rule
  removed : Nat
  errors : List ItemFailure
deriving DecidableEq, Repr

namespace Rules

def get (g : Storage σ) (id : Value) : Op σ Rule := do
  match ← g.perform (.getRule id) with
  | some rule => return rule
  | none => throw (.notFound .rule id)

def list (g : Storage σ) : Op σ (List Rule) := g.perform .listRules

def create (g : Storage σ) (input : RuleInput) : Op σ Rule := do
  let name ← Op.ofExcept (requiredText input.name)
  let description ← Op.ofExcept (requiredText input.description)
  let start := input.effectiveFrom.orElse (.text (← g.now))
  let window ← Op.ofExcept (checkWindow start input.effectiveTo)
  match name, description, window with
  | some name, some description, .ok window =>
    let tree ← checkTree g input.tree
    g.perform <| .createRule
      { name := .text name, description := .text description, tree
        effectiveFrom := window.start, effectiveTo := window.stop, isActive := input.isActive }
  | _, _, _ =>
    throw <| .invalid <| .rule <|
      (if name.isNone then [.nameMissing] else []) ++
      (if description.isNone then [.descriptionMissing] else []) ++ problemOf window

/-- Whether a label is empty or blank. -/
def isEmptyLabel (v : Value) : Bool := !v.holds || isBlankText v.plain

def labelProblems (field : String) (given : Option Value) : List RuleProblem :=
  match given with
  | some v => if isEmptyLabel v then [.blank field] else []
  | none => []

/-- The truth value that a patch sets, if it sets one. -/
def flagOf : Option Value → Except RuleProblem (Option Bool)
  | none => .ok none
  | some (.bool b) => .ok (some b)
  | some _ => .error .activeNotBoolean

/-- The problems that a patch has whatever the rule. -/
def patchProblems (patch : RulePatch) : List RuleProblem :=
  labelProblems "name" patch.name ++ labelProblems "description" patch.description ++
    problemOf (flagOf patch.isActive) ++
    (if patch.tree = some .null then [.treeNull] else [])

/-- The window that a patch leads to, if it sets an end of it: the other end is
the rule's own. -/
def patchedWindow (current : Rule) (patch : RulePatch) :
    Except Error (Option (Except RuleProblem Window)) :=
  if patch.effectiveFrom.isSome || patch.effectiveTo.isSome then
    let own := current.effectiveFrom
    let start := (patch.effectiveFrom.getD own).orElse own
    let stop := patch.effectiveTo.getD current.effectiveTo
    match checkWindow start stop with
    | .error e => .error e
    | .ok window => .ok (some window)
  else .ok none

/-- What becomes of a vulnerability when its rule changes. -/
inductive Outcome
  | kept
  | removed
  | failed (failure : StorageFailure)
deriving DecidableEq, Repr

/-- Delete a vulnerability that a tree does not trigger on any more. -/
def discard (g : Storage σ) (v : Vulnerability) : Op σ Outcome := do
  match ← Op.attempt (g.perform (.deleteVulnerability v.id)) with
  | .error failure => return .failed failure
  | .ok true => return .removed
  | .ok false => return .kept

/-- Judge a vulnerability under a tree; without observations it stays. -/
def reconcile (g : Storage σ) (tree : Criteria) (v : Vulnerability) : Op σ Outcome := do
  match ← Op.attempt (observationsOf g v.assessmentId) with
  | .error failure => return .failed failure
  | .ok observations =>
    if observations.isEmpty then return .kept
    else if ← judge tree observations then return .kept
    else discard g v

def reconcileAll (g : Storage σ) (tree : Criteria) :
    List Vulnerability → Op σ (List (Vulnerability × Outcome))
  | [] => return []
  | v :: rest => do
    let outcome ← reconcile g tree v
    let others ← reconcileAll g tree rest
    return (v, outcome) :: others

def removals (outcomes : List (Vulnerability × Outcome)) : Nat :=
  outcomes.countP (·.2 = .removed)

def failures (outcomes : List (Vulnerability × Outcome)) : List ItemFailure :=
  outcomes.filterMap fun (v, outcome) =>
    match outcome with
    | .failed failure => some ⟨v.id, failure⟩
    | _ => none

/-- The change that a checked patch asks of the store. -/
def changeOf (patch : RulePatch) (window : Option Window) (tree : Option Criteria)
    (isActive : Option Bool) : RuleChange where
  name := patch.name
  description := patch.description
  tree := tree.map .parsed
  effectiveFrom := window.map Window.start
  effectiveTo := window.map Window.stop
  isActive := isActive.map .bool

/-- Apply a checked change to a rule that was read. -/
def apply (g : Storage σ) (current : Rule) (id : Value) (patch : RulePatch)
    (window : Option Window) (isActive : Option Bool) : Op σ RuleUpdate := do
  let tree ← patch.tree.mapM (checkTree g)
  let vulnerabilities ← g.perform (.listVulnerabilitiesForRule id)
  let outcomes ← reconcileAll g (tree.getD current.tree) vulnerabilities
  match ← g.perform (.updateRule id (changeOf patch window tree isActive)
      (some (.int current.version))) with
  | none => throw (.invalid (.modifiedConcurrently id))
  | some rule => return ⟨rule, removals outcomes, failures outcomes⟩

/-- Changes of one rule wait for each other, so its id must be a key. -/
def requireKey (id : Value) : Except Error Unit :=
  match id.key? with
  | some _ => .ok ()
  | none => .error (.fault .wrongShape)

def update (g : Storage σ) (id : Value) (patch : RulePatch) : Op σ RuleUpdate := do
  if !patch.unknown.isEmpty then
    throw (.invalid (.unknownFields (distinctSorted patch.unknown)))
  else
    Op.ofExcept (requireKey id)
    let current ← get g id
    let window ← Op.ofExcept (patchedWindow current patch)
    match patchProblems patch, window, flagOf patch.isActive with
    | [], none, .ok isActive => apply g current id patch none isActive
    | [], some (.ok window), .ok isActive => apply g current id patch (some window) isActive
    | problems, window, _ =>
      throw <| .invalid <| .ruleChange (problems ++ (window.map problemOf).getD [])

/-- Delete a rule; what it found stays, under a rule that is gone. -/
def delete (g : Storage σ) (id : Value) : Op σ Unit := do
  Op.ofExcept (requireKey id)
  let _ ← g.perform (.listVulnerabilitiesForRule id)
  if ← g.perform (.deleteRule id) then return ()
  else throw (.notFound .rule id)

end Rules

end PropertyRisk.Engine
