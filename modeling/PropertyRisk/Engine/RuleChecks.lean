import PropertyRisk.Engine.Judging

/-!
# Checks of rules

A rule is stored only when its name, description and window are in order and its
tree refers to catalog records alone, each value to one of its leaf's type.
-/

namespace PropertyRisk.Engine.Rules

/-- The value ids that leaves name. -/
def valueIdsOf (leaves : List Leaf) : List String :=
  leaves.flatMap fun l => l.valueIds.getD []

/-- Whether a value with an owner belongs to another type. No owner is no other. -/
def isForeign (owner : Value) (typeId : String) : Bool :=
  !(owner.equal .null || owner.equal (.text typeId))

/-- The problem, if any, of each value id of a leaf that belongs to another type. -/
def foreignValues (found : List ObservationValue) (leaves : List Leaf) : List RuleProblem :=
  leaves.flatMap fun l => (l.valueIds.getD []).filterMap fun id =>
    match found.find? (·.id = .text id) with
    | none => none
    | some v => if isForeign v.typeId l.typeId then some (.foreignValue id l.typeId) else none

/-- The ids asked for that were not found. -/
def missing (asked : List String) (found : List Value) : List String :=
  asked.filter fun id => !found.contains (.text id)

def missingTypes (ids : List String) : List RuleProblem :=
  if ids.isEmpty then [] else [.unknownTypes ids]

def missingValues (ids : List String) : List RuleProblem :=
  if ids.isEmpty then [] else [.unknownValues ids]

/-- The problems of the type ids that leaves name. -/
def typeProblems (g : Storage σ) (leaves : List Leaf) : Op σ (List RuleProblem) := do
  let ids := distinctSorted (leaves.map Leaf.typeId)
  if ids.isEmpty then return []
  else
    let found ← g.perform (.getObservationTypes (ids.map .text))
    return missingTypes (missing ids (found.map ObservationType.id))

/-- The problems of the value ids that leaves name. -/
def valueProblems (g : Storage σ) (leaves : List Leaf) : Op σ (List RuleProblem) := do
  let ids := distinctSorted (valueIdsOf leaves)
  if ids.isEmpty then return []
  else
    let found ← g.perform (.getObservationValues (ids.map .text))
    return missingValues (missing ids (found.map ObservationValue.id)) ++
      foreignValues found leaves

/-- Read a tree and check everything in it that refers to the catalog. -/
def checkTree (g : Storage σ) (document : Value) : Op σ Criteria := do
  let tree ← Op.orElse (.invalid <| .tree ·) (Criteria.read document)
  let types ← typeProblems g tree.leaves
  let values ← valueProblems g tree.leaves
  match types ++ values with
  | [] => return tree
  | problems => throw (.invalid (.rule problems))

def isBlankText (s : String) : Bool := (Text.trimBy Text.isBlank s.toList).isEmpty

/-- The trimmed text of a required field, or `none` when it is missing or blank. -/
def requiredText (v : Value) : Except Error (Option String) :=
  if v.holds then
    match v with
    | .text s => .ok (if isBlankText s then none else some (Text.trim s))
    | _ => .error (.fault .notText)
  else .ok none

/-- Read a timestamp, with an unreadable text as a problem. -/
def stampOrProblem (v : Value) : Except Error (Except RuleProblem Time.Stamp) :=
  match v with
  | .text s =>
    match Time.Stamp.read? s with
    | some stamp => .ok (.ok stamp)
    | none => .ok (.error (.timestamp s))
  | _ => .error (.fault .notText)

/-- Bring a window into its written form. An end that is empty or absent leaves
the window open; any other must be later than the start. -/
def checkWindow (start stop : Value) : Except Error (Except RuleProblem Window) :=
  match stampOrProblem start with
  | .error e => .error e
  | .ok (.error p) => .ok (.error p)
  | .ok (.ok first) =>
    if stop.holds then
      match stampOrProblem stop with
      | .error e => .error e
      | .ok (.error p) => .ok (.error p)
      | .ok (.ok last) =>
        if last.le first then .ok (.error .windowReversed)
        else .ok (.ok ⟨.text first.text, .text last.text⟩)
    else .ok (.ok ⟨.text first.text, .null⟩)

def problemOf : Except RuleProblem α → List RuleProblem
  | .ok _ => []
  | .error p => [p]

end PropertyRisk.Engine.Rules
