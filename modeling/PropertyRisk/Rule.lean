import PropertyRisk.Error
import PropertyRisk.Time.Reading

/-!
# Rules

A rule is a named condition tree with a window of time in which it is effective,
from its start on and up to, not including, its end. Its fields hold what they
were given: mostly texts, and a flag, but a storage may keep any value.

`version` starts at 1 and grows by one with every change, so a change can tell
whether the rule is still the one that was read.
-/

namespace PropertyRisk

/-- Read a timestamp given as text. -/
def requireStamp (s : String) : Except Invalid Time.Stamp :=
  match Time.Stamp.read? s with
  | some stamp => .ok stamp
  | none => .error (.timestamp s)

/-- Read a timestamp given as any value; only a text can hold one. -/
def requireStampValue : Value → Except Error Time.Stamp
  | .text s =>
    match requireStamp s with
    | .ok stamp => .ok stamp
    | .error e => .error (.invalid e)
  | _ => .error (.fault .notText)

/-- When a rule is effective: since `start`, if there is one, and before `stop`,
unless that is null. -/
structure Window where
  start : Value
  stop : Value
deriving DecidableEq, Repr

namespace Window

/-- Whether the start, if given, is not after an instant. -/
def hasBegun (w : Window) (t : Time.Stamp) : Except Error Bool :=
  if w.start.holds then
    match requireStampValue w.start with
    | .ok start => .ok (start.le t)
    | .error e => .error e
  else .ok true

/-- Whether the end, if there is one, is not after an instant. -/
def hasEnded (w : Window) (t : Time.Stamp) : Except Error Bool :=
  if w.stop = .null then .ok false
  else
    match requireStampValue w.stop with
    | .ok stop => .ok (stop.le t)
    | .error e => .error e

/-- Whether an instant lies in the window. The end is not looked at before the
start has passed. -/
def contains (w : Window) (t : Time.Stamp) : Except Error Bool :=
  match w.hasBegun t with
  | .ok true =>
    match w.hasEnded t with
    | .ok ended => .ok (!ended)
    | .error e => .error e
  | other => other

/-- As `contains`, at an instant given as any value. -/
def containsValue (w : Window) (t : Value) : Except Error Bool :=
  match requireStampValue t with
  | .error e => .error e
  | .ok stamp => w.contains stamp

end Window

structure Rule where
  id : Value
  name : Value
  description : Value
  tree : Criteria
  effectiveFrom : Value
  effectiveTo : Value
  isActive : Value
  version : Int
  createdAt : Value
  updatedAt : String
deriving DecidableEq, Repr

/-- A rule as it is handed to the store, which adds what it owns. A start that
does not hold stands for the time of writing. -/
structure RuleDraft where
  name : Value
  description : Value
  tree : Criteria
  effectiveFrom : Value := .text ""
  effectiveTo : Value := .null
  isActive : Value := .bool true
deriving DecidableEq, Repr

def Rule.window (r : Rule) : Window := ⟨r.effectiveFrom, r.effectiveTo⟩

/-- A tree that was read already, or the document it is to be read from. -/
inductive TreeSource
  | parsed (tree : Criteria)
  | document (v : Value)
deriving DecidableEq, Repr

def TreeSource.read : TreeSource → Except (List NodeProblem) Criteria
  | .parsed tree => .ok tree
  | .document v => Criteria.read v

/-- What a change sets in a stored rule; `others` are field names that no
change may set. -/
structure RuleChange where
  name : Option Value := none
  description : Option Value := none
  tree : Option TreeSource := none
  effectiveFrom : Option Value := none
  effectiveTo : Option Value := none
  isActive : Option Value := none
  id : Option Value := none
  createdAt : Option Value := none
  others : List String := []
deriving DecidableEq, Repr

namespace RuleChange

def fieldNames : List String :=
  ["name", "description", "functional_rule", "effective_from", "effective_to", "is_active", "id",
    "created_at"]

/-- The change that fields ask for. -/
def ofFields (fields : List (String × Value)) : RuleChange where
  name := Value.field? "name" fields
  description := Value.field? "description" fields
  tree := (Value.field? "functional_rule" fields).map .document
  effectiveFrom := Value.field? "effective_from" fields
  effectiveTo := Value.field? "effective_to" fields
  isActive := Value.field? "is_active" fields
  id := Value.field? "id" fields
  createdAt := Value.field? "created_at" fields
  others := (fields.map (·.1)).filter (!fieldNames.contains ·)

end RuleChange

/-- The rule after a change whose tree, if any, has been read. -/
def Rule.changed (r : Rule) (change : RuleChange) (tree : Option Criteria) (now : String) : Rule where
  id := change.id.getD r.id
  name := change.name.getD r.name
  description := change.description.getD r.description
  tree := tree.getD r.tree
  effectiveFrom := change.effectiveFrom.getD r.effectiveFrom
  effectiveTo := change.effectiveTo.getD r.effectiveTo
  isActive := change.isActive.getD r.isActive
  version := r.version + 1
  createdAt := change.createdAt.getD r.createdAt
  updatedAt := now

end PropertyRisk
