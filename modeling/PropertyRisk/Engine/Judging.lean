import PropertyRisk.Storage
import PropertyRisk.Condition.Evaluation

/-!
# Judging stored records

Rule edits, previews, processing and re-evaluation all judge a tree on the
observations that an assessment recorded. An assessment that is gone has no
observations, and what was found on it cannot be judged again.
-/

namespace PropertyRisk.Engine

/-- Judge a tree; a number too large for comparison ends the call. -/
def judge (tree : Criteria) (observations : List Observation) : Op σ Bool :=
  Op.orElse (fun _ => .fault .tooLarge) (tree.evaluate observations)

/-- The observations of the assessment that a vulnerability was found on. -/
def observationsOf (g : Storage σ) (assessmentId : Value) : Op σ (List Observation) := do
  match ← g.perform (.getAssessment assessmentId) with
  | some a => return a.observations
  | none => return []

/-- One item of a batch whose storage failed. -/
structure ItemFailure where
  itemId : Value
  failure : StorageFailure
deriving DecidableEq, Repr

/-- The items of a value that can be gone through: those of a list, the keys of
an object, the characters of a text. -/
def itemsOf : Value → Except Error (List Value)
  | .list items => .ok items
  | .object fields => .ok (fields.map fun (key, _) => .text key)
  | .text s => .ok (s.toList.map fun c => .text (String.ofList [c]))
  | _ => .error (.fault .wrongShape)

/-- Read observations one by one; the first malformed one ends the reading. -/
def readAll : List Value → Except Error (List Observation)
  | [] => .ok []
  | v :: rest =>
    match Observation.ofValue? v with
    | none => .error (.invalid .observation)
    | some o =>
      match readAll rest with
      | .error e => .error e
      | .ok others => .ok (o :: others)

/-- The observations that a value lists. -/
def readObservationList (v : Value) : Except Error (List Observation) :=
  match itemsOf v with
  | .error e => .error e
  | .ok items => readAll items

/-- The different texts of a list, in order. -/
def distinctSorted (texts : List String) : List String :=
  (texts.mergeSort fun a b => decide (a ≤ b)).eraseDups

end PropertyRisk.Engine
