import PropertyRisk.Condition
import PropertyRisk.Value.Text
import PropertyRisk.Text.Capital

/-!
# Reading condition trees

A tree is read from a document: an object with `conditions` is a group, any
other object a leaf. Every malformed node is reported, at its path from the
root, before the tree is refused as a whole. Names of joins, operators and kinds
are matched in any case. A list given as a leaf's value is kept as its items'
texts with commas between them.
-/

namespace PropertyRisk

/-- What is wrong with a node itself. -/
inductive NodeFault
  | notObject (kind : String)
  | badJoin
  | conditionsNotList
  | typeMissing
  | unknownOperator (given : Value)
  | unknownKind (given : Value)
  | valueIdsNotList
  | rootNotGroup
deriving DecidableEq, Repr

/-- The way from the root to a node, by places among the conditions. -/
abbrev NodePath := List Nat

structure NodeProblem where
  path : NodePath
  fault : NodeFault
deriving DecidableEq, Repr

namespace NodePath

def text (path : NodePath) : String :=
  path.foldl (fun s i => s ++ ".conditions[" ++ toString i ++ "]") "root"

end NodePath

namespace NodeProblem

def message (p : NodeProblem) : String :=
  let place := NodePath.text p.path
  match p.fault with
  | .notObject kind => place ++ ": expected an object, got " ++ kind
  | .badJoin => place ++ ": join_operator must be AND or OR"
  | .conditionsNotList => place ++ ".conditions: expected a list"
  | .typeMissing => place ++ ": observation_type_id is required"
  | .unknownOperator given => place ++ ": unknown operator " ++ given.shown
  | .unknownKind given => place ++ ": unknown value_type " ++ given.shown
  | .valueIdsNotList => place ++ ".observation_value_ids: expected a list"
  | .rootNotGroup => place ++ ": the top level of a rule must be a condition group"

end NodeProblem

/-- A name given in any case, or its default when the field is missing. -/
def readName (ofName? : String → Option α) (default : α) (given : Option Value) :
    Except Value α :=
  match given with
  | none => .ok default
  | some v =>
    match ofName? (Text.capitals v.plain) with
    | some found => .ok found
    | none => .error v

namespace Leaf

/-- The value ids of a leaf: absent, or a list whose items are taken as text. -/
def readValueIds : Option Value → Except NodeFault (Option (List String))
  | none | some .null => .ok none
  | some (.list items) => .ok (some (items.map Value.plain))
  | some _ => .error .valueIdsNotList

/-- The expected value of a leaf; a list stands for its items' texts. -/
def readExpected : Option Value → Value
  | none => .null
  | some (.list items) => .text (Value.joined "," (items.map Value.plain))
  | some v => v

def read (fields : List (String × Value)) : Except NodeFault Leaf :=
  let typeId := (Value.field? "observation_type_id" fields).getD .null
  if typeId.holds then
    match readName Operator.ofName? .equals (Value.field? "operator" fields) with
    | .error given => .error (.unknownOperator given)
    | .ok operator =>
      match readName ValueKind.ofName? .enum (Value.field? "value_type" fields) with
      | .error given => .error (.unknownKind given)
      | .ok kind =>
        match readValueIds (Value.field? "observation_value_ids" fields) with
        | .error fault => .error fault
        | .ok valueIds =>
          .ok ⟨typeId.plain, operator, kind, readExpected (Value.field? "value" fields), valueIds⟩
  else .error .typeMissing

end Leaf

namespace Condition

/-- What became of a node: the tree read there, if any, and all problems found. -/
abbrev Reading := Option Condition × List NodeProblem

def readLeaf (path : NodePath) (fields : List (String × Value)) : Reading :=
  match Leaf.read fields with
  | .ok l => (some (.leaf l), [])
  | .error fault => (none, [⟨path, fault⟩])

/-- The join of a group; when it has none, `and` stands in beside the problem. -/
def readJoin (path : NodePath) (fields : List (String × Value)) : Join × List NodeProblem :=
  match readName Join.ofName? .and (some ((Value.field? "join_operator" fields).getD (.text ""))) with
  | .ok join => (join, [])
  | .error _ => (.and, [⟨path, .badJoin⟩])

mutual

def readNode (path : NodePath) : Value → Reading
  | .object fields => readObject path fields fields
  | v => (none, [⟨path, .notObject v.kindName⟩])

/-- Read an object by looking for its conditions among the fields left. -/
def readObject (path : NodePath) (all : List (String × Value)) : List (String × Value) → Reading
  | [] => readLeaf path all
  | (key, v) :: rest =>
    if key = "conditions" then readGroup path all v else readObject path all rest

def readGroup (path : NodePath) (all : List (String × Value)) : Value → Reading
  | .list items =>
    let (join, problems) := readJoin path all
    let (conditions, more) := readItems path 0 items
    (some (.group join conditions), problems ++ more)
  | _ =>
    let (join, problems) := readJoin path all
    (some (.group join []), problems ++ [⟨path, .conditionsNotList⟩])

/-- Read the members of a group from the `i`-th on, leaving out those that are
malformed. -/
def readItems (path : NodePath) (i : Nat) : List Value → List Condition × List NodeProblem
  | [] => ([], [])
  | v :: rest =>
    let (found, problems) := readNode (path ++ [i]) v
    let (others, more) := readItems path (i + 1) rest
    (found.toList ++ others, problems ++ more)

end

end Condition

namespace Criteria

/-- Take the tree out of a stored rule document, which holds it under `root`. -/
def unwrap (v : Value) : Value :=
  match v with
  | .object fields =>
    match Value.field? "root" fields, Value.field? "conditions" fields with
    | some root, none => root
    | _, _ => v
  | _ => v

/-- Read a whole tree, or list everything that is wrong with it. -/
def read (v : Value) : Except (List NodeProblem) Criteria :=
  match Condition.readNode [] (unwrap v) with
  | (some (.group join conditions), []) => .ok ⟨join, conditions⟩
  | (some (.group ..), problems) => .error problems
  | (_, problems) => .error (problems ++ [⟨[], .rootNotGroup⟩])

end Criteria

end PropertyRisk
