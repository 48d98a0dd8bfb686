import PropertyRisk.Condition.Reading
import PropertyRisk.Condition.Writing
import PropertyRisk.Engine.Judging
import PropertyRisk.Store.Row
import Mathlib.Data.List.Basic

/-!
# Documents read back

A tree that was read from a document, and an observation that was, read back
from the document they are written as: what tables keep is what they were given.
What can be read back names its types by texts that are not empty, and a leaf
holds no list.
-/

namespace PropertyRisk

/-! ## Texts of values that hold -/

namespace Number

theorem layOut_ne_nil (layout : Layout) (digits : List Char) (leading : Int) :
    layOut layout digits leading ≠ [] := by
  unfold layOut
  split
  · split <;> simp
  · simp

theorem text_ne_empty (x : Binary64) : Number.text x ≠ "" := by
  have ofList_ne (cs : List Char) (h : cs ≠ []) : String.ofList cs ≠ "" := fun he =>
    h (by simpa using congrArg String.toList he)
  unfold Number.text
  split
  · decide
  · split <;> decide
  · refine ofList_ne _ ?_
    split
    · simp
    · split
      · simp
      · exact layOut_ne_nil _ _ _

end Number

namespace Value

theorem toString_int_ne_empty (n : Int) : toString n ≠ "" := by
  rw [Int.toString_eq_repr, Int.repr_eq_if]
  split <;> simp

theorem plain_ne_empty {v : Value} (h : v.holds = true) : v.plain ≠ "" := by
  cases v with
  | null => simp [holds] at h
  | bool b => cases b <;> decide
  | int n => exact toString_int_ne_empty n
  | float x => exact Number.text_ne_empty x
  | text s => simpa [holds] using h
  | list items => simp [plain, shown]
  | object fields => simp [plain, shown]

end Value

/-! ## Leaves -/

theorem readName_name {ofName? : String → Option α} {name : α → String} {default : α} {a : α}
    (hc : Text.capitals (name a) = name a) (hn : ofName? (name a) = some a) :
    readName ofName? default (some (.text (name a))) = .ok a := by
  simp [readName, hc, hn]

theorem Operator.capitals_name (op : Operator) : Text.capitals op.name = op.name := by
  cases op <;> decide

theorem ValueKind.capitals_name (k : ValueKind) : Text.capitals k.name = k.name := by
  cases k <;> decide

theorem Join.capitals_name (j : Join) : Text.capitals j.name = j.name := by
  cases j <;> decide

/-- What reading a leaf makes sure of. -/
structure Leaf.Readable (l : Leaf) : Prop where
  typeId_ne : l.typeId ≠ ""
  value_ne : ∀ items, l.value ≠ .list items

namespace Leaf

theorem readable_of_read {fields : List (String × Value)} {l : Leaf} (h : read fields = .ok l) :
    l.Readable := by
  simp only [read] at h
  split at h
  · rename_i hold
    repeat' split at h
    all_goals cases h
    refine ⟨Value.plain_ne_empty hold, fun items => ?_⟩
    unfold readExpected
    split <;> simp_all
  · cases h

/-- The fields of a leaf's document. -/
def fields (l : Leaf) : List (String × Value) :=
  [("observation_type_id", .text l.typeId), ("operator", .text l.operator.name),
    ("value_type", .text l.kind.name)] ++
  (if l.value = .null then [] else [("value", l.value)]) ++
  l.valueIds.toList.map fun ids => ("observation_value_ids", .list (ids.map .text))

theorem toValue_eq (l : Leaf) : l.toValue = .object l.fields := rfl

theorem name_ne_conditions (l : Leaf) : ∀ p ∈ l.fields, p.1 ≠ "conditions" := by
  have h : (l.fields.map (·.1)).all (· ≠ "conditions") = true := by
    rcases l with ⟨_, _, _, v, _ | ids⟩ <;> by_cases hv : v = .null <;>
      simp [fields, hv]
  intro p hp
  simpa using List.all_eq_true.mp h p.1 (List.mem_map.mpr ⟨p, hp, rfl⟩)

theorem field?_value (l : Leaf) :
    Value.field? "value" l.fields = if l.value = .null then none else some l.value := by
  rcases l with ⟨_, _, _, v, _ | ids⟩ <;> by_cases h : v = .null <;>
    simp [fields, Value.field?, h]

theorem field?_valueIds (l : Leaf) : Value.field? "observation_value_ids" l.fields =
    l.valueIds.map fun ids => .list (ids.map .text) := by
  rcases l with ⟨_, _, _, v, _ | ids⟩ <;> by_cases h : v = .null <;>
    simp [fields, Value.field?, h]

theorem readExpected_value {l : Leaf} (h : l.Readable) :
    readExpected (Value.field? "value" l.fields) = l.value := by
  rw [field?_value]
  split
  · simp_all [readExpected]
  · unfold readExpected
    split
    · simp_all
    · rename_i items hi
      exact absurd (Option.some.inj hi) (h.value_ne items)
    · simp_all

theorem readValueIds_fields (l : Leaf) :
    readValueIds (Value.field? "observation_value_ids" l.fields) = .ok l.valueIds := by
  rw [field?_valueIds]
  cases h : l.valueIds with
  | none => rfl
  | some ids => simp [readValueIds, Function.comp_def]

theorem read_fields {l : Leaf} (h : l.Readable) : read l.fields = .ok l := by
  have htype : Value.field? "observation_type_id" l.fields = some (.text l.typeId) := rfl
  have hop : Value.field? "operator" l.fields = some (.text l.operator.name) := rfl
  have hkind : Value.field? "value_type" l.fields = some (.text l.kind.name) := rfl
  have hold : (Value.text l.typeId).holds = true := by simpa [Value.holds] using h.typeId_ne
  simp only [read, htype, hop, hkind, Option.getD_some, hold, if_true, Value.plain_text,
    readName_name (Operator.capitals_name _) (Operator.ofName?_name _),
    readName_name (ValueKind.capitals_name _) (ValueKind.ofName?_name _),
    readValueIds_fields, readExpected_value h]

end Leaf

/-! ## Trees -/

namespace Condition

theorem readObject_of_no_conditions (path : NodePath) (all : List (String × Value)) :
    ∀ fields : List (String × Value), (∀ p ∈ fields, p.1 ≠ "conditions") →
      readObject path all fields = readLeaf path all
  | [], _ => rfl
  | (key, v) :: rest, h => by
    rw [readObject, if_neg (h _ List.mem_cons_self)]
    exact readObject_of_no_conditions path all rest fun p hp => h p (List.mem_cons_of_mem _ hp)

theorem readNode_leaf (path : NodePath) {l : Leaf} (h : l.Readable) :
    readNode path l.toValue = (some (.leaf l), []) := by
  rw [Leaf.toValue_eq, readNode, readObject_of_no_conditions path _ _ l.name_ne_conditions,
    readLeaf, Leaf.read_fields h]

mutual

/-- Every leaf can be read back. -/
def Readable : Condition → Prop
  | .leaf l => l.Readable
  | .group _ conditions => ReadableAll conditions

def ReadableAll : List Condition → Prop
  | [] => True
  | c :: rest => Readable c ∧ ReadableAll rest

end

mutual

theorem readNode_toValue (path : NodePath) :
    ∀ c : Condition, c.Readable → readNode path c.toValue = (some c, [])
  | .leaf l, h => readNode_leaf path h
  | .group join conditions, h => by
    have hj : readJoin path [("join_operator", .text join.name),
        ("conditions", .list (toValues conditions))] = (join, []) := by
      simp [readJoin, Value.field?,
        readName_name (Join.capitals_name join) (Join.ofName?_name join)]
    rw [toValue, readNode, readObject, if_neg (by decide), readObject, if_pos rfl, readGroup, hj,
      readItems_toValues path 0 conditions h]
    rfl

theorem readItems_toValues (path : NodePath) (i : Nat) :
    ∀ cs : List Condition, ReadableAll cs → readItems path i (toValues cs) = (cs, [])
  | [], _ => rfl
  | c :: rest, h => by
    rw [toValues, readItems, readNode_toValue _ c h.1, readItems_toValues path (i + 1) rest h.2]
    rfl

end

mutual

theorem readable_of_readNode (path : NodePath) :
    ∀ (v : Value) (c : Condition), (readNode path v).1 = some c → c.Readable
  | .object fields, c, h => by
    rw [readNode] at h
    exact readable_of_readObject path fields fields c h
  | .null, _, h | .bool _, _, h | .int _, _, h | .float _, _, h | .text _, _, h
  | .list _, _, h => by simp [readNode] at h

theorem readable_of_readObject (path : NodePath) (all : List (String × Value)) :
    ∀ (fields : List (String × Value)) (c : Condition),
      (readObject path all fields).1 = some c → c.Readable
  | [], c, h => by
    rw [readObject, readLeaf] at h
    split at h
    · rename_i hl
      cases h
      exact Leaf.readable_of_read hl
    · cases h
  | (key, v) :: rest, c, h => by
    rw [readObject] at h
    split at h
    · exact readable_of_readGroup path all v c h
    · exact readable_of_readObject path all rest c h

theorem readable_of_readGroup (path : NodePath) (all : List (String × Value)) :
    ∀ (v : Value) (c : Condition), (readGroup path all v).1 = some c → c.Readable
  | .list items, c, h => by
    rw [readGroup] at h
    cases h
    exact readable_of_readItems path 0 items
  | .null, _, h | .bool _, _, h | .int _, _, h | .float _, _, h | .text _, _, h
  | .object _, _, h => by
    simp only [readGroup] at h
    cases h
    trivial

theorem readable_of_readItems (path : NodePath) (i : Nat) :
    ∀ items : List Value, ReadableAll (readItems path i items).1
  | [] => trivial
  | v :: rest => by
    rw [readItems]
    have hv := readable_of_readNode (path ++ [i]) v
    have hrest := readable_of_readItems path (i + 1) rest
    cases hc : (readNode (path ++ [i]) v).1 with
    | none => simpa [hc] using hrest
    | some c =>
      show ReadableAll ((readNode (path ++ [i]) v).1.toList ++ _)
      rw [hc]
      exact ⟨hv c hc, hrest⟩

end

end Condition

namespace Criteria

/-- The tree reads back from its document. -/
def Readable (c : Criteria) : Prop := Condition.ReadableAll c.conditions

theorem readable_of_read {v : Value} {c : Criteria} (h : read v = .ok c) : c.Readable := by
  unfold read at h
  split at h
  · rename_i hr
    cases h
    exact Condition.readable_of_readNode [] (unwrap v) _ (congrArg Prod.fst hr)
  · cases h
  · cases h

theorem read_toValue {c : Criteria} (h : c.Readable) : read c.toValue = .ok c := by
  have hu : unwrap c.toValue = c.toCondition.toValue := by
    simp [toValue, toCondition, Condition.toValue, unwrap, Value.field?]
  rw [read, hu, Condition.readNode_toValue [] c.toCondition h]
  rfl

end Criteria

/-! ## Observations -/

namespace Observation

theorem typeId_ne_of_ofValue? {v : Value} {o : Observation} (h : ofValue? v = some o) :
    o.typeId ≠ "" := by
  unfold ofValue? at h
  split at h
  · simp only at h
    split at h
    · rename_i hold
      cases h
      exact Value.plain_ne_empty hold
    · cases h
  · cases h

theorem ofValue?_toValue {o : Observation} (h : o.typeId ≠ "") : ofValue? o.toValue = some o := by
  obtain ⟨typeId, valueId, value⟩ := o
  have hold : (Value.text typeId).holds = true := by simpa [Value.holds] using h
  cases valueId <;> by_cases hv : value = .null <;>
    simp [ofValue?, toValue, Value.field?, hold, hv]

end Observation

theorem readObservations_toValue {os : List Observation} (h : ∀ o ∈ os, o.typeId ≠ "") :
    readObservations (os.map Observation.toValue) = .ok os := by
  induction os with
  | nil => rfl
  | cons o rest ih =>
    have ho := Observation.ofValue?_toValue (h o List.mem_cons_self)
    have hrest := ih fun o' ho' => h o' (List.mem_cons_of_mem _ ho')
    simp only [readObservations] at hrest ⊢
    simp [ho, hrest, bind, Except.bind, pure, Except.pure]

namespace Engine

theorem typeId_ne_of_readAll {items : List Value} {os : List Observation}
    (h : readAll items = .ok os) : ∀ o ∈ os, o.typeId ≠ "" := by
  induction items generalizing os with
  | nil =>
    cases h
    nofun
  | cons v rest ih =>
    simp only [readAll] at h
    split at h
    · cases h
    · rename_i o ho
      split at h
      · cases h
      · rename_i others hr
        cases h
        intro o' ho'
        rcases List.mem_cons.mp ho' with rfl | ho'
        · exact Observation.typeId_ne_of_ofValue? ho
        · exact ih hr o' ho'

theorem typeId_ne_of_readObservationList {v : Value} {os : List Observation}
    (h : readObservationList v = .ok os) : ∀ o ∈ os, o.typeId ≠ "" := by
  unfold readObservationList at h
  split at h
  · cases h
  · exact typeId_ne_of_readAll h

end Engine

end PropertyRisk
