import PropertyRisk.Proofs.Documents

/-!
# Documents in canonical form

A tree has many documents: names may be in any case, defaults may be left out, and fields that
nothing reads may be there. `Criteria.toValue_of_canonical`: a document in canonical form, which
has none of this, is the one that its tree is written as, but for the order of fields.
`Criteria.canonical_toValue`: what is written is in this form.
-/

namespace PropertyRisk

namespace Value

/-- The same document: objects may have their fields in another order. -/
inductive Same : Value → Value → Prop
  | refl (v : Value) : Same v v
  | list {as bs : List Value} : List.Forall₂ Same as bs → Same (.list as) (.list bs)
  | object {as bs : List (String × Value)} :
      (∀ key, Option.Rel Same (field? key as) (field? key bs)) → Same (.object as) (.object bs)

/-- An object has no other fields than these. -/
def HasOnly (keys : List String) (fields : List (String × Value)) : Prop :=
  ∀ key, key ∉ keys → field? key fields = none

theorem rel_same_of_eq {a b : Option Value} (h : a = b) : Option.Rel Same a b := by
  subst h
  cases a with
  | none => exact .none
  | some v => exact .some (.refl v)

theorem field?_eq_none {key : String} {fields : List (String × Value)}
    (h : ∀ p ∈ fields, p.1 ≠ key) : field? key fields = none := by
  induction fields with
  | nil => rfl
  | cons p rest ih =>
    rw [field?, if_neg (h p List.mem_cons_self), ih fun q hq => h q (List.mem_cons_of_mem _ hq)]

end Value

open Value (field?)

/-! ## Leaves -/

namespace Leaf

def keys : List String :=
  ["observation_type_id", "operator", "value_type", "value", "observation_value_ids"]

/-- The fields of a leaf's document in canonical form: the type is named by a text that is not
empty, operator and kind by their names, a value is neither absent nor a list, and value ids are
texts. -/
structure Canonical (fields : List (String × Value)) : Prop where
  typeId : ∃ s, s ≠ "" ∧ field? "observation_type_id" fields = some (.text s)
  operator : ∃ op : Operator, field? "operator" fields = some (.text op.name)
  kind : ∃ k : ValueKind, field? "value_type" fields = some (.text k.name)
  value : ∀ v, field? "value" fields = some v → v ≠ .null ∧ ∀ items, v ≠ .list items
  valueIds : ∀ v, field? "observation_value_ids" fields = some v →
    ∃ ids : List String, v = .list (ids.map .text)
  only : Value.HasOnly keys fields

theorem hasOnly_fields (l : Leaf) : Value.HasOnly keys l.fields := by
  intro key hkey
  refine Value.field?_eq_none fun p hp he => hkey (he ▸ ?_)
  rcases l with ⟨_, _, _, v, _ | ids⟩ <;> by_cases hv : v = .null <;>
    simp [fields, hv] at hp <;> rcases hp with rfl | rfl | rfl | rfl | rfl <;> simp [keys]

theorem canonical_fields {l : Leaf} (h : l.Readable) : Canonical l.fields where
  typeId := ⟨l.typeId, h.typeId_ne, rfl⟩
  operator := ⟨l.operator, rfl⟩
  kind := ⟨l.kind, rfl⟩
  value v hv := by
    rw [field?_value] at hv
    split at hv <;> cases hv
    exact ⟨‹_›, h.value_ne⟩
  valueIds v hv := by
    rw [field?_valueIds] at hv
    obtain ⟨ids, -, rfl⟩ := Option.map_eq_some_iff.mp hv
    exact ⟨ids, rfl⟩
  only := l.hasOnly_fields

theorem readExpected_of_canonical {v? : Option Value}
    (h : ∀ v, v? = some v → v ≠ .null ∧ ∀ items, v ≠ .list items) :
    readExpected v? = v?.getD .null := by
  cases v? with
  | none => rfl
  | some v =>
    have hv := (h v rfl).2
    cases v with
    | list items => exact absurd rfl (hv items)
    | _ => rfl

theorem readValueIds_of_canonical {v? : Option Value}
    (h : ∀ v, v? = some v → ∃ ids : List String, v = .list (ids.map .text)) :
    ∃ ids?, readValueIds v? = .ok ids? ∧ v? = ids?.map fun ids => .list (ids.map .text) := by
  cases v? with
  | none => exact ⟨none, rfl, rfl⟩
  | some v =>
    obtain ⟨ids, rfl⟩ := h v rfl
    exact ⟨some ids, by simp [readValueIds, Function.comp_def], rfl⟩

/-- A canonical leaf is read, and has the fields that it is written with. -/
theorem read_of_canonical {given : List (String × Value)} (h : Canonical given) :
    ∃ l, read given = .ok l ∧ ∀ key, field? key l.fields = field? key given := by
  obtain ⟨s, hs, htype⟩ := h.typeId
  obtain ⟨op, hop⟩ := h.operator
  obtain ⟨k, hkind⟩ := h.kind
  obtain ⟨ids?, hread, hids⟩ := readValueIds_of_canonical h.valueIds
  have hold : (Value.text s).holds = true := by simpa [Value.holds] using hs
  let l : Leaf := ⟨s, op, k, (field? "value" given).getD .null, ids?⟩
  refine ⟨l, ?_, fun key => ?_⟩
  · simp only [read, htype, hop, hkind, Option.getD_some, hold, if_true, Value.plain_text,
      readName_name (Operator.capitals_name _) (Operator.ofName?_name _),
      readName_name (ValueKind.capitals_name _) (ValueKind.ofName?_name _),
      hread, readExpected_of_canonical h.value, l]
  by_cases hkey : key ∈ keys
  case neg => rw [l.hasOnly_fields key hkey, h.only key hkey]
  simp only [keys, List.mem_cons, List.not_mem_nil, or_false] at hkey
  rcases hkey with rfl | rfl | rfl | rfl | rfl
  · exact htype.symm
  · exact hop.symm
  · exact hkind.symm
  · rw [field?_value]
    -- a value that is given is not the one that stands for none
    cases hv : field? "value" given with
    | none => simp [l, hv]
    | some v => simp [l, hv, (h.value v hv).1]
  · rw [field?_valueIds, hids]

end Leaf

/-! ## Trees -/

namespace Condition

def groupKeys : List String := ["join_operator", "conditions"]

/-- The document of a node in canonical form, where a group names its join and lists its members,
and nothing else is given. -/
inductive Canonical : Value → Prop
  | leaf {fields : List (String × Value)} : Leaf.Canonical fields → Canonical (.object fields)
  | group {fields : List (String × Value)} {join : Join} {items : List Value} :
      field? "join_operator" fields = some (.text join.name) →
      field? "conditions" fields = some (.list items) → Value.HasOnly groupKeys fields →
      (∀ v ∈ items, Canonical v) → Canonical (.object fields)

/-- A node is a group if it has conditions, wherever they stand among its fields. -/
theorem readObject_eq (path : NodePath) (all fields : List (String × Value)) :
    readObject path all fields =
      match field? "conditions" fields with
      | some v => readGroup path all v
      | none => readLeaf path all := by
  induction fields with
  | nil => rw [readObject, field?]
  | cons p rest ih =>
    obtain ⟨key, v⟩ := p
    rw [readObject, field?]
    split
    · rfl
    · exact ih

/-- What has conditions is read as a group, whatever is wrong with it. -/
theorem isGroup_of_conditions (path : NodePath) {v : Value} (h : v.get? "conditions" ≠ none) :
    ∃ join conditions, (readNode path v).1 = some (.group join conditions) := by
  cases v with
  | object fields =>
    obtain ⟨w, hw⟩ := Option.ne_none_iff_exists'.mp h
    have hw : field? "conditions" fields = some w := hw
    rw [readNode, readObject_eq, hw]
    cases w <;> exact ⟨_, _, rfl⟩
  | _ => exact absurd rfl h

theorem readItems_of_forall {items : List Value}
    (h : ∀ v ∈ items, ∀ path, ∃ c : Condition, readNode path v = (some c, []) ∧ c.toValue.Same v)
    (path : NodePath) (i : Nat) :
    ∃ cs, readItems path i items = (cs, []) ∧ List.Forall₂ Value.Same (toValues cs) items := by
  induction items generalizing i with
  | nil => exact ⟨[], rfl, .nil⟩
  | cons v rest ih =>
    obtain ⟨c, hread, hsame⟩ := h v List.mem_cons_self (path ++ [i])
    obtain ⟨cs, hrest, hall⟩ := ih (fun u hu => h u (List.mem_cons_of_mem _ hu)) (i + 1)
    refine ⟨c :: cs, ?_, .cons hsame hall⟩
    rw [readItems, hread, hrest]
    rfl

theorem toValue_of_canonical {v : Value} (h : Canonical v) (path : NodePath) :
    ∃ c : Condition, readNode path v = (some c, []) ∧ c.toValue.Same v := by
  induction h generalizing path with
  | @leaf fields hleaf =>
    obtain ⟨l, hread, hfields⟩ := Leaf.read_of_canonical hleaf
    have hnone : field? "conditions" fields = none := hleaf.only _ (by decide)
    refine ⟨.leaf l, ?_, .object fun key => Value.rel_same_of_eq (hfields key)⟩
    simp only [readNode, readObject_eq, hnone, readLeaf, hread]
  | @group fields join items hjoin hitems honly _ ih =>
    obtain ⟨cs, hread, hall⟩ := readItems_of_forall ih path 0
    have hname : readJoin path fields = (join, []) := by
      simp [readJoin, hjoin, readName_name (Join.capitals_name join) (Join.ofName?_name join)]
    refine ⟨.group join cs, ?_, .object fun key => ?_⟩
    · simp only [readNode, readObject_eq, hitems, readGroup, hname, hread, List.append_nil]
    by_cases hkey : key ∈ groupKeys
    case neg =>
      have hwritten : Value.HasOnly groupKeys
          [("join_operator", .text join.name), ("conditions", .list (toValues cs))] := by
        intro key hkey
        simp only [groupKeys, List.mem_cons, List.not_mem_nil, or_false, not_or] at hkey
        simp [field?, Ne.symm hkey.1, Ne.symm hkey.2]
      rw [hwritten key hkey, honly key hkey]
      exact .none
    simp only [groupKeys, List.mem_cons, List.not_mem_nil, or_false] at hkey
    rcases hkey with rfl | rfl
    · exact Value.rel_same_of_eq hjoin.symm
    · rw [hitems]
      exact .some (.list hall)

mutual

theorem canonical_toValue : ∀ c : Condition, c.Readable → Canonical c.toValue
  | .leaf l, h => .leaf (Leaf.canonical_fields h)
  | .group join conditions, h => by
    refine .group rfl rfl (fun key hkey => ?_) (canonical_toValues conditions h)
    simp only [groupKeys, List.mem_cons, List.not_mem_nil, or_false, not_or] at hkey
    simp [field?, Ne.symm hkey.1, Ne.symm hkey.2]

theorem canonical_toValues :
    ∀ cs : List Condition, ReadableAll cs → ∀ v ∈ toValues cs, Canonical v
  | [], _ => nofun
  | c :: rest, h => by
    intro v hv
    rcases List.mem_cons.mp hv with rfl | hv
    · exact canonical_toValue c h.1
    · exact canonical_toValues rest h.2 v hv

end

end Condition

namespace Criteria

/-- The document of a tree in canonical form: a group, with nothing around it. -/
def Canonical (v : Value) : Prop := Condition.Canonical v ∧ v.get? "conditions" ≠ none

theorem canonical_toValue {c : Criteria} (h : c.Readable) : Canonical c.toValue :=
  ⟨Condition.canonical_toValue c.toCondition h, nofun⟩

theorem unwrap_of_canonical {v : Value} (h : Canonical v) : unwrap v = v := by
  obtain ⟨hv, hgroup⟩ := h
  cases hv with
  | leaf hleaf => exact absurd (hleaf.only _ (by decide)) hgroup
  | group _ hitems honly _ =>
    have hroot := honly "root" (by decide)
    simp only [unwrap, hroot]

/-- A document in canonical form is read, and is what the tree is written as. -/
theorem toValue_of_canonical {v : Value} (h : Canonical v) :
    ∃ c, read v = .ok c ∧ c.toValue.Same v := by
  obtain ⟨c, hread, hsame⟩ := Condition.toValue_of_canonical h.1 []
  obtain ⟨join, conditions, hgroup⟩ := Condition.isGroup_of_conditions [] h.2
  rw [hread] at hgroup
  cases hgroup
  refine ⟨⟨join, conditions⟩, ?_, hsame⟩
  rw [read, unwrap_of_canonical h, hread]

end Criteria

end PropertyRisk
