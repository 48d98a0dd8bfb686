import PropertyRisk.Proofs.Canonical
import PropertyRisk.Proofs.NodeTexts

/-!
# The grammar of condition trees

`Condition.WellFormed` is the grammar: what a node has to be itself (`Condition.Formed`), and that
its members are well formed. `Criteria.read_exact`: just the well-formed groups are read, as trees
of the same shape, and otherwise each node that is not formed is reported, in the order of the
nodes, and no other node is.

Reading goes on after a fault, with something in the place of what is missing. So all is said of
the faults of a node itself, `Condition.faults`, of which the problems that are reported are made.
-/

namespace PropertyRisk

open Value (field?)

namespace Value

/-- The members of a group as written. What is no group, or lists no conditions, has none. -/
def members : Value → List Value
  | .object fields =>
    match field? "conditions" fields with
    | some (.list items) => items
    | _ => []
  | _ => []

theorem members_eq_of_field? {fields : List (String × Value)} {items : List Value}
    (h : field? "conditions" fields = some (.list items)) : members (.object fields) = items := by
  rw [members, h]

theorem sizeOf_lt_of_mem_members {m v : Value} (h : m ∈ members v) : sizeOf m < sizeOf v := by
  unfold members at h
  split at h
  case h_2 => cases h
  case h_1 fields =>
    split at h
    case h_2 => cases h
    case h_1 items hitems =>
      have hlist := sizeOf_field? hitems
      have hmem := List.sizeOf_lt_of_mem h
      simp only [Value.list.sizeOf_spec] at hlist
      simp only [Value.object.sizeOf_spec]
      omega

/-- What follows for a node from its members holds of every document. -/
theorem induction_members {P : Value → Prop} (step : ∀ v, (∀ m ∈ members v, P m) → P v)
    (v : Value) : P v :=
  step v fun m _ => induction_members step m
termination_by v
decreasing_by exact sizeOf_lt_of_mem_members ‹_›

end Value

/-! ## The grammar -/

/-- The fields of a well-formed leaf. Names may be in any case. -/
structure Leaf.Formed (fields : List (String × Value)) : Prop where
  typeId : ∃ v, field? "observation_type_id" fields = some v ∧ v.holds = true
  operator : ∀ v, field? "operator" fields = some v →
    ∃ op : Operator, Text.capitals v.plain = op.name
  kind : ∀ v, field? "value_type" fields = some v →
    ∃ k : ValueKind, Text.capitals v.plain = k.name
  valueIds : ∀ v, field? "observation_value_ids" fields = some v →
    v = .null ∨ ∃ items, v = .list items

/-- The name that a field gives, or the one that it stands for when left out. -/
def Value.named (default : String) (given : Option Value) : String :=
  (given.map fun v => Text.capitals v.plain).getD default

/-- The leaf has what the fields give, and the defaults for what they leave out. -/
structure Leaf.Mirrors (l : Leaf) (fields : List (String × Value)) : Prop where
  typeId : ∃ v, field? "observation_type_id" fields = some v ∧ l.typeId = v.plain
  operator : l.operator.name = Value.named Operator.equals.name (field? "operator" fields)
  kind : l.kind.name = Value.named ValueKind.enum.name (field? "value_type" fields)
  value : l.value = readExpected (field? "value" fields)
  valueIds : readValueIds (field? "observation_value_ids" fields) = .ok l.valueIds

namespace Condition

/-- A node meets the requirements itself, whatever its members are. -/
inductive Formed : Value → Prop
  | leaf {fields : List (String × Value)} :
      field? "conditions" fields = none → Leaf.Formed fields → Formed (.object fields)
  | group {fields : List (String × Value)} {items : List Value} {v : Value} {join : Join} :
      field? "conditions" fields = some (.list items) →
        field? "join_operator" fields = some v → Text.capitals v.plain = join.name →
          Formed (.object fields)

/-- The grammar of nodes. -/
inductive WellFormed : Value → Prop
  | intro {v : Value} : Formed v → (∀ m ∈ v.members, WellFormed m) → WellFormed v

/-- An object with conditions, of whatever kind. -/
def IsGroup (v : Value) : Prop := v.get? "conditions" ≠ none

/-- The tree has one node for each node of the document, in the same places. -/
inductive Mirrors : Condition → Value → Prop
  | leaf {l : Leaf} {fields : List (String × Value)} :
      field? "conditions" fields = none → l.Mirrors fields → Mirrors (.leaf l) (.object fields)
  | group {join : Join} {conditions : List Condition} {fields : List (String × Value)}
      {items : List Value} {v : Value} :
      field? "conditions" fields = some (.list items) →
        field? "join_operator" fields = some v → join.name = Text.capitals v.plain →
          List.Forall₂ Mirrors conditions items → Mirrors (.group join conditions) (.object fields)

/-! ## Nodes -/

mutual

/-- The nodes of a document with their paths, depth first. -/
def nodes (path : NodePath) : Value → List (NodePath × Value)
  | .object fields => (path, .object fields) :: nodesAmong path fields
  | v => [(path, v)]

def nodesAmong (path : NodePath) : List (String × Value) → List (NodePath × Value)
  | [] => []
  | (key, v) :: rest => if key = "conditions" then nodesBelow path v else nodesAmong path rest

def nodesBelow (path : NodePath) : Value → List (NodePath × Value)
  | .list items => nodesFrom path 0 items
  | _ => []

/-- The nodes of members, of which the first is the `i`-th. -/
def nodesFrom (path : NodePath) (i : Nat) : List Value → List (NodePath × Value)
  | [] => []
  | v :: rest => nodes (path ++ [i]) v ++ nodesFrom path (i + 1) rest

end

theorem nodesAmong_eq (path : NodePath) (fields : List (String × Value)) :
    nodesAmong path fields = nodesFrom path 0 (Value.members (.object fields)) := by
  induction fields with
  | nil => rfl
  | cons p rest ih =>
    obtain ⟨key, v⟩ := p
    rw [nodesAmong]
    by_cases hkey : key = "conditions"
    · rw [if_pos hkey, Value.members, field?, if_pos hkey]
      cases v <;> rfl
    · rw [if_neg hkey, ih, Value.members, Value.members, field?, if_neg hkey]

theorem nodes_eq (path : NodePath) (v : Value) :
    nodes path v = (path, v) :: nodesFrom path 0 v.members := by
  cases v with
  | object fields => rw [nodes, nodesAmong_eq]
  | _ => rfl

theorem prefix_of_mem_nodesFrom {items : List Value} {n : NodePath × Value} {path : NodePath}
    (h : ∀ m ∈ items, ∀ path, n ∈ nodes path m → path <+: n.1) {i : Nat}
    (hn : n ∈ nodesFrom path i items) : ∃ j, i ≤ j ∧ path ++ [j] <+: n.1 := by
  induction items generalizing i with
  | nil => cases hn
  | cons v rest ih =>
    rw [nodesFrom, List.mem_append] at hn
    rcases hn with hn | hn
    · exact ⟨i, Nat.le_refl i, h v List.mem_cons_self _ hn⟩
    · obtain ⟨j, hj, hprefix⟩ := ih (fun m hm => h m (List.mem_cons_of_mem _ hm)) hn
      exact ⟨j, Nat.le_of_succ_le hj, hprefix⟩

theorem prefix_of_mem_nodes {n : NodePath × Value} {path : NodePath} {v : Value}
    (hn : n ∈ nodes path v) : path <+: n.1 := by
  induction v using Value.induction_members generalizing path with
  | step v ih =>
    rw [nodes_eq, List.mem_cons] at hn
    rcases hn with rfl | hn
    · exact List.prefix_refl path
    · obtain ⟨j, -, hprefix⟩ := prefix_of_mem_nodesFrom (fun m hm _ => ih m hm) hn
      exact (List.prefix_append path [j]).trans hprefix

theorem nodup_nodesFrom {items : List Value} {path : NodePath}
    (h : ∀ m ∈ items, ∀ path, ((nodes path m).map Prod.fst).Nodup) (i : Nat) :
    ((nodesFrom path i items).map Prod.fst).Nodup := by
  induction items generalizing i with
  | nil => exact List.nodup_nil
  | cons v rest ih =>
    rw [nodesFrom, List.map_append, List.nodup_append]
    refine ⟨h v List.mem_cons_self _, ih (fun m hm => h m (List.mem_cons_of_mem _ hm)) _, ?_⟩
    -- below different members, paths differ at the member's place
    rintro _ hp _ hq rfl
    obtain ⟨n, hn, rfl⟩ := List.mem_map.mp hp
    obtain ⟨n', hn', heq⟩ := List.mem_map.mp hq
    obtain ⟨j, hj, hprefix⟩ := prefix_of_mem_nodesFrom (fun _ _ _ => prefix_of_mem_nodes) hn'
    rw [heq] at hprefix
    have hsame := (List.prefix_of_prefix_length_le (prefix_of_mem_nodes hn) hprefix
      (by simp)).eq_of_length (by simp)
    have : i = j := by simpa using hsame
    omega

theorem nodup_nodes (path : NodePath) (v : Value) : ((nodes path v).map Prod.fst).Nodup := by
  induction v using Value.induction_members generalizing path with
  | step v ih =>
    rw [nodes_eq, List.map_cons, List.nodup_cons]
    refine ⟨fun hmem => ?_, nodup_nodesFrom ih 0⟩
    obtain ⟨n, hn, heq⟩ := List.mem_map.mp hmem
    obtain ⟨j, -, hprefix⟩ := prefix_of_mem_nodesFrom (fun _ _ _ => prefix_of_mem_nodes) hn
    rw [heq] at hprefix
    have hlength : path.length + 1 ≤ path.length := by simpa using hprefix.length_le
    exact Nat.not_succ_le_self _ hlength

/-- The problems tell the nodes of a document that are not formed, depth first, and no other node,
but in the end that the top is no group. -/
structure Reported (v : Value) (problems : List NodeProblem) : Prop where
  inOrder : problems = (nodes [] v).flatMap fun n => problems.filter (n.1.owns ·.message)
  broken : ∀ n ∈ nodes [] v, ¬Formed n.2 →
    ∃ p ∈ problems, n.1.owns p.message = true ∧ p.fault ≠ .rootNotGroup
  formed : ∀ n ∈ nodes [] v, Formed n.2 → ∀ p ∈ problems, n.1.owns p.message = true →
    p = ⟨[], .rootNotGroup⟩ ∧ ¬IsGroup v
  top : ¬IsGroup v → problems.getLast? = some ⟨[], .rootNotGroup⟩

/-! ## Faults -/

/-- What is wrong with a node itself, in the order reported. -/
def faults : Value → List NodeFault
  | .object fields =>
    match field? "conditions" fields with
    | some (.list _) => (readJoin [] fields).2.map NodeProblem.fault
    | some _ => (readJoin [] fields).2.map NodeProblem.fault ++ [.conditionsNotList]
    | none =>
      match Leaf.read fields with
      | .ok _ => []
      | .error fault => [fault]
  | v => [.notObject v.kindName]

/-- The problems of a node itself. -/
def own (n : NodePath × Value) : List NodeProblem := (faults n.2).map (⟨n.1, ·⟩)

theorem readJoin_problems (path : NodePath) (fields : List (String × Value)) :
    (readJoin path fields).2 = ((readJoin [] fields).2.map NodeProblem.fault).map (⟨path, ·⟩) := by
  simp only [readJoin]
  split <;> rfl

theorem readNode_problems (path : NodePath) (v : Value) :
    (readNode path v).2 = own (path, v) ++ (readItems path 0 v.members).2 := by
  cases v with
  | object fields =>
    rw [readNode, readObject_eq]
    cases hconditions : field? "conditions" fields with
    | none =>
      simp only [own, faults, Value.members, hconditions, readLeaf, readItems, List.append_nil]
      cases Leaf.read fields <;> rfl
    | some w =>
      cases w <;>
        simp [own, faults, Value.members, hconditions, readGroup, readItems,
          readJoin_problems path fields]
  | _ => rfl

theorem readItems_problems {items : List Value}
    (h : ∀ m ∈ items, ∀ path, (readNode path m).2 = (nodes path m).flatMap own) (path : NodePath)
    (i : Nat) : (readItems path i items).2 = (nodesFrom path i items).flatMap own := by
  induction items generalizing i with
  | nil => rfl
  | cons v rest ih =>
    rw [nodesFrom, List.flatMap_append, ← h v List.mem_cons_self,
      ← ih fun m hm => h m (List.mem_cons_of_mem _ hm)]
    rfl

/-- What is reported are the problems of the nodes, node by node. -/
theorem problems_eq (path : NodePath) (v : Value) :
    (readNode path v).2 = (nodes path v).flatMap own := by
  induction v using Value.induction_members generalizing path with
  | step v ih =>
    rw [readNode_problems, nodes_eq, List.flatMap_cons, readItems_problems ih]

end Condition

/-! ## What has no faults -/

/-- A name is read, in any case, or there is nothing of that name. -/
theorem readName_cases {ofName? : String → Option α} {name : α → String}
    (hname : ∀ s a, ofName? s = some a ↔ name a = s) (default : α) (given : Option Value) :
    (∃ a, readName ofName? default given = .ok a ∧
      name a = Value.named (name default) given) ∨
    ∃ v, given = some v ∧ readName ofName? default given = .error v ∧
      ∀ a, Text.capitals v.plain ≠ name a := by
  cases given with
  | none => exact .inl ⟨default, rfl, rfl⟩
  | some v =>
    simp only [readName, Value.named, Option.map_some, Option.getD_some]
    cases hfound : ofName? (Text.capitals v.plain) with
    | some a => exact .inl ⟨a, rfl, (hname _ _).mp hfound⟩
    | none =>
      refine .inr ⟨v, rfl, rfl, fun a ha => ?_⟩
      cases hfound.symm.trans ((hname _ a).mpr ha.symm)

theorem Operator.ofName?_eq_some {s : String} {op : Operator} :
    ofName? s = some op ↔ op.name = s :=
  ⟨fun h => by simpa using List.find?_some h, fun h => h ▸ ofName?_name op⟩

theorem ValueKind.ofName?_eq_some {s : String} {k : ValueKind} :
    ofName? s = some k ↔ k.name = s :=
  ⟨fun h => by simpa using List.find?_some h, fun h => h ▸ ofName?_name k⟩

theorem Join.ofName?_eq_some {s : String} {j : Join} : ofName? s = some j ↔ j.name = s :=
  ⟨fun h => by simpa using List.find?_some h, fun h => h ▸ ofName?_name j⟩

namespace Leaf

theorem readValueIds_cases (given : Option Value) :
    (∃ ids?, readValueIds given = .ok ids? ∧
      ∀ v, given = some v → v = .null ∨ ∃ items, v = .list items) ∨
    readValueIds given = .error .valueIdsNotList ∧
      ∃ v, given = some v ∧ v ≠ .null ∧ ∀ items, v ≠ .list items := by
  cases given with
  | none => exact .inl ⟨none, rfl, nofun⟩
  | some v =>
    cases v with
    | null => exact .inl ⟨none, rfl, fun _ h => .inl (Option.some.inj h).symm⟩
    | list items =>
      exact .inl ⟨_, rfl, fun _ h => .inr ⟨items, (Option.some.inj h).symm⟩⟩
    | _ => exact .inr ⟨rfl, _, rfl, nofun, nofun⟩

/-- A leaf is read just if its fields are formed. -/
theorem read_cases (fields : List (String × Value)) :
    (∃ l, read fields = .ok l ∧ Formed fields ∧ l.Mirrors fields) ∨
    ∃ fault, read fields = .error fault ∧ ¬Formed fields ∧ fault ≠ .rootNotGroup := by
  simp only [read]
  cases htype : field? "observation_type_id" fields with
  | none =>
    refine .inr ⟨.typeMissing, rfl, fun h => ?_, by simp⟩
    obtain ⟨v, hv, -⟩ := h.typeId
    cases htype.symm.trans hv
  | some typeId =>
    simp only [Option.getD_some]
    cases hholds : typeId.holds with
    | false =>
      refine .inr ⟨.typeMissing, rfl, fun h => ?_, by simp⟩
      obtain ⟨v, hv, htrue⟩ := h.typeId
      cases htype.symm.trans hv
      cases hholds.symm.trans htrue
    | true =>
      rw [if_pos rfl]
      -- the first field that is wrong is the one reported
      rcases readName_cases (fun _ _ => Operator.ofName?_eq_some) .equals
        (field? "operator" fields) with ⟨op, hop, hopName⟩ | ⟨v, hgiven, hop, hnone⟩
      case inr =>
        rw [hop]
        refine .inr ⟨_, rfl, fun h => ?_, by simp⟩
        obtain ⟨op, hname⟩ := h.operator v hgiven
        exact hnone op hname
      rcases readName_cases (fun _ _ => ValueKind.ofName?_eq_some) .enum
        (field? "value_type" fields) with ⟨k, hk, hkName⟩ | ⟨v, hgiven, hk, hnone⟩
      case inr =>
        rw [hop, hk]
        refine .inr ⟨_, rfl, fun h => ?_, by simp⟩
        obtain ⟨k, hname⟩ := h.kind v hgiven
        exact hnone k hname
      rcases readValueIds_cases (field? "observation_value_ids" fields)
        with ⟨ids?, hids, hlist⟩ | ⟨hids, v, hgiven, hnull, hlist⟩
      case inr =>
        rw [hop, hk, hids]
        refine .inr ⟨_, rfl, fun h => ?_, by simp⟩
        rcases h.valueIds v hgiven with rfl | ⟨items, rfl⟩
        · exact hnull rfl
        · exact hlist items rfl
      rw [hop, hk, hids]
      refine .inl ⟨_, rfl, ⟨⟨typeId, htype, hholds⟩, ?_, ?_, hlist⟩,
        ⟨typeId, htype, rfl⟩, hopName, hkName, rfl, hids⟩
      · intro v hv
        exact ⟨op, by rw [hopName, hv]; rfl⟩
      · intro v hv
        exact ⟨k, by rw [hkName, hv]; rfl⟩

end Leaf

namespace Condition

theorem readJoin_cases (path : NodePath) (fields : List (String × Value)) :
    (∃ join v, readJoin path fields = (join, []) ∧ field? "join_operator" fields = some v ∧
      join.name = Text.capitals v.plain) ∨
    readJoin path fields = (.and, [⟨path, .badJoin⟩]) ∧
      ∀ v, field? "join_operator" fields = some v →
        ∀ join : Join, Text.capitals v.plain ≠ join.name := by
  rw [readJoin]
  rcases readName_cases (fun _ _ => Join.ofName?_eq_some) .and
    (some ((field? "join_operator" fields).getD (.text ""))) with ⟨join, hjoin, hname⟩ |
      ⟨v, hgiven, hjoin, hnone⟩
  · refine .inl ⟨join, ?_⟩
    rw [hjoin]
    cases hgiven : field? "join_operator" fields with
    | some v => exact ⟨v, rfl, rfl, by rw [hname, hgiven]; rfl⟩
    | none =>
      -- the empty text stands for a join that is left out, and names none
      rw [hgiven] at hname
      cases join <;> exact absurd hname (by decide)
  · rw [hjoin]
    refine .inr ⟨rfl, fun w hw => ?_⟩
    rw [hw, Option.getD_some] at hgiven
    cases hgiven
    exact hnone

/-- A node is formed just if it has no faults of its own. -/
theorem faults_eq_nil_iff (v : Value) : faults v = [] ↔ Formed v := by
  cases v with
  | object fields =>
    cases hconditions : field? "conditions" fields with
    | none =>
      -- without conditions it is read as a leaf
      simp only [faults, hconditions]
      rcases Leaf.read_cases fields with ⟨l, hread, hformed, -⟩ | ⟨fault, hread, hformed, -⟩
      · rw [hread]
        exact ⟨fun _ => .leaf hconditions hformed, fun _ => rfl⟩
      · rw [hread]
        refine ⟨fun h => absurd h (List.cons_ne_nil _ _), fun h => ?_⟩
        cases h with
        | leaf _ h => exact absurd h hformed
        | group hlist _ _ => cases hconditions.symm.trans hlist
    | some w =>
      by_cases hlist : ∃ items, w = .list items
      · obtain ⟨items, rfl⟩ := hlist
        simp only [faults, hconditions]
        rcases readJoin_cases [] fields with ⟨join, v, hjoin, hgiven, hname⟩ | ⟨hjoin, hnone⟩
        · rw [hjoin]
          exact ⟨fun _ => .group hconditions hgiven hname.symm, fun _ => rfl⟩
        · rw [hjoin]
          refine ⟨fun h => absurd h (List.cons_ne_nil _ _), fun h => ?_⟩
          cases h with
          | leaf h _ => cases hconditions.symm.trans h
          | group _ hgiven hname => exact absurd hname (hnone _ hgiven _)
      · have hfaults : faults (.object fields) ≠ [] := by
          cases w with
          | list items => exact absurd ⟨items, rfl⟩ hlist
          | _ => simp [faults, hconditions]
        refine ⟨fun h => absurd h hfaults, fun h => ?_⟩
        cases h with
        | leaf h _ => cases hconditions.symm.trans h
        | group h _ _ =>
          cases hconditions.symm.trans h
          exact absurd ⟨_, rfl⟩ hlist
  | _ => exact ⟨fun h => absurd h (List.cons_ne_nil _ _), fun h => by cases h⟩

/-- That the top is no group is no fault of a node. -/
theorem rootNotGroup_not_mem_faults (v : Value) : NodeFault.rootNotGroup ∉ faults v := by
  cases v with
  | object fields =>
    have hjoin : NodeFault.rootNotGroup ∉ (readJoin [] fields).2.map NodeProblem.fault := by
      rcases readJoin_cases [] fields with ⟨_, _, hjoin, _⟩ | ⟨hjoin, _⟩ <;> simp [hjoin]
    cases hconditions : field? "conditions" fields with
    | none =>
      simp only [faults, hconditions]
      rcases Leaf.read_cases fields with ⟨l, hread, -, -⟩ | ⟨fault, hread, -, hne⟩
      · simp [hread]
      · simp [hread, hne.symm]
    | some w => cases w <;> simp [faults, hconditions, hjoin]
  | _ => simp [faults]

theorem wellFormed_iff_nodesFrom {items : List Value} {path : NodePath}
    (h : ∀ m ∈ items, ∀ path, WellFormed m ↔ ∀ n ∈ nodes path m, Formed n.2) (i : Nat) :
    (∀ m ∈ items, WellFormed m) ↔ ∀ n ∈ nodesFrom path i items, Formed n.2 := by
  induction items generalizing i with
  | nil => exact ⟨fun _ => nofun, fun _ => nofun⟩
  | cons v rest ih =>
    rw [List.forall_mem_cons, nodesFrom, List.forall_mem_append,
      h v List.mem_cons_self (path ++ [i]),
      ih fun m hm => h m (List.mem_cons_of_mem _ hm)]

/-- A document is well formed just if each of its nodes is formed. -/
theorem wellFormed_iff (path : NodePath) (v : Value) :
    WellFormed v ↔ ∀ n ∈ nodes path v, Formed n.2 := by
  induction v using Value.induction_members generalizing path with
  | step v ih =>
    rw [nodes_eq, List.forall_mem_cons, ← wellFormed_iff_nodesFrom ih 0]
    constructor
    · rintro ⟨hformed, hmembers⟩
      exact ⟨hformed, hmembers⟩
    · rintro ⟨hformed, hmembers⟩
      exact ⟨hformed, hmembers⟩

theorem own_eq_nil_iff (n : NodePath × Value) : own n = [] ↔ Formed n.2 := by
  rw [own, List.map_eq_nil_iff, faults_eq_nil_iff]

/-- Nothing is reported just if the document is well formed. -/
theorem problems_eq_nil_iff (path : NodePath) (v : Value) :
    (readNode path v).2 = [] ↔ WellFormed v := by
  rw [problems_eq, List.flatMap_eq_nil_iff, wellFormed_iff path]
  exact forall₂_congr fun n _ => own_eq_nil_iff n

theorem mirrors_items {items : List Value}
    (h : ∀ m ∈ items, ∀ path, ∃ c, (readNode path m).1 = some c ∧ c.Mirrors m) (path : NodePath)
    (i : Nat) : List.Forall₂ Mirrors (readItems path i items).1 items := by
  induction items generalizing i with
  | nil => exact .nil
  | cons v rest ih =>
    obtain ⟨c, hread, hmirrors⟩ := h v List.mem_cons_self (path ++ [i])
    have hrest := ih (fun m hm => h m (List.mem_cons_of_mem _ hm)) (i + 1)
    simp only [readItems, hread]
    exact .cons hmirrors hrest

/-- No member of a well-formed document is left out of the tree. -/
theorem exists_mirrors {v : Value} (h : WellFormed v) (path : NodePath) :
    ∃ c, (readNode path v).1 = some c ∧ c.Mirrors v := by
  induction h generalizing path with
  | @intro v hformed _ ih =>
    cases hformed with
    | @leaf fields hnone hleaf =>
      rcases Leaf.read_cases fields with ⟨l, hread, -, hmirrors⟩ | ⟨_, _, hbad, _⟩
      · refine ⟨.leaf l, ?_, .leaf hnone hmirrors⟩
        simp only [readNode, readObject_eq, hnone, readLeaf, hread]
      · exact absurd hleaf hbad
    | @group fields items v join hitems hgiven hname =>
      rcases readJoin_cases path fields with ⟨join, w, hjoin, hw, hname⟩ | ⟨_, hbad⟩
      · rw [Value.members_eq_of_field? hitems] at ih
        refine ⟨.group join (readItems path 0 items).1, ?_,
          .group hitems hw hname (mirrors_items ih path 0)⟩
        simp only [readNode, readObject_eq, hitems, readGroup, hjoin]
      · exact absurd hname (hbad v hgiven join)

end Condition

theorem Condition.ne_rootNotGroup_of_mem_own {n : NodePath × Value} {p : NodeProblem}
    (h : p ∈ Condition.own n) : p.fault ≠ .rootNotGroup := by
  obtain ⟨fault, hfault, rfl⟩ := List.mem_map.mp h
  exact fun heq => Condition.rootNotGroup_not_mem_faults n.2 (heq ▸ hfault)

/-! ## Whole trees -/

theorem filter_flatMap_of_nodup {α β κ : Type} [DecidableEq κ] {f : α → κ} {k : β → κ}
    {g : α → List β} (hkey : ∀ a, ∀ b ∈ g a, k b = f a) : ∀ {l : List α}, (l.map f).Nodup →
      ∀ a ∈ l, (l.flatMap g).filter (fun b => k b = f a) = g a
  | [], _, _, h => nomatch h
  | x :: rest, hnodup, a, ha => by
    rw [List.map_cons, List.nodup_cons] at hnodup
    rw [List.flatMap_cons, List.filter_append]
    rcases List.mem_cons.mp ha with rfl | ha
    · -- nothing else has the key of the first
      have hrest : (rest.flatMap g).filter (fun b => k b = f a) = [] := by
        refine List.filter_eq_nil_iff.mpr fun b hb => ?_
        obtain ⟨y, hy, hb⟩ := List.mem_flatMap.mp hb
        intro heq
        have hfy : f y = f a := (hkey y b hb).symm.trans (of_decide_eq_true heq)
        exact hnodup.1 (hfy ▸ List.mem_map_of_mem hy)
      rw [hrest, List.append_nil]
      exact List.filter_eq_self.mpr fun b hb => decide_eq_true (hkey a b hb)
    · have hfirst : (g x).filter (fun b => k b = f a) = [] := by
        refine List.filter_eq_nil_iff.mpr fun b hb heq => ?_
        have hfx : f x = f a := (hkey x b hb).symm.trans (of_decide_eq_true heq)
        exact hnodup.1 (hfx ▸ List.mem_map_of_mem ha)
      rw [hfirst, List.nil_append]
      exact filter_flatMap_of_nodup hkey hnodup.2 a ha

namespace Condition

theorem filter_owns (path : NodePath) (problems : List NodeProblem) :
    problems.filter (path.owns ·.message) = problems.filter (fun p => p.path = path) := by
  refine List.filter_congr fun p _ => ?_
  rw [Bool.eq_iff_iff, NodePath.owns_message, decide_eq_true_iff]

/-- The messages about a node tell its own faults. -/
theorem filter_owns_problems {v : Value} {n : NodePath × Value} (hn : n ∈ nodes [] v) :
    (readNode [] v).2.filter (n.1.owns ·.message) = own n := by
  rw [filter_owns, problems_eq]
  refine filter_flatMap_of_nodup (f := Prod.fst) (k := NodeProblem.path) (fun a b hb => ?_)
    (nodup_nodes [] v) n hn
  obtain ⟨fault, -, rfl⟩ := List.mem_map.mp hb
  rfl

/-- What is no group is a single node. -/
theorem nodes_of_not_isGroup {v : Value} (h : ¬IsGroup v) : nodes [] v = [([], v)] := by
  have hmembers : v.members = [] := by
    cases v with
    | object fields =>
      have hnone : field? "conditions" fields = none := not_not.mp h
      rw [Value.members, hnone]
    | _ => rfl
  rw [nodes_eq, hmembers, nodesFrom]

theorem ne_group_of_not_isGroup {v : Value} (h : ¬IsGroup v) (path : NodePath) (join : Join)
    (conditions : List Condition) : (readNode path v).1 ≠ some (.group join conditions) := by
  cases v with
  | object fields =>
    have hnone : field? "conditions" fields = none := not_not.mp h
    rw [readNode, readObject_eq, hnone]
    simp only [readLeaf]
    split <;> (intro h; cases h)
  | _ =>
    intro h
    cases h

theorem reported_of_group {v : Value} (h : IsGroup v) : Reported v (readNode [] v).2 where
  inOrder := by
    have hown : ∀ n ∈ nodes [] v, (readNode [] v).2.filter (n.1.owns ·.message) = own n :=
      fun n hn => filter_owns_problems hn
    rw [List.flatMap_congr hown, problems_eq]
  broken n hn hbroken := by
    obtain ⟨p, hp⟩ := List.exists_mem_of_ne_nil _ (mt (own_eq_nil_iff n).mp hbroken)
    obtain ⟨hmem, howns⟩ := List.mem_filter.mp (filter_owns_problems hn ▸ hp)
    exact ⟨p, hmem, howns, ne_rootNotGroup_of_mem_own hp⟩
  formed n hn hformed p hp howns := by
    have hmem : p ∈ (readNode [] v).2.filter (n.1.owns ·.message) :=
      List.mem_filter.mpr ⟨hp, howns⟩
    rw [filter_owns_problems hn, (own_eq_nil_iff n).mpr hformed] at hmem
    cases hmem
  top hnot := absurd h hnot

theorem reported_of_not_group {v : Value} (h : ¬IsGroup v) :
    Reported v ((readNode [] v).2 ++ [⟨[], .rootNotGroup⟩]) := by
  -- the top is the only node, so all is told of it
  have hnodes := nodes_of_not_isGroup h
  have hproblems : (readNode [] v).2 = own ([], v) := by simp [problems_eq, hnodes]
  have howns : ∀ p ∈ own ([], v) ++ [⟨[], .rootNotGroup⟩], NodePath.owns [] p.message = true := by
    intro p hp
    rw [NodePath.owns_message]
    rcases List.mem_append.mp hp with hp | hp
    · obtain ⟨fault, -, rfl⟩ := List.mem_map.mp hp
      rfl
    · rw [List.mem_singleton.mp hp]
  rw [hproblems]
  constructor
  case inOrder =>
    rw [hnodes, List.flatMap_singleton, List.filter_eq_self.mpr howns]
  case broken =>
    intro n hn hbroken
    rw [hnodes, List.mem_singleton] at hn
    subst hn
    obtain ⟨p, hp⟩ := List.exists_mem_of_ne_nil _ (mt (own_eq_nil_iff _).mp hbroken)
    have hmem := List.mem_append_left [⟨[], .rootNotGroup⟩] hp
    exact ⟨p, hmem, howns p hmem, ne_rootNotGroup_of_mem_own hp⟩
  case formed =>
    intro n hn hformed p hp _
    rw [hnodes, List.mem_singleton] at hn
    subst hn
    rw [(own_eq_nil_iff _).mpr hformed, List.nil_append, List.mem_singleton] at hp
    exact ⟨hp, h⟩
  case top =>
    intro _
    exact List.getLast?_concat

end Condition

namespace Criteria

open Condition

theorem read_of_not_isGroup {v : Value} (h : ¬IsGroup (unwrap v)) :
    read v = .error ((readNode [] (unwrap v)).2 ++ [⟨[], .rootNotGroup⟩]) := by
  have hne := ne_group_of_not_isGroup h []
  unfold read
  split
  case h_1 hread => exact absurd (congrArg Prod.fst hread) (hne _ _)
  case h_2 hread => exact absurd (congrArg Prod.fst hread) (hne _ _)
  case h_3 hread => rw [hread]

theorem read_of_isGroup {v : Value} (h : IsGroup (unwrap v)) :
    ∃ tree : Criteria, (readNode [] (unwrap v)).1 = some tree.toCondition ∧
      read v = if (readNode [] (unwrap v)).2 = [] then .ok tree
        else .error (readNode [] (unwrap v)).2 := by
  obtain ⟨join, conditions, hread⟩ := isGroup_of_conditions [] h
  refine ⟨⟨join, conditions⟩, hread, ?_⟩
  rw [read]
  generalize readNode [] (unwrap v) = reading at hread
  obtain ⟨found, problems⟩ := reading
  cases hread
  cases problems <;> rfl

/-- Just the well-formed groups are read, as trees of the same shape; and of any other document
every node that is not formed is reported. -/
theorem read_exact (v : Value) :
    ((∃ tree, read v = .ok tree) ↔ IsGroup (unwrap v) ∧ WellFormed (unwrap v)) ∧
    (∀ tree, read v = .ok tree → tree.toCondition.Mirrors (unwrap v)) ∧
    ∀ problems, read v = .error problems → Reported (unwrap v) problems := by
  by_cases hgroup : IsGroup (unwrap v)
  · obtain ⟨tree, htree, hread⟩ := read_of_isGroup hgroup
    rw [hread]
    by_cases hformed : WellFormed (unwrap v)
    · rw [if_pos ((problems_eq_nil_iff [] _).mpr hformed)]
      refine ⟨⟨fun _ => ⟨hgroup, hformed⟩, fun _ => ⟨tree, rfl⟩⟩, ?_, nofun⟩
      intro tree' heq
      cases heq
      obtain ⟨c, hc, hmirrors⟩ := exists_mirrors hformed []
      cases htree.symm.trans hc
      exact hmirrors
    · rw [if_neg (mt (problems_eq_nil_iff [] _).mp hformed)]
      refine ⟨⟨fun ⟨_, h⟩ => (nomatch h), fun h => absurd h.2 hformed⟩, nofun, ?_⟩
      intro problems heq
      cases heq
      exact reported_of_group hgroup
  · rw [read_of_not_isGroup hgroup]
    refine ⟨⟨fun ⟨_, h⟩ => (nomatch h), fun h => absurd h.1 hgroup⟩, nofun, ?_⟩
    intro problems heq
    cases heq
    exact reported_of_not_group hgroup

/-- A group without a join, whose first member is no object. -/
def crooked : Value :=
  .object [("conditions", .list [.text "flow", .object [("observation_type_id", .text "flow")]])]

theorem crooked_reported :
    read crooked = .error [⟨[], .badJoin⟩, ⟨[0], .notObject "str"⟩] ∧
    Reported crooked [⟨[], .badJoin⟩, ⟨[0], .notObject "str"⟩] := by
  have hread : read crooked = .error [⟨[], .badJoin⟩, ⟨[0], .notObject "str"⟩] := by rfl
  exact ⟨hread, (read_exact crooked).2.2 _ hread⟩

end Criteria

end PropertyRisk
