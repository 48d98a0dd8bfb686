import PropertyRisk.Proofs.Comparable

/-!
# What a tree triggers on

`Condition.triggers_on_evidence`: a tree that triggers has a leaf that the first observation of
its type bears out, by one of the catalog values the leaf asks for or by a reading that compares
with its value. A tree without such a leaf, however its groups are joined, is judged false.

An observation without a catalog value is looked up as the empty id. So all of this is of trees
whose leaves do not list that id where one is observed without a catalog value.
-/

namespace PropertyRisk

/-! ## Leaves -/

namespace Leaf

variable {observations : List Observation} {l : Leaf}

/-- The observation has what the leaf asks for. -/
inductive Borne (l : Leaf) (o : Observation) : Prop
  | byId {ids : List String} {id : String} :
      l.valueIds = some ids → o.valueId = some id → id ∈ ids → Borne l o
  | byValue :
      l.valueIds = none → l.value ≠ .null → o.value ≠ .null →
        l.operator.compare o.value l.value = .ok true → Borne l o

/-- The fact that a leaf is about was observed: a catalog value, or a reading. -/
def Recorded (observations : List Observation) (l : Leaf) : Prop :=
  ∃ o, firstOf l.typeId observations = some o ∧
    match l.valueIds with
    | some _ => o.valueId ≠ none
    | none => o.value ≠ .null

/-- The leaf lists the empty id, and its type was observed without a catalog value. -/
def TakesAbsent (observations : List Observation) (l : Leaf) : Prop :=
  (∃ ids, l.valueIds = some ids ∧ "" ∈ ids) ∧
    ∃ o, firstOf l.typeId observations = some o ∧ o.valueId = none

theorem evaluate_of_first {o : Observation} (h : firstOf l.typeId observations = some o) :
    l.evaluate observations = l.holdsOf o := by
  rw [evaluate, h]

theorem evaluate_of_none (h : firstOf l.typeId observations = none) :
    l.evaluate observations = .ok false := by
  rw [evaluate, h]

theorem holdsOf_of_ids {ids : List String} (h : l.valueIds = some ids) (o : Observation) :
    l.holdsOf o = .ok (ids.contains (o.valueId.getD "")) := by
  rw [holdsOf, h]

/-- A leaf that triggers is borne out, unless it takes an absent catalog value for the empty
id. -/
theorem borne_of_evaluate (habsent : ¬l.TakesAbsent observations)
    (h : l.evaluate observations = .ok true) :
    ∃ o, firstOf l.typeId observations = some o ∧ l.Borne o := by
  cases hfirst : firstOf l.typeId observations with
  | none => cases (evaluate_of_none hfirst).symm.trans h
  | some o =>
    rw [evaluate_of_first hfirst] at h
    refine ⟨o, rfl, ?_⟩
    cases hids : l.valueIds with
    | some ids =>
      rw [holdsOf_of_ids hids] at h
      have hmem : o.valueId.getD "" ∈ ids := List.contains_iff_mem.mp (Except.ok.inj h)
      cases hid : o.valueId with
      | some id => exact .byId hids hid (by simpa [hid] using hmem)
      | none => exact absurd ⟨⟨ids, hids, by simpa [hid] using hmem⟩, o, hfirst, hid⟩ habsent
    | none =>
      simp only [holdsOf, hids] at h
      split at h
      case isTrue => cases h
      case isFalse hnull =>
        rw [not_or] at hnull
        exact .byValue hids hnull.1 hnull.2 h

/-- A leaf whose fact was not observed is judged false, and does not come to compare anything. -/
theorem evaluate_of_not_recorded (habsent : ¬l.TakesAbsent observations)
    (h : ¬l.Recorded observations) : l.evaluate observations = .ok false := by
  cases hfirst : firstOf l.typeId observations with
  | none => exact evaluate_of_none hfirst
  | some o =>
    rw [evaluate_of_first hfirst]
    cases hids : l.valueIds with
    | some ids =>
      have hid : o.valueId = none := by
        by_contra hne
        exact h ⟨o, hfirst, by rw [hids]; exact hne⟩
      have hempty : "" ∉ ids := fun hmem => habsent ⟨⟨ids, hids, hmem⟩, o, hfirst, hid⟩
      rw [holdsOf_of_ids hids, hid]
      simpa using hempty
    | none =>
      have hvalue : o.value = .null := by
        by_contra hne
        exact h ⟨o, hfirst, by rw [hids]; exact hne⟩
      simp only [holdsOf, hids, hvalue, or_true, if_true]

end Leaf

/-! ## Trees -/

namespace Condition

variable {observations : List Observation}

/-! A group never holds of itself: what it comes to is what some member came to. Members of a
group joined by `and` need no induction, since the first of them has to hold already. -/

mutual

theorem exists_leaf_of_evaluate : ∀ {c : Condition}, evaluate observations c = .ok true →
    ∃ l ∈ c.leaves, l.evaluate observations = .ok true
  | .leaf l, h => ⟨l, by simp [leaves], h⟩
  | .group _ [], h => nomatch h
  | .group .and (c :: rest), h => by
    rw [evaluate, allHold] at h
    cases hc : evaluate observations c with
    | error e => simp [hc] at h
    | ok t =>
      cases t with
      | false => simp [hc] at h
      | true =>
        obtain ⟨l, hl, htrue⟩ := exists_leaf_of_evaluate hc
        exact ⟨l, List.mem_append_left _ hl, htrue⟩
  | .group .or (c :: rest), h => exists_leaf_of_anyHolds h

theorem exists_leaf_of_anyHolds : ∀ {cs : List Condition}, anyHolds observations cs = .ok true →
    ∃ l ∈ leavesOf cs, l.evaluate observations = .ok true
  | [], h => nomatch h
  | c :: rest, h => by
    rw [anyHolds] at h
    cases hc : evaluate observations c with
    | error e => simp [hc] at h
    | ok t =>
      cases t with
      | true =>
        obtain ⟨l, hl, htrue⟩ := exists_leaf_of_evaluate hc
        exact ⟨l, List.mem_append_left _ hl, htrue⟩
      | false =>
        rw [hc] at h
        obtain ⟨l, hl, htrue⟩ := exists_leaf_of_anyHolds h
        exact ⟨l, List.mem_append_right _ hl, htrue⟩

end

mutual

theorem evaluate_of_leaves : ∀ {c : Condition},
    (∀ l ∈ c.leaves, l.evaluate observations = .ok false) → evaluate observations c = .ok false
  | .leaf l, h => h l (by simp [leaves])
  | .group _ [], _ => rfl
  | .group .and (c :: rest), h => by
    have hc : evaluate observations c = .ok false :=
      evaluate_of_leaves fun l hl => h l (List.mem_append_left _ hl)
    rw [evaluate, allHold, hc]
  | .group .or (c :: rest), h => anyHolds_of_leaves h

theorem anyHolds_of_leaves : ∀ {cs : List Condition},
    (∀ l ∈ leavesOf cs, l.evaluate observations = .ok false) →
      anyHolds observations cs = .ok false
  | [], _ => rfl
  | c :: rest, h => by
    have hc : evaluate observations c = .ok false :=
      evaluate_of_leaves fun l hl => h l (List.mem_append_left _ hl)
    rw [anyHolds, hc]
    exact anyHolds_of_leaves fun l hl => h l (List.mem_append_right _ hl)

end

/-- A tree triggers only on what was recorded. -/
theorem triggers_on_evidence {c : Condition}
    (habsent : ∀ l ∈ c.leaves, ¬l.TakesAbsent observations) :
    (c.evaluate observations = .ok true →
      ∃ l ∈ c.leaves, ∃ o, firstOf l.typeId observations = some o ∧ l.Borne o) ∧
    ((∀ l ∈ c.leaves, ¬l.Recorded observations) → c.evaluate observations = .ok false) ∧
    ∀ l ∈ c.leaves, ¬l.Recorded observations → l.evaluate observations = .ok false := by
  have hleaf : ∀ l ∈ c.leaves, ¬l.Recorded observations → l.evaluate observations = .ok false :=
    fun l hl hrecorded => Leaf.evaluate_of_not_recorded (habsent l hl) hrecorded
  refine ⟨fun htrue => ?_, fun hnone => ?_, hleaf⟩
  · obtain ⟨l, hl, hl'⟩ := exists_leaf_of_evaluate htrue
    obtain ⟨o, ho, hborne⟩ := Leaf.borne_of_evaluate (habsent l hl) hl'
    exact ⟨l, hl, o, ho, hborne⟩
  · exact evaluate_of_leaves fun l hl => hleaf l hl (hnone l hl)

/-- A broken window under an empty group, a leaf without a reading and a group that holds. -/
def windowTree : Condition :=
  .group .or [.group .and [], .leaf { typeId := "flow", value := .int 5 },
    .group .and [.leaf { typeId := "window", valueIds := some ["", "broken"] }]]

/-- The leaf lists the empty id too, which does no harm where a catalog value is observed. -/
theorem window_triggers :
    (∀ l ∈ windowTree.leaves, ¬l.TakesAbsent [⟨"window", some "broken", .null⟩]) ∧
    ∃ l ∈ windowTree.leaves, ∃ o,
      firstOf l.typeId [⟨"window", some "broken", .null⟩] = some o ∧ l.Borne o := by
  have habsent : ∀ l ∈ windowTree.leaves,
      ¬l.TakesAbsent [⟨"window", some "broken", .null⟩] := by
    simp [windowTree, leaves, leavesOf, Leaf.TakesAbsent, firstOf]
  exact ⟨habsent, (triggers_on_evidence habsent).1 (by rfl)⟩

/-- A leaf that lists the empty id holds of an observation without a catalog value. -/
theorem absent_taken :
    evaluate [⟨"window", none, .null⟩]
        (.group .and [.leaf { typeId := "window", valueIds := some [""] }]) = .ok true ∧
    ∀ l ∈ leaves (.group .and [.leaf { typeId := "window", valueIds := some [""] }]), ∀ o,
      firstOf l.typeId [⟨"window", none, .null⟩] = some o → ¬l.Borne o := by
  refine ⟨by rfl, ?_⟩
  intro l hl o ho hborne
  cases List.mem_singleton.mp hl
  cases ho
  cases hborne with
  | byId _ hid _ => cases hid
  | byValue hids _ _ _ => cases hids

end Condition

end PropertyRisk
