import PropertyRisk.Proofs.Upkeep
import Mathlib

/-!
# What a judgement depends on

`Condition.judged_on_first`: a tree is judged on the first observation of each type that one of
its leaves names, and on nothing else. So it makes no difference what else was observed, what was
observed again, or in which order things of different types were.

The types that matter are those of the leaves, and these are looked up when the tree is checked
against the catalog. So a tree that passes the check depends on known types only.
-/

namespace PropertyRisk

open Op (Triple)
open Engine Engine.Rules

/-! ## The first observation of a type -/

section

variable {t : String} {os os' before after : List Observation} {o : Observation}

theorem firstOf_append (t : String) (before after : List Observation) :
    firstOf t (before ++ after) = (firstOf t before).or (firstOf t after) :=
  List.find?_append

/-- An observation of another type is passed over, wherever it stands. -/
theorem firstOf_insert_of_ne (h : o.typeId ≠ t) :
    firstOf t (before ++ o :: after) = firstOf t (before ++ after) := by
  have hpass : firstOf t (o :: after) = firstOf t after :=
    List.find?_cons_of_neg (by simpa using h)
  rw [firstOf_append, hpass, firstOf_append]

/-- An observation after one of the same type is passed over. -/
theorem firstOf_insert_of_mem (h : ∃ p ∈ before, p.typeId = o.typeId) :
    firstOf t (before ++ o :: after) = firstOf t (before ++ after) := by
  by_cases hot : o.typeId = t
  · obtain ⟨p, hp, hpo⟩ := h
    have hfound : (firstOf t before).isSome := by
      rw [firstOf, List.find?_isSome]
      exact ⟨p, hp, by simp [hpo, hot]⟩
    obtain ⟨q, hq⟩ := Option.isSome_iff_exists.mp hfound
    rw [firstOf_append, firstOf_append, hq, Option.some_or, Option.some_or]
  · exact firstOf_insert_of_ne hot

/-- The observations of a type tell the first of them. -/
theorem firstOf_congr (h : os.filter (·.typeId = t) = os'.filter (·.typeId = t)) :
    firstOf t os = firstOf t os' := by
  have hhead (xs : List Observation) : firstOf t xs = (xs.filter (·.typeId = t)).head? :=
    List.head?_filter.symm
  rw [hhead, h, hhead]

/-- The observations of other types than `u` tell the first one of each of these. -/
theorem firstOf_congr_of_ne {u : String} (hne : t ≠ u)
    (h : os.filter (·.typeId ≠ u) = os'.filter (·.typeId ≠ u)) : firstOf t os = firstOf t os' := by
  refine firstOf_congr ?_
  have hpass (xs : List Observation) :
      (xs.filter (·.typeId ≠ u)).filter (·.typeId = t) = xs.filter (·.typeId = t) := by
    rw [List.filter_filter]
    refine List.filter_congr fun x _ => ?_
    by_cases hx : x.typeId = t <;> simp [hx, hne]
  rw [← hpass os, h, hpass os']

/-- Where no type is observed twice, the first observation of a type is the one there is. -/
theorem firstOf_eq_some_iff (hnd : (os.map (·.typeId)).Nodup) :
    firstOf t os = some o ↔ o ∈ os ∧ o.typeId = t := by
  constructor
  · intro h
    exact ⟨List.mem_of_find?_eq_some h, by simpa using List.find?_some h⟩
  · rintro ⟨ho, hot⟩
    have hfound : (firstOf t os).isSome := by
      rw [firstOf, List.find?_isSome]
      exact ⟨o, ho, by simp [hot]⟩
    obtain ⟨p, hp⟩ := Option.isSome_iff_exists.mp hfound
    have hpt : p.typeId = t := by simpa using List.find?_some hp
    rw [hp, List.inj_on_of_nodup_map hnd (List.mem_of_find?_eq_some hp) ho (hpt.trans hot.symm)]

theorem firstOf_perm (hnd : (os.map (·.typeId)).Nodup) (h : os.Perm os') :
    firstOf t os = firstOf t os' := by
  have hnd' : (os'.map (·.typeId)).Nodup := (h.map _).nodup_iff.mp hnd
  ext o
  rw [firstOf_eq_some_iff hnd, firstOf_eq_some_iff hnd', h.mem_iff]

end

/-! ## Trees -/

namespace Condition

variable {os os' : List Observation}

/-! Members are judged one after the other, so the run over one list is followed step by step
along the run over the other: where the one stops, be it at an error, so does the other. -/

mutual

theorem evaluate_congr : ∀ {c : Condition},
    (∀ l ∈ c.leaves, firstOf l.typeId os = firstOf l.typeId os') → evaluate os c = evaluate os' c
  | .leaf l, h => by
    rw [evaluate, evaluate, Leaf.evaluate, Leaf.evaluate, h l (by simp [leaves])]
  | .group _ [], _ => by simp only [evaluate]
  | .group .and (c :: rest), h => allHold_congr h
  | .group .or (c :: rest), h => anyHolds_congr h

theorem allHold_congr : ∀ {cs : List Condition},
    (∀ l ∈ leavesOf cs, firstOf l.typeId os = firstOf l.typeId os') → allHold os cs = allHold os' cs
  | [], _ => by simp only [allHold]
  | c :: rest, h => by
    rw [allHold, allHold, evaluate_congr fun l hl => h l (List.mem_append_left _ hl),
      allHold_congr fun l hl => h l (List.mem_append_right _ hl)]

theorem anyHolds_congr : ∀ {cs : List Condition},
    (∀ l ∈ leavesOf cs, firstOf l.typeId os = firstOf l.typeId os') →
      anyHolds os cs = anyHolds os' cs
  | [], _ => by simp only [anyHolds]
  | c :: rest, h => by
    rw [anyHolds, anyHolds, evaluate_congr fun l hl => h l (List.mem_append_left _ hl),
      anyHolds_congr fun l hl => h l (List.mem_append_right _ hl)]

end

/-- Two lists of observations that differ in those of one type only can be judged differently. -/
def DependsOn (c : Condition) (t : String) : Prop :=
  ∃ os os', os.filter (·.typeId ≠ t) = os'.filter (·.typeId ≠ t) ∧ evaluate os c ≠ evaluate os' c

/-- A tree depends on no type but those that its leaves name. -/
theorem DependsOn.mem {c : Condition} {t : String} (h : c.DependsOn t) :
    ∃ l ∈ c.leaves, l.typeId = t := by
  by_contra hnone
  obtain ⟨os, os', hothers, hne⟩ := h
  refine hne (evaluate_congr fun l hl => firstOf_congr_of_ne (fun hlt => ?_) hothers)
  exact hnone ⟨l, hl, hlt⟩

end Condition

/-! ## The types that a check looks up -/

namespace Engine.Rules

variable {σ : Type} {g : Storage σ} {s : σ}

theorem of_missingTypes {ids : List String} (h : missingTypes ids = []) : ids = [] := by
  cases ids with
  | nil => rfl
  | cons id rest => cases h

/-- Where no type is missing, each that a leaf names was looked up and found. -/
theorem triple_typeProblems_found (leaves : List Leaf) :
    Triple (typeProblems g leaves) s
      (fun problems _ => problems = [] → ∀ l ∈ leaves, ∃ found s',
        (g.perform (.getObservationTypes
          ((distinctSorted (leaves.map Leaf.typeId)).map .text))).run s = (.ok found, s') ∧
        ∃ ty ∈ found, ty.id = .text l.typeId)
      (fun _ _ => True) := by
  have hasked {l : Leaf} (hl : l ∈ leaves) : l.typeId ∈ distinctSorted (leaves.map Leaf.typeId) :=
    mem_distinctSorted.mpr (List.mem_map_of_mem hl)
  simp only [typeProblems]
  split
  case isTrue hnone =>
    refine Triple.pure fun _ l hl => ?_
    rw [List.isEmpty_iff.mp hnone] at hasked
    exact nomatch hasked hl
  case isFalse =>
    refine Triple.bind (Triple.of_forall (E := fun _ _ => True) (fun _ _ hrun => hrun)
      fun _ _ _ => trivial) fun found s' hrun => Triple.pure ?_
    intro hno l hl
    refine ⟨found, s', hrun, ?_⟩
    by_contra hmissing
    have hmem : l.typeId ∈ missing (distinctSorted (leaves.map Leaf.typeId))
        (found.map ObservationType.id) := by
      refine List.mem_filter.mpr ⟨hasked hl, ?_⟩
      rw [Bool.not_eq_true', ← Bool.not_eq_true, List.contains_iff_mem, List.mem_map]
      rintro ⟨ty, hty, hid⟩
      exact hmissing ⟨ty, hty, hid⟩
    rw [of_missingTypes hno] at hmem
    exact nomatch hmem

theorem triple_checkTree_found (document : Value) :
    Triple (checkTree g document) s
      (fun tree _ => ∀ l ∈ tree.leaves, ∃ found s',
        (g.perform (.getObservationTypes
          ((distinctSorted (tree.leaves.map Leaf.typeId)).map .text))).run s = (.ok found, s') ∧
        ∃ ty ∈ found, ty.id = .text l.typeId)
      (fun _ _ => True) := by
  refine Triple.bind (Q := fun _ t => t = s) (Triple.orElse (fun _ _ => rfl) fun _ _ => trivial) ?_
  rintro tree _ rfl
  refine (triple_typeProblems_found tree.leaves).bind fun types t htypes => ?_
  refine Triple.bind (Triple.of_forall (Q := fun _ _ => True) (fun _ _ _ => trivial)
    fun _ _ _ => trivial) fun values u _ => ?_
  split
  case h_1 hno => exact Triple.pure (htypes (List.append_eq_nil_iff.mp hno).1)
  case h_2 => exact Triple.throw trivial

end Engine.Rules

namespace Condition

/-- A tree is judged on the first observations of the types of its leaves. What is not one of
these can come, go or be moved, and the catalog is asked for all of these types. -/
theorem judged_on_first :
    (∀ (c : Condition) (os os' : List Observation),
      (∀ l ∈ c.leaves, firstOf l.typeId os = firstOf l.typeId os') →
        evaluate os c = evaluate os' c) ∧
    (∀ (c : Condition) (before after : List Observation) (o : Observation),
      ((∀ l ∈ c.leaves, o.typeId ≠ l.typeId) ∨ ∃ p ∈ before, p.typeId = o.typeId) →
        evaluate (before ++ o :: after) c = evaluate (before ++ after) c) ∧
    (∀ (c : Condition) (os os' : List Observation),
      ((∀ l ∈ c.leaves, os.filter (·.typeId = l.typeId) = os'.filter (·.typeId = l.typeId)) ∨
        (os.map (·.typeId)).Nodup ∧ os.Perm os') →
          evaluate os c = evaluate os' c) ∧
    ∀ {σ : Type} (g : Storage σ) (s s' : σ) (document : Value) (tree : Criteria) (t : String),
      (checkTree g document).run s = (.ok tree, s') → tree.toCondition.DependsOn t →
        ∃ found s'', (g.perform (.getObservationTypes
            ((distinctSorted (tree.leaves.map Leaf.typeId)).map .text))).run s = (.ok found, s'') ∧
          ∃ ty ∈ found, ty.id = .text t := by
  refine ⟨fun c os os' h => evaluate_congr h, fun c before after o h => ?_,
    fun c os os' h => ?_, fun g s s' document tree t hchecked hdepends => ?_⟩
  case refine_1 =>
    refine evaluate_congr fun l hl => ?_
    rcases h with hother | hbefore
    · exact firstOf_insert_of_ne (hother l hl)
    · exact firstOf_insert_of_mem hbefore
  case refine_2 =>
    refine evaluate_congr fun l hl => ?_
    rcases h with hkept | ⟨hnd, hperm⟩
    · exact firstOf_congr (hkept l hl)
    · exact firstOf_perm hnd hperm
  case refine_3 =>
    obtain ⟨l, hl, rfl⟩ := hdepends.mem
    rw [Criteria.leaves_toCondition] at hl
    exact (triple_checkTree_found document).ok hchecked l hl

/-- A leaf on water that is dry, beside one on a roof. -/
def dryTree : Criteria :=
  ⟨.or, [.group .and [.leaf { typeId := "water", value := .text "no" }], .group .and []]⟩

/-- Water was not seen, and then it was; the roof has no part in it. -/
theorem dryTree_judged :
    (evaluate [⟨"water", none, .text "no"⟩, ⟨"water", none, .text "yes"⟩] dryTree.toCondition =
      evaluate [⟨"roof", none, .int 3⟩, ⟨"water", none, .text "no"⟩] dryTree.toCondition) ∧
    (evaluate [⟨"roof", none, .int 3⟩, ⟨"water", none, .text "no"⟩] dryTree.toCondition =
      evaluate [⟨"water", none, .text "no"⟩, ⟨"roof", none, .int 3⟩] dryTree.toCondition) ∧
    evaluate [⟨"water", none, .text "no"⟩, ⟨"roof", none, .int 3⟩] dryTree.toCondition =
      evaluate [⟨"water", none, .text "no"⟩] dryTree.toCondition ∧
    ∃ found s'', (Memory.storage.perform (.getObservationTypes [.text "water"])).run Backing.leaks =
        (.ok found, s'') ∧
      ∃ ty ∈ found, ty.id = .text "water" := by
  have hchecked : (checkTree Memory.storage dryTree.toValue).run Backing.leaks =
      (.ok dryTree, Backing.leaks) := by cbv
  have hdepends : dryTree.toCondition.DependsOn "water" :=
    ⟨[⟨"water", none, .text "no"⟩], [], by decide, by decide⟩
  have hasked : distinctSorted (dryTree.leaves.map Leaf.typeId) = ["water"] := by cbv
  refine ⟨judged_on_first.1 _ _ _ (by decide), judged_on_first.2.2.1 _ _ _ (.inr (by decide)),
    judged_on_first.2.1 _ [_] [] _ (.inl (by decide)), ?_⟩
  have hfound := judged_on_first.2.2.2 _ _ _ _ _ _ hchecked hdepends
  rwa [hasked] at hfound

end Condition

end PropertyRisk
