import PropertyRisk.Proofs.QuietCalls
import PropertyRisk.Proofs.Upkeep

/-!
# Sound states

In a sound state every vulnerability has its grounds: an assessment of its
property on which its rule triggers, unless the rule is gone. What a storage
writes keeps a state sound; a rule may be put in the place of another one only
if it triggers on everything that was found by it.
-/

namespace PropertyRisk

open Op (Triple Keeps Quiet)
open Engine

/-! ## Trees on nothing -/

namespace Condition

mutual

theorem evaluate_nil : ∀ c : Condition, evaluate [] c = .ok false
  | .leaf l => rfl
  | .group join [] => by simp [evaluate]
  | .group .and (c :: rest) => by simp [evaluate, allHold, evaluate_nil c]
  | .group .or (c :: rest) => by simp [evaluate, anyHolds_nil (c :: rest)]

theorem anyHolds_nil : ∀ cs : List Condition, anyHolds [] cs = .ok false
  | [] => rfl
  | c :: rest => by simp [anyHolds, evaluate_nil c, anyHolds_nil rest]

end

end Condition

/-- No tree triggers without observations. -/
theorem Criteria.evaluate_nil (c : Criteria) : c.evaluate [] = .ok false :=
  c.toCondition.evaluate_nil

/-! ## The invariant -/

/-- A tree triggers on the assessment of a vulnerability. -/
def Memory.Triggers (m : Memory) (tree : Criteria) (x : Vulnerability) : Prop :=
  ∃ s a, x.assessmentId = .text s ∧ m.assessments.get? (.text s) = some a ∧
    a.propertyId = x.propertyId ∧ tree.evaluate a.observations = .ok true

/-- The grounds of a vulnerability: an assessment of its property, on which its
rule triggers if there still is one. -/
def Memory.Grounds (m : Memory) (x : Vulnerability) : Prop :=
  ∃ s a, x.assessmentId = .text s ∧ m.assessments.get? (.text s) = some a ∧
    a.propertyId = x.propertyId ∧ ∀ t r, x.ruleId = .text t → m.rules.get? (.text t) = some r →
      r.tree.evaluate a.observations = .ok true

/-- A stored assessment. -/
def Memory.Records (m : Memory) (a : Assessment) : Prop :=
  ∃ s, a.id = .text s ∧ m.assessments.get? (.text s) = some a

namespace View

variable {S : Type} (v : View S)

structure Sound (recorded : List Assessment) (w : World S) : Prop extends v.Steady w where
  grounds : ∀ x ∈ (v.records w.store).vulnerabilities.records, (v.records w.store).Grounds x
  recorded : ∀ a ∈ recorded, (v.records w.store).Records a

variable {v} {w w' : World S} {as : List Assessment} {s : String}

namespace Sound

theorem mono {bs : List Assessment} (h : v.Sound bs w) (hs : ∀ a ∈ as, a ∈ bs) : v.Sound as w :=
  { h with recorded := fun a ha => h.recorded a (hs a ha) }

theorem drop_vulnerability (h : v.Sound as w) {operation : Operation} (id : Value)
    (hb : v.Becomes w { v.records w.store with
      vulnerabilities := v.drop operation id (v.records w.store).vulnerabilities } w') :
    v.Sound as w' where
  ready := hb.ready (h.ready.kept.drop_vulnerability _ _)
  supplied := hb.supplied h.supplied fun s hu => .inl <| by
    rcases hu with hu | hu | hu | ⟨x, hx, hr⟩
    · exact .inl hu
    · obtain ⟨p, hp, hk⟩ := List.mem_map.mp hu
      exact .inr (.inl (List.mem_map.mpr ⟨p, mem_of_mem_drop hp, hk⟩))
    · exact .inr (.inr (.inl hu))
    · exact .inr (.inr (.inr ⟨x, mem_records_of_drop hx, hr⟩))
  stamped := hb.records ▸ fun x hx => h.stamped x (mem_records_of_drop hx)
  grounds := hb.records ▸ fun x hx => h.grounds x (mem_records_of_drop hx)
  recorded := hb.records ▸ h.recorded

theorem drop_rule (h : v.Sound as w) {operation : Operation} (id : Value)
    (hb : v.Becomes w { v.records w.store with
      rules := v.drop operation id (v.records w.store).rules } w') : v.Sound as w' where
  ready := hb.ready (h.ready.kept.drop_rule _ _)
  supplied := hb.supplied h.supplied fun s hu => .inl <| by
    rcases hu with hu | hu
    · obtain ⟨p, hp, hk⟩ := List.mem_map.mp hu
      exact .inl (List.mem_map.mpr ⟨p, mem_of_mem_drop hp, hk⟩)
    · exact .inr hu
  stamped := hb.records ▸ h.stamped
  grounds := hb.records ▸ fun x hx => by
    obtain ⟨s, a, hs, ha, hp, ht⟩ := h.grounds x hx
    refine ⟨s, a, hs, ha, hp, fun t r hr hg => ht t r hr ?_⟩
    have hm := mem_of_mem_drop (Shelf.mem_of_get? hg)
    exact (Shelf.get?_eq_some_iff h.ready.kept.rules.distinct).mpr hm
  recorded := hb.records ▸ h.recorded

/-- A rule may be put in the place of another one, or under a new id, if it
triggers on everything that is said to be found by it. -/
theorem put_rule (h : v.Sound as w) {r : Rule} (hs : v.Plain s) (hr : r.id = .text s)
    (hu : (v.records w.store).Uses s ∨ ∃ n ≤ w'.issued, s = w.idOf n)
    (ht : ∀ x ∈ (v.records w.store).vulnerabilities.records, x.ruleId = .text s →
      (v.records w.store).Triggers r.tree x)
    (hb : v.Becomes w { v.records w.store with
      rules := (v.records w.store).rules.put (.text s) r } w') : v.Sound as w' where
  toSteady := h.toSteady.put_rule hs hr hu hb
  grounds := hb.records ▸ fun x hx => by
    obtain ⟨i, a, hi, ha, hp, hall⟩ := h.grounds x hx
    refine ⟨i, a, hi, ha, hp, fun t r' hrule hg => ?_⟩
    rw [Shelf.get?_put] at hg
    split at hg
    · rename_i hk
      cases hk
      cases hg
      obtain ⟨j, c, hj, hc, -, htrue⟩ := ht x hx hrule
      cases hi.symm.trans hj
      cases ha.symm.trans hc
      exact htrue
    · exact hall t r' hrule hg
  recorded := hb.records ▸ h.recorded

theorem put_assessment (h : v.Sound as w) {a : Assessment}
    (hid : a.id = .text (w.idOf (w.issued + 1))) (ha : v.Settled a.propertyId)
    (hi : w'.issued = w.issued + 1)
    (hb : v.Becomes w { v.records w.store with
      assessments := (v.records w.store).assessments.put (.text (w.idOf (w.issued + 1))) a } w') :
    v.Sound (a :: as) w' where
  toSteady := h.toSteady.put_assessment hid ha hi hb
  grounds := by
    rw [hb.records]
    intro x hx
    obtain ⟨t, c, ht, hc, hp, hall⟩ := h.grounds x hx
    exact ⟨t, c, ht, h.supplied.get?_put_assessment hc, hp, hall⟩
  recorded := by
    rw [hb.records]
    intro c hc
    rcases List.mem_cons.mp hc with rfl | hc
    · exact ⟨_, hid, by simp [Shelf.get?_put]⟩
    · obtain ⟨t, ht, hg⟩ := h.recorded c hc
      exact ⟨t, ht, h.supplied.get?_put_assessment hg⟩

/-- A vulnerability may be opened on a stored assessment by a rule that is stored
and triggers on it. -/
theorem put_opened (h : v.Sound as w) {a : Assessment} {r : Rule} {i t : String}
    (ha : (v.records w.store).assessments.get? (.text i) = some a)
    (hr : (v.records w.store).rules.get? (.text t) = some r)
    (htrue : r.tree.evaluate a.observations = .ok true) (hi : w'.issued = w.issued + 1)
    (hb : v.Becomes w { v.records w.store with
      vulnerabilities := (v.records w.store).vulnerabilities.put (.text (w.idOf (w.issued + 1)))
        (.opened (w.idOf (w.issued + 1)) t i a.propertyId w.clock.text) } w') :
    v.Sound as w' := by
  have hplain := (h.ready.kept.assessments.id_of_get? ha).1
  have hrule := (h.ready.kept.rules.id_of_get? hr).1
  refine ⟨h.toSteady.put_opened hrule hplain (.inl (Shelf.mem_keys_of_get? hr)) hi hb, ?_,
    hb.records ▸ h.recorded⟩
  rw [hb.records]
  intro x hx
  rcases Shelf.mem_records_put hx with rfl | hx
  · refine ⟨i, a, rfl, ha, rfl, fun t' r' ht hr' => ?_⟩
    cases ht
    cases hr.symm.trans hr'
    exact htrue
  · exact h.grounds x hx

theorem put_changed (h : v.Sound as w) {x y : Vulnerability}
    (hx : (v.records w.store).vulnerabilities.get? (.text s) = some x) (hs : x.Same y)
    (hb : v.Becomes w { v.records w.store with
      vulnerabilities := (v.records w.store).vulnerabilities.put (.text s) y } w') :
    v.Sound as w' := by
  have hmem := Shelf.mem_records_of_get? hx
  obtain ⟨hplain, hid⟩ := h.ready.kept.vulnerabilities.id_of_get? hx
  have hfound := (h.ready.kept.findings x hmem).same hs
  refine ⟨⟨hb.ready (h.ready.kept.put_vulnerability hplain (hs.id.trans hid) hfound), ?_, ?_⟩, ?_,
    hb.records ▸ h.recorded⟩
  · -- no id comes into use that was not in use before
    refine hb.supplied h.supplied fun t hm => .inl ?_
    rcases hm with hm | hm | hm | ⟨z, hz, hm⟩
    · exact .inl hm
    · rcases Shelf.mem_keys_put.mp hm with hk | hm
      · exact .inr (.inl (hk ▸ Shelf.mem_keys_of_get? hx))
      · exact .inr (.inl hm)
    · exact .inr (.inr (.inl hm))
    · rcases Shelf.mem_records_put hz with rfl | hz
      · exact .inr (.inr (.inr ⟨x, hmem, hs.ruleId ▸ hm⟩))
      · exact .inr (.inr (.inr ⟨z, hz, hm⟩))
  · rw [hb.records]
    intro z hz
    rcases Shelf.mem_records_put hz with rfl | hz
    · rw [hs.detectedAt]
      exact h.stamped x hmem
    · exact h.stamped z hz
  · rw [hb.records]
    intro z hz
    rcases Shelf.mem_records_put hz with rfl | hz
    · obtain ⟨i, a, hi, ha, hp, hall⟩ := h.grounds x hmem
      exact ⟨i, a, hs.assessmentId.trans hi, ha, hp.trans hs.propertyId.symm, fun t r ht hr =>
        hall t r (hs.ruleId ▸ ht) hr⟩
    · exact h.grounds z hz

/-- What changes catalogs only, or nothing. -/
theorem congr {m : Memory} (h : v.Sound as w) (hr : m.rules = (v.records w.store).rules)
    (hv : m.vulnerabilities = (v.records w.store).vulnerabilities)
    (ha : m.assessments = (v.records w.store).assessments) (hb : v.Becomes w m w') :
    v.Sound as w' := by
  have hgrounds (x : Vulnerability) : m.Grounds x ↔ (v.records w.store).Grounds x := by
    simp only [Memory.Grounds, hr, ha]
  refine ⟨⟨hb.ready (h.ready.kept.congr hr hv ha), ?_, ?_⟩, ?_, ?_⟩
  · refine hb.supplied h.supplied fun s hm => .inl ?_
    simpa only [Memory.Uses, hr, hv, ha] using hm
  · rw [hb.records, Memory.Stamped, hv]
    exact h.stamped
  · rw [hb.records, hv]
    exact fun x hx => (hgrounds x).mpr (h.grounds x hx)
  · rw [hb.records]
    intro c hc
    simpa only [Memory.Records, ha] using h.recorded c hc

end Sound

end View

end PropertyRisk
