import PropertyRisk.Proofs.Founded
import PropertyRisk.Proofs.Visits

/-!
# The enforced workflow

`Backing.forward_or_mitigated`: where the workflow is enforced, no call moves a
vulnerability back, whatever befalls its requests, except that a mitigation
applied to a resolved one moves it to review. An update of a status that would
move one back is refused and changes nothing.
-/

namespace PropertyRisk

open Op (Triple Keeps)
open Engine

theorem isRegression_named (a b : Status) :
    isRegression (.text a.name) (.text b.name) = .ok (decide (b.rank < a.rank)) := by
  cases a <;> cases b <;> decide

namespace View

variable {S : Type} {v : View S} {tag spot : Value → Value} {w w' u : World S}

/-- What a change makes of the vulnerabilities: all but one are as they were. -/
theorem Turns.of_update {id : Value} {change : VulnerabilityChange} {y : Vulnerability}
    (ht : v.Turns tag spot w (.updateVulnerability id change) w')
    (hy : y ∈ (v.records w'.store).vulnerabilities.records) :
    y ∈ (v.records w.store).vulnerabilities.records ∨
      ∃ s x, v.name .updateVulnerability id = .ok (some s) ∧
        (v.records w.store).vulnerabilities.get? (.text s) = some x ∧ x.Same y ∧
        y.status = (change.status.map tag).getD x.status := by
  cases ht.2 with
  | same h => exact .inl (h ▸ hy)
  | opened hd => cases hd
  | changed hc hn hget hsame hstatus h =>
    cases hc
    rcases Shelf.mem_records_put (h ▸ hy) with rfl | hy
    · exact .inr ⟨_, _, hn, hget, hsame, hstatus⟩
    · exact .inl hy
  | deleted h => exact .inl (Shelf.mem_records_of_erase (h ▸ hy))

/-- A state in which no vulnerability has moved back since another one. What is
new has an id that was issued since. -/
structure Ahead (v : View S) (w u : World S) : Prop where
  follows : w.Follows u
  forward : ∀ y ∈ (v.records u.store).vulnerabilities.records,
    (∃ x ∈ (v.records w.store).vulnerabilities.records, x.id = y.id ∧
      isRegression x.status y.status = .ok false) ∨
      ∃ n, w.issued < n ∧ n ≤ u.issued ∧ y.id = .text (w.idOf n)

namespace Ahead

theorem refl (h : v.Numbered w) : v.Ahead w w := by
  refine ⟨.refl w, fun y hy => .inl ⟨y, hy, rfl, ?_⟩⟩
  obtain ⟨st, hst⟩ := h.named y hy
  rw [hst, isRegression_named, decide_eq_false (Nat.lt_irrefl _)]

/-- A request that leaves the statuses moves nothing back. -/
theorem step (h : v.Ahead w u) {r : Request α} (hr : r.IsStill)
    (ht : v.Turns tag spot u r w') : v.Ahead w w' := by
  obtain ⟨hf, he⟩ := ht
  refine ⟨⟨hf.clock.trans h.follows.clock, hf.idOf.trans h.follows.idOf,
    Nat.le_trans h.follows.issued hf.issued⟩, fun y hy => ?_⟩
  have hlater {y : Vulnerability} : (∃ n, w.issued < n ∧ n ≤ u.issued ∧ y.id = .text (w.idOf n)) →
      ∃ n, w.issued < n ∧ n ≤ w'.issued ∧ y.id = .text (w.idOf n) :=
    fun ⟨n, hn, hle, hid⟩ => ⟨n, hn, Nat.le_trans hle hf.issued, hid⟩
  have hold {y : Vulnerability} (hy : y ∈ (v.records u.store).vulnerabilities.records) :=
    (h.forward y hy).imp_right hlater
  cases he with
  | same hsame => exact hold (hsame ▸ hy)
  | opened _ hid hx hissued hput =>
    rcases Shelf.mem_records_put (hput ▸ hy) with rfl | hy
    · refine .inr ⟨_, Nat.lt_succ_of_le h.follows.issued, Nat.le_of_eq hissued.symm, ?_⟩
      rw [hid, h.follows.idOf]
    · exact hold hy
  | changed hc hn hget hsame hstatus hput =>
    rcases Shelf.mem_records_put (hput ▸ hy) with rfl | hy
    · rw [hr.still _ _ hc] at hstatus
      rw [hsame.id, hstatus]
      exact hold (Shelf.mem_records_of_get? hget)
    · exact hold hy
  | deleted herase => exact hold (Shelf.mem_records_of_erase (herase ▸ hy))

/-- A vulnerability that was there has not moved back. -/
theorem isRegression (h : v.Ahead w u) (hw : v.Numbered w) {x y : Vulnerability}
    (hx : x ∈ (v.records w.store).vulnerabilities.records)
    (hy : y ∈ (v.records u.store).vulnerabilities.records) (hid : y.id = x.id) :
    isRegression x.status y.status = .ok false := by
  rcases h.forward y hy with ⟨z, hz, hzy, hmove⟩ | ⟨n, hn, -, hyn⟩
  · cases hw.shelved.eq_of_id hz hx (hzy.trans hid)
    exact hmove
  · obtain ⟨m, hm, hxm⟩ := hw.issued x hx
    have := hw.injective (Value.text.inj (hyn.symm.trans (hid.trans hxm)))
    omega

end Ahead

end View

namespace Backing

variable {b : Backing} {w : World b.Store} {policy : Policy} {plan : List Storage.Mishap}

/-! ## Moves by hand -/

section

variable (hw : b.view.Numbered w) {id : Value}
include hw

/-- A change by hand is the only one that the call makes. -/
theorem keeps_change {change : VulnerabilityChange} (hc : change.IsWorkflow) :
    Keeps (fun t => b.view.Turns b.tag b.spot w (.updateVulnerability id change) t.1)
      (Vulnerabilities.change b.storage.faulty id change) (w, plan) := by
  refine Keeps.bind (Storage.triple_faulty (b.keeps_turns hw.shelved ?_) plan
    (fun _ => .refl w _) (fun _ _ _ h => h) fun _ _ _ h => h) fun found t h => ?_
  · rintro _ _ ⟨⟩
    exact hc
  cases found
  · exact Triple.throw h
  · exact Triple.pure h

theorem keeps_applyMitigation (plan : List Storage.Mishap) (id valueId description : Value) :
    Keeps (fun t => ∃ change : VulnerabilityChange,
        change.status = some (.text Status.inReview.name) ∧
          b.view.Turns b.tag b.spot w (.updateVulnerability id change) t.1)
      (Vulnerabilities.applyMitigation b.storage.faulty id valueId description) (w, plan) := by
  refine Triple.bind_run (run_now_faulty w plan) ?_
  have hc : VulnerabilityChange.IsWorkflow
      { status := some (.text Status.inReview.name), mitigationValueId := some valueId
        mitigationDescription := some description, updatedAt := some (.text w.clock.text) } :=
    ⟨rfl, rfl, rfl, rfl, rfl, fun _ h => ⟨_, (Option.some.inj h).symm⟩, rfl⟩
  exact (keeps_change hw hc).imp fun _ h => ⟨_, rfl, h⟩

/-- An update of a status sets it on what the id names, which where the workflow
is enforced does not move back by that. -/
theorem keeps_updateStatus (plan : List Storage.Mishap) (id : Value) (enforced : Bool)
    (status notes : Value) :
    Keeps (fun t => t.1 = w ∨ ∃ (st : Status) (change : VulnerabilityChange),
        change.status = some (.text st.name) ∧
          b.view.Turns b.tag b.spot w (.updateVulnerability id change) t.1 ∧
          (enforced → ∀ s x, b.view.name .updateVulnerability id = .ok (some s) →
            (b.view.records w.store).vulnerabilities.get? (.text s) = some x →
            isRegression x.status (.text st.name) = .ok false))
      (Vulnerabilities.updateStatus b.storage.faulty enforced id status notes) (w, plan) := by
  unfold Vulnerabilities.updateStatus
  simp only
  split
  · exact Triple.throw (.inl rfl)
  rename_i hknown
  obtain ⟨st, hst⟩ := Option.ne_none_iff_exists'.mp (by simpa using hknown)
  have hname : status.plain = st.name := by simpa [eq_comm] using List.find?_some hst
  rw [hname]
  -- What is read is what the change will be made of.
  have hget : Triple (Vulnerabilities.get b.storage.faulty id) (w, plan)
      (fun x t => t.1 = w ∧ ∀ s y, b.view.name .updateVulnerability id = .ok (some s) →
        (b.view.records w.store).vulnerabilities.get? (.text s) = some y → y = x)
      (fun _ t => t.1 = w) := by
    refine Triple.bind (Storage.triple_faulty (b.triple_getVulnerability id hw.shelved) plan
      (fun _ => rfl) (fun _ _ _ h => h.1) fun _ _ _ h => h) ?_
    rintro (_ | x) t ⟨ht, hx⟩
    · exact Triple.throw ht
    · obtain ⟨s, hs, hsx⟩ := hx x rfl
      refine Triple.pure ⟨ht, fun s' y hs' hy => ?_⟩
      cases hs.symm.trans hs'
      exact Option.some.inj (hy.symm.trans hsx)
  refine Triple.bind (hget.mono (fun _ _ h => h) fun _ _ h => .inl h) ?_
  rintro x ⟨u, rest⟩ ⟨rfl, hx⟩
  refine Triple.bind_ofExcept (fun _ => .inl rfl) fun backwards hback => ?_
  split
  · exact Triple.throw (.inl rfl)
  rename_i hfree
  refine Triple.bind_run (run_now_faulty u rest) ?_
  refine Keeps.bind (Keeps.of_triple (keeps_change hw ⟨rfl, rfl, rfl, rfl, rfl,
    fun _ h => ⟨_, (Option.some.inj h).symm⟩, rfl⟩) ?_ ?_) fun _ _ h => Triple.pure h
  all_goals
    refine fun _ t ht => .inr ⟨st, _, rfl, ht, fun he s y hs hy => ?_⟩
    cases hx s y hs hy
    rw [hback]
    simpa [he] using hfree

end

/-! ## Calls -/

/-- A call that sets no status by hand moves nothing back. -/
theorem ahead_of_still (hw : b.view.Numbered w) {c : Call} (hc : c.isStatusMove = false) :
    b.view.Ahead w (b.after policy plan c w) := by
  have hg : b.storage.Meets (b.contract (fun u => b.view.Numbered u ∧ b.view.Ahead w u)
      Request.IsStill) :=
    meets (fun _ h => h.1.shelved) (fun hr => hr.workflow)
      fun hr h ht => ⟨h.1.step b.tag_text hr.proper ht, h.2.step hr ht⟩
  exact (keeps_call hg (fun hr => hr.still hc) policy plan ⟨hw, .refl hw⟩).2

/-- What a status set by hand makes of one vulnerability. -/
theorem eq_or_set (hw : b.view.Numbered w) {u : World b.Store} {id : Value} {st : Status}
    {change : VulnerabilityChange} (hst : change.status = some (.text st.name))
    (ht : b.view.Turns b.tag b.spot w (.updateVulnerability id change) u) {x y : Vulnerability}
    (hx : x ∈ (b.view.records w.store).vulnerabilities.records)
    (hy : y ∈ (b.view.records u.store).vulnerabilities.records) (hid : y.id = x.id) :
    y = x ∨ y.status = .text st.name ∧ ∃ s, b.view.name .updateVulnerability id = .ok (some s) ∧
      (b.view.records w.store).vulnerabilities.get? (.text s) = some x := by
  rcases ht.of_update hy with hy | ⟨s, z, hs, hz, hsame, hstatus⟩
  · exact .inl (hw.shelved.eq_of_id hy hx hid)
  · cases hw.shelved.eq_of_id (Shelf.mem_records_of_get? hz) hx (hsame.id.symm.trans hid)
    rw [hst] at hstatus
    exact .inr ⟨hstatus.trans (b.tag_text _), s, hs, hz⟩

theorem run_updateStatus_regression {id status notes : Value} {x : Vulnerability} {st : Status}
    (hget : (b.storage.perform (.getVulnerability id)).run w = (.ok (some x), w))
    (hst : status.plain = st.name) (hback : isRegression x.status (.text st.name) = .ok true)
    (he : policy.enforced = true) (hplan : plan.head?.getD .passes = .passes) :
    ((Call.updateStatus id status notes).run policy b.storage.faulty).run (w, plan) =
      (.error (.invalid (.regression x.status st.name)), (w, plan.tail)) := by
  have hread : (Vulnerabilities.get b.storage.faulty id).run (w, plan) = (.ok x, (w, plan.tail)) := by
    refine (Op.run_bind_ok (a := some x) (t := (w, plan.tail)) ?_).trans rfl
    rw [Storage.run_faulty hplan, hget]
  simp only [Call.run, Op.run_map, Vulnerabilities.updateStatus, hst, Status.ofName?_name,
    Option.isNone_some, Bool.false_eq_true, if_false, Op.run_bind, hread, hback, Op.run_ofExcept_ok,
    he, Bool.and_true, if_true, Op.run_throw, Except.map]

/-- Where the workflow is enforced, a vulnerability moves back by a mitigation of a
resolved one only, and an update of a status that would move one back is refused. -/
theorem forward_or_mitigated (h : b.Visited (fun _ _ _ => True) w) (he : policy.enforced = true)
    (plan : List Storage.Mishap) (c : Call) :
    (∀ x ∈ b.vulnerabilities w.store, ∀ y ∈ b.vulnerabilities (b.after policy plan c w).store,
      y.id = x.id → isRegression x.status y.status = .ok false ∨
        ∃ id valueId description, c = .applyMitigation id valueId description ∧ b.Names id x ∧
          x.status = .text Status.resolved.name ∧ y.status = .text Status.inReview.name) ∧
    ∀ id status notes x, ∀ st : Status, c = .updateStatus id status notes →
      (b.storage.perform (.getVulnerability id)).run w = (.ok (some x), w) →
      status.plain = st.name → isRegression x.status (.text st.name) = .ok true →
      plan.head?.getD .passes = .passes →
      (c.run policy b.storage.faulty).run (w, plan) =
        (.error (.invalid (.regression x.status st.name)), (w, plan.tail)) := by
  have hw := h.numbered
  refine ⟨fun x hx y hy hid => ?_, ?_⟩
  · rw [← b.records_vulnerabilities] at hx hy
    obtain ⟨from_, hfrom⟩ := hw.named x hx
    have hstay : isRegression x.status x.status = .ok false := by
      rw [hfrom, isRegression_named, decide_eq_false (Nat.lt_irrefl _)]
    cases hc : c.isStatusMove with
    | false => exact .inl ((ahead_of_still hw hc).isRegression hw hx hy hid)
    | true =>
      cases c <;> try exact Bool.noConfusion hc
      case applyMitigation id valueId description =>
        obtain ⟨change, hset, ht⟩ :=
          ((keeps_applyMitigation hw plan id valueId description).map
            Reply.vulnerability).state
        rcases eq_or_set hw hset ht hx hy hid with rfl | ⟨hstatus, s, hs, hget⟩
        · exact .inl hstay
        · -- a mitigation leads to review, which is a step back from resolved only
          rw [hfrom, hstatus, isRegression_named]
          cases from_ <;> try exact .inl rfl
          exact .inr ⟨id, valueId, description, rfl, ⟨s, hs, (hw.shelved.id_of_get? hget).2⟩, rfl, rfl⟩
      case updateStatus id status notes =>
        rcases ((keeps_updateStatus hw plan id policy.enforced status notes).map
          Reply.statusChange).state with hsame | ⟨st, change, hset, ht, hmove⟩
        · have hy : y ∈ (b.view.records w.store).vulnerabilities.records := hsame ▸ hy
          exact .inl (hw.shelved.eq_of_id hy hx hid ▸ hstay)
        · rcases eq_or_set hw hset ht hx hy hid with rfl | ⟨hstatus, s, hs, hget⟩
          · exact .inl hstay
          · exact .inl (hstatus ▸ hmove he s x hs hget)
  · rintro id status notes x st rfl hget hst hback hplan
    exact run_updateStatus_regression hget hst hback he hplan

/-! ## A resolved vulnerability -/

/-- A vulnerability that was opened and then resolved. -/
def resolved : World Memory :=
  memory.after { enforced := true } [] (.updateStatus (.text "a") (.text "resolved") .null) <|
    memory.after { enforced := true } []
      (.createVulnerability (.text "r") (.text "v") (.int 7) .null) (start .memory)

theorem visited_resolved : memory.Visited (fun _ _ _ => True) resolved :=
  .call _ _ trivial (.call _ _ trivial (.empty _ 0 letters letters_injective isWhole_letters))

theorem reopening_refused :
    ((Call.updateStatus (.text "a") (.text "open") .null).run { enforced := true }
        memory.storage.faulty).run (resolved, []) =
      (.error (.invalid (.regression (.text "resolved") "open")), (resolved, [])) :=
  (forward_or_mitigated visited_resolved rfl [] _).2 (.text "a") (.text "open") .null
    { Vulnerability.opened "a" "r" "v" (.int 7) "2024-01-01T00:00:00+00:00" with
      status := .text "resolved" } .opened rfl rfl rfl (by decide) rfl

/-- A mitigation moves a resolved vulnerability back to review. -/
theorem mitigated_after_resolved :
    ∃ x ∈ memory.vulnerabilities resolved.store,
      ∃ y ∈ memory.vulnerabilities (memory.after { enforced := true } []
        (.applyMitigation (.text "a") (.text "m") (.text "d")) resolved).store,
        y.id = x.id ∧ isRegression x.status y.status = .ok true := by
  decide +kernel

end Backing

end PropertyRisk
