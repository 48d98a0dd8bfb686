import PropertyRisk.Proofs.Frames

/-!
# What requests make of the vulnerabilities

`Backing.keeps_effect`: whatever a request ends in, it has left the
vulnerabilities of its store as they were, or has done to one of them what
`View.Effect` says. Nothing else need be in order in the store.
-/

namespace PropertyRisk

open Op (Triple Keeps Quiet)

/-- Only a text equals a text. -/
theorem Value.eq_text_of_equal {x : Value} {s : String} (h : x.equal (.text s) = true) :
    x = .text s := by
  cases x <;> simp_all [Value.equal]

/-- A vulnerability as a store keeps it of a draft. -/
structure VulnerabilityDraft.KeptAs (d : VulnerabilityDraft) (tag spot : Value → Value)
    (now : String) (x : Vulnerability) : Prop where
  ruleId : x.ruleId = tag d.ruleId
  propertyId : x.propertyId = spot d.propertyId
  status : x.status = tag d.status
  detectedAt : x.detectedAt = tag (d.detectedAt.orElse (.text now))

namespace Request

/-- The vulnerability that a request is to open. -/
def opens? : Request α → Option VulnerabilityDraft
  | createVulnerability d => some d
  | _ => none

/-- The change of a vulnerability that a request asks for, and the id given. -/
def changes? : Request α → Option (Value × VulnerabilityChange)
  | updateVulnerability id change => some (id, change)
  | _ => none

/-- The id given of a vulnerability that a request is to delete. -/
def deletes? : Request α → Option Value
  | deleteVulnerability id => some id
  | _ => none

/-- Whether a request, if it changes a vulnerability, leaves what it was found by. -/
def IsWorkflow (r : Request α) : Prop :=
  ∀ id change, r.changes? = some (id, change) → change.IsWorkflow

end Request

/-- What a request may make of the vulnerabilities of a store, where `tag` and
`spot` are what it keeps of a reference and of a property. -/
inductive View.Effect (v : View S) (tag spot : Value → Value) (w w' : World S)
    (r : Request α) : Prop
  | same (h : (v.records w'.store).vulnerabilities = (v.records w.store).vulnerabilities)
  | opened {d : VulnerabilityDraft} {x : Vulnerability} (hr : r.opens? = some d)
      (hid : x.id = .text (w.idOf (w.issued + 1))) (hx : d.KeptAs tag spot w.clock.text x)
      (hissued : w'.issued = w.issued + 1)
      (h : (v.records w'.store).vulnerabilities =
        (v.records w.store).vulnerabilities.put (.text (w.idOf (w.issued + 1))) x)
  | changed {id : Value} {change : VulnerabilityChange} {s : String} {x y : Vulnerability}
      (hr : r.changes? = some (id, change)) (hs : v.name .updateVulnerability id = .ok (some s))
      (hx : (v.records w.store).vulnerabilities.get? (.text s) = some x) (hsame : x.Same y)
      (hstatus : y.status = (change.status.map tag).getD x.status)
      (h : (v.records w'.store).vulnerabilities =
        (v.records w.store).vulnerabilities.put (.text s) y)
      (hcreated : change.createdAt = none → y.createdAt = x.createdAt)
  | deleted {s : String}
      (h : (v.records w'.store).vulnerabilities =
        (v.records w.store).vulnerabilities.erase (.text s))
      {id : Value} (hr : r.deletes? = some id)
      (hs : v.name .deleteVulnerability id = .ok (some s))

/-- A view whose store does nothing else to its vulnerabilities. -/
abbrev View.Turns (v : View S) (tag spot : Value → Value) (w : World S) (r : Request α)
    (w' : World S) : Prop :=
  w.Follows w' ∧ v.Effect tag spot w w' r

theorem View.Turns.refl {v : View S} {tag spot : Value → Value} (w : World S) (r : Request α) :
    v.Turns tag spot w r w :=
  ⟨.refl w, .same rfl⟩

theorem View.Turns.of_beside {v : View S} {tag spot : Value → Value} {w w' : World S}
    {r : Request α} (h : w.Beside (fun s => (v.records s).vulnerabilities) w') :
    v.Turns tag spot w r w' :=
  ⟨h.1, .same h.2⟩

/-! ## In memory -/

namespace Memory

variable {w : World Memory} {tag spot : Value → Value} {r : Request α}

theorem keeps_updateVulnerability
    (hw : view.Shelved Vulnerability.id w.store.vulnerabilities) (id : Value)
    {change : VulnerabilityChange} (hc : change.IsWorkflow) :
    Keeps (view.Turns (fun x => x) spot w (.updateVulnerability id change))
      (updateVulnerability id change) w := by
  unfold Keeps Triple
  rw [run_updateVulnerability hw hc.others]
  rcases hf : view.look .updateVulnerability id w.store.vulnerabilities with _ | _ | x
  · exact .refl w _
  · exact .refl w _
  · obtain ⟨s, hn, hx⟩ := View.look_eq_some.mp hf
    cases eq_text_of_name hn
    refine ⟨⟨rfl, rfl, Nat.le_refl _⟩, .changed rfl hn hx (same_changed hc) ?_ rfl fun hnone => ?_⟩
    · simp [Vulnerability.changed]
    · simp [Vulnerability.changed, hnone]

theorem keeps_deleteVulnerability
    (hw : view.Shelved Vulnerability.id w.store.vulnerabilities) (id : Value) :
    Keeps (view.Turns tag spot w (.deleteVulnerability id)) (deleteVulnerability id) w := by
  refine Keeps.of_run (run_deleteVulnerability hw) ⟨⟨rfl, rfl, Nat.le_refl _⟩, ?_⟩
  unfold View.drop
  split
  · exact .deleted rfl rfl ‹_›
  · exact .same rfl

theorem keeps_turns (hw : view.Shelved Vulnerability.id w.store.vulnerabilities)
    (hr : r.IsWorkflow) :
    Keeps (view.Turns (fun x => x) (fun x => x) w r) (view.storage.perform r) w := by
  have hbeside (h : r.Spares Memory.vulnerabilities) :
      Keeps (view.Turns (fun x => x) (fun x => x) w r) (view.storage.perform r) w :=
    (keeps_beside h).imp fun _ => .of_beside (v := view)
  cases r with
  | createVulnerability d =>
    exact Keeps.of_run rfl ⟨⟨rfl, rfl, Nat.le_succ _⟩, .opened rfl rfl ⟨rfl, rfl, rfl, rfl⟩ rfl rfl⟩
  | updateVulnerability id change => exact keeps_updateVulnerability hw id (hr id change rfl)
  | deleteVulnerability id => exact keeps_deleteVulnerability hw id
  | createRule | updateRule | deleteRule | createAssessment | createObservationType
  | createObservationValue | createMitigationType | createMitigationValue =>
    exact hbeside fun _ _ => rfl
  | _ => exact hbeside trivial

end Memory

/-! ## In tables -/

namespace Tables

variable {w : World Tables} {r : Request α}

theorem spot_of_bound {operation : Operation} {x p : Value}
    (h : boundCell operation (Cell.number x) = .ok p) : spot x = p := by
  simp [spot, boundCell_eq_ok.mp h]

/-- A row that is not added leaves everything but the supply of ids as it was. -/
theorem triple_insertVulnerability (d : VulnerabilityDraft) :
    Triple (insertVulnerability d) w
      (fun id w' => id = w.idOf (w.issued + 1) ∧ ∃ row : VulnerabilityRow, row.id = id ∧
        d.KeptAs tag spot w.clock.text row.toVulnerability ∧
        w' = { w with store := w.store.withVulnerability id row, issued := w.issued + 1 })
      (fun e w' => e.isRejection = false ∧ w' = { w with issued := w.issued + 1 }) := by
  refine Triple.bind_run (World.run_now w) <| Triple.bind_run (World.run_fresh w) <|
    Triple.bind_run (World.run_stored _) ?_
  unfold prepare
  split
  case isFalse => exact Triple.throw ⟨rfl, rfl⟩
  simp only [pure_bind, bindText_eq, bindNumber_eq, notNull_eq, numberNotNull_eq]
  refine Triple.bind_check (fun _ he => ⟨accepted_of_boundCell he, rfl⟩) fun ruleId? hrule => ?_
  refine Triple.bind_check (fun _ he => ⟨accepted_of_boundCell he, rfl⟩) fun assessmentId? _ => ?_
  refine Triple.bind_check (fun _ he => ⟨accepted_of_boundCell he, rfl⟩) fun p hp => ?_
  refine Triple.bind_check (fun _ he => ⟨accepted_of_boundCell he, rfl⟩) fun status? hstatus => ?_
  refine Triple.bind_check (fun _ he => ⟨accepted_of_boundCell he, rfl⟩) fun time? htime => ?_
  iterate 4
    refine Triple.bind_check (fun _ he => ⟨accepted_of_boundCell he, rfl⟩) fun _ _ => ?_
  refine Triple.bind_check (fun _ he => ⟨accepted_of_requiredCell he, rfl⟩) fun ruleId hruleId => ?_
  refine Triple.bind_check (fun _ he => ⟨accepted_of_requiredCell he, rfl⟩) fun assessmentId _ => ?_
  refine Triple.bind_check (fun e he => ⟨?_, rfl⟩) fun place hplace => ?_
  · split at he <;> cases he
    rfl
  refine Triple.bind_check (fun _ he => ⟨accepted_of_requiredCell he, rfl⟩) fun status hset => ?_
  refine Triple.bind_check (fun _ he => ⟨accepted_of_requiredCell he, rfl⟩) fun time hread => ?_
  unfold Tables.insert
  split
  · exact Triple.of_run_error rfl ⟨rfl, rfl⟩
  · refine Triple.of_run rfl ⟨rfl, _, rfl, ⟨?_, ?_, ?_, ?_⟩, rfl⟩
    · exact (tag_of_bound hrule hruleId).symm
    · split at hplace <;> cases hplace
      exact (spot_of_bound hp).symm
    · exact (tag_of_bound hstatus hset).symm
    · exact (tag_of_bound htime hread).symm

theorem keeps_createVulnerability (d : VulnerabilityDraft) :
    Keeps (view.Turns tag spot w (.createVulnerability d))
      (view.storage.perform (.createVulnerability d)) w := by
  refine Triple.bind ((triple_insertVulnerability d).mono (fun _ _ h => h) ?_) ?_
  · rintro e w' ⟨-, rfl⟩
    exact .of_beside .issued
  · rintro id w' ⟨rfl, row, hid, hrow, rfl⟩
    refine (quiet_reread (r := .getVulnerability _)
      ((quiet_selectOne _ _ _).bind fun _ => .pure _)).keeps ⟨⟨rfl, rfl, Nat.le_succ _⟩, ?_⟩
    exact .opened rfl (congrArg Value.text hid) hrow rfl
      (congrArg Memory.vulnerabilities records_withVulnerability)

theorem keeps_updateVulnerability
    (hw : view.Shelved Vulnerability.id (records w.store).vulnerabilities) (id : Value)
    {change : VulnerabilityChange} (hc : change.IsWorkflow) :
    Keeps (view.Turns tag spot w (.updateVulnerability id change))
      (view.storage.perform (.updateVulnerability id change)) w := by
  refine Triple.bind ((triple_changeVulnerability hc).mono (fun _ _ h => h) ?_) ?_
  · rintro e w' ⟨-, rfl⟩
    exact ⟨.refl w', .same rfl⟩
  rintro (_ | _) w' hw'
  · obtain rfl : w' = w := hw'
    exact Triple.pure (.refl w' _)
  · obtain ⟨s, row, hs, hrow, new, hsame, hstatus, hcreated, rfl⟩ := hw'
    have hid : row.id = s := Value.text.inj (id_of_shelved hw hrow).1
    have hget : (records w.store).vulnerabilities.get? (.text s) = some row.toVulnerability := by
      simp only [records, Shelf.get?_relabel text_injective, hrow, Option.map_some]
    have hquiet : Quiet (getVulnerability id) := (quiet_selectOne _ _ _).bind fun _ => .pure _
    refine hquiet.keeps ⟨⟨rfl, rfl, Nat.le_refl _⟩, .changed rfl hs hget hsame hstatus ?_
      fun hnone => congrArg Value.text (hcreated hnone)⟩
    exact hid ▸ congrArg Memory.vulnerabilities records_withVulnerability

theorem keeps_deleteVulnerability (id : Value) :
    Keeps (view.Turns tag spot w (.deleteVulnerability id)) (deleteVulnerability id) w := by
  refine Triple.bind_run (World.run_stored w) ?_
  unfold eraseRow prepare
  split
  case isFalse => exact Triple.throw (.refl w _)
  simp only [pure_bind, bindText_eq, bind_assoc]
  refine Triple.bind_ofExcept (fun _ => .refl w _) fun id? hid => ?_
  cases id? with
  | none => exact Triple.of_run rfl (.refl w _)
  | some s =>
    refine Triple.of_run rfl ⟨⟨rfl, rfl, Nat.le_refl _⟩, .deleted (s := s) ?_ rfl hid⟩
    exact (Shelf.erase_relabel text_injective).symm

theorem keeps_turns (hw : view.Shelved Vulnerability.id (records w.store).vulnerabilities)
    (hr : r.IsWorkflow) : Keeps (view.Turns tag spot w r) (view.storage.perform r) w := by
  have hbeside (h : r.Spares Memory.vulnerabilities) :
      Keeps (view.Turns tag spot w r) (view.storage.perform r) w :=
    (keeps_beside (spares_records h)).imp fun _ => .of_beside (v := view)
  cases r with
  | createVulnerability d => exact keeps_createVulnerability d
  | updateVulnerability id change => exact keeps_updateVulnerability hw id (hr id change rfl)
  | deleteVulnerability id => exact keeps_deleteVulnerability id
  | createRule | updateRule | deleteRule | createAssessment | createObservationType
  | createObservationValue | createMitigationType | createMitigationValue =>
    exact hbeside fun _ _ => rfl
  | _ => exact hbeside trivial

end Tables

/-! ## Answers -/

theorem map_stampAll {xs : List Vulnerability} {stamped : List (Time.Stamp × Vulnerability)}
    (h : stampAll xs = .ok stamped) : stamped.map (·.2) = xs := by
  induction xs generalizing stamped with
  | nil => cases h; rfl
  | cons x rest ih =>
    unfold stampAll at h
    split at h
    · cases h
    · split at h
      · cases h
      · rename_i others hothers
        cases h
        exact congrArg (x :: ·) (ih hothers)

namespace Memory

variable {w : World Memory}

theorem perm_of_byDetection {xs ys : List Vulnerability} (h : byDetection xs = .ok ys) :
    ys.Perm xs := by
  unfold byDetection at h
  split at h
  · cases h
  · rename_i stamped hs
    cases h
    exact map_stampAll hs ▸ (List.mergeSort_perm stamped _).map _

theorem triple_getVulnerability
    (hw : view.Shelved Vulnerability.id w.store.vulnerabilities) (id : Value) :
    Triple (view.storage.perform (.getVulnerability id)) w
      (fun x? w' => w' = w ∧ ∀ x, x? = some x → ∃ s,
        view.name .updateVulnerability id = .ok (some s) ∧
          w.store.vulnerabilities.get? (.text s) = some x)
      (fun _ w' => w' = w) := by
  show Triple (look fun m => find m.vulnerabilities id) w _ _
  rcases hf : find w.store.vulnerabilities id with e | x?
  · exact Triple.of_run_error ((run_look _ w).trans (by rw [hf])) rfl
  · refine Triple.of_run ((run_look _ w).trans (by rw [hf])) ⟨rfl, fun x hx => ?_⟩
    subst hx
    rw [find_of_shelved hw .updateVulnerability] at hf
    exact View.look_eq_some.mp hf

/-- What is listed for a property is what is of it. -/
theorem triple_listForProperty (p : Value) :
    Triple (view.storage.perform (.listVulnerabilitiesForProperty p none)) w
      (fun xs w' => w' = w ∧
        ∀ x, x ∈ xs ↔ x ∈ w.store.vulnerabilities.records ∧ x.propertyId.equal p = true)
      (fun _ w' => w' = w) := by
  show Triple (look fun m => m.ofProperty p none) w _ _
  rcases hf : w.store.ofProperty p none with e | xs
  · exact Triple.of_run_error ((run_look _ w).trans (by rw [hf])) rfl
  · refine Triple.of_run ((run_look _ w).trans (by rw [hf])) ⟨rfl, fun x => ?_⟩
    rw [(perm_of_byDetection hf).mem_iff, List.mem_filter]

/-- What is listed for a rule is of it. -/
theorem triple_listForRule (s : String) :
    Triple (view.storage.perform (.listVulnerabilitiesForRule (.text s))) w
      (fun xs w' => w' = w ∧ ∀ x ∈ xs, x ∈ w.store.vulnerabilities.records ∧ x.ruleId = .text s)
      (fun _ w' => w' = w) := by
  show Triple (look fun m => byDetection (m.vulnerabilities.records.filter
    (·.ruleId.equal (.text s)))) w _ _
  rcases hf : byDetection (w.store.vulnerabilities.records.filter (·.ruleId.equal (.text s)))
    with e | xs
  · exact Triple.of_run_error ((run_look _ w).trans (by rw [hf])) rfl
  · refine Triple.of_run ((run_look _ w).trans (by rw [hf])) ⟨rfl, fun x hx => ?_⟩
    obtain ⟨hmem, heq⟩ := List.mem_filter.mp ((perm_of_byDetection hf).mem_iff.mp hx)
    exact ⟨hmem, Value.eq_text_of_equal heq⟩

end Memory

namespace Tables

variable {w : World Tables}

theorem triple_getVulnerability (id : Value) :
    Triple (view.storage.perform (.getVulnerability id)) w
      (fun x? w' => w' = w ∧ ∀ x, x? = some x → ∃ s,
        view.name .updateVulnerability id = .ok (some s) ∧
          (records w.store).vulnerabilities.get? (.text s) = some x)
      (fun _ w' => w' = w) := by
  refine Triple.bind (Q := fun row? w' => w' = w ∧ ∀ row, row? = some row → ∃ s,
    view.name .updateVulnerability id = .ok (some s) ∧
      w.store.vulnerabilities.rows.get? s = some row) ?_ ?_
  · unfold selectOne
    refine Triple.bind_run (World.run_stored w) ?_
    simp only [bindText_eq]
    unfold prepare
    split
    case isFalse => exact Triple.throw rfl
    rw [pure_bind]
    refine Triple.bind_ofExcept (fun _ => rfl) fun s? hs => Triple.pure ⟨rfl, fun row hrow => ?_⟩
    obtain ⟨s, rfl, hrow⟩ := Option.bind_eq_some_iff.mp hrow
    exact ⟨s, name_congr hs, hrow⟩
  · rintro row? w' ⟨rfl, hrow⟩
    refine Triple.pure ⟨rfl, fun x hx => ?_⟩
    obtain ⟨row, rfl, rfl⟩ := Option.map_eq_some_iff.mp hx
    obtain ⟨s, hs, hget⟩ := hrow row rfl
    refine ⟨s, hs, ?_⟩
    simp only [records, Shelf.get?_relabel text_injective, hget, Option.map_some]

theorem triple_getRule (id : Value) :
    Triple (view.storage.perform (.getRule id)) w
      (fun r? w' => w' = w ∧ ∀ r, r? = some r → ∃ s, r.id = .text s) (fun _ w' => w' = w) := by
  refine Triple.bind ((quiet_selectOne _ _ _).keeps (I := (· = w)) rfl) ?_
  rintro row? w' rfl
  cases row? with
  | none => exact Triple.pure ⟨rfl, nofun⟩
  | some row =>
    refine Triple.bind_ofExcept (fun _ => rfl) fun r hr => Triple.pure ⟨rfl, fun r' h => ?_⟩
    cases h
    unfold RuleRow.toRule at hr
    split at hr <;> cases hr
    exact ⟨_, rfl⟩

theorem triple_listForProperty (p : Value) :
    Triple (view.storage.perform (.listVulnerabilitiesForProperty p none)) w
      (fun xs w' => w' = w ∧ ∀ x, x ∈ xs ↔ ∃ row ∈ w.store.vulnerabilities.rows.records,
        row.propertyId.equal (spot p) = true ∧ row.toVulnerability = x)
      (fun _ w' => w' = w) := by
  show Triple (listForProperty p none) w _ _
  simp only [listForProperty, select, bind_assoc, bindNumber_eq]
  refine Triple.bind_run (World.run_stored w) ?_
  unfold prepare
  split
  case isFalse => exact Triple.throw rfl
  simp only [pure_bind]
  refine Triple.bind_ofExcept (fun _ => rfl) fun q hq => Triple.pure ⟨rfl, fun x => ?_⟩
  rw [(byDetection_perm _).mem_iff, List.mem_map, spot_of_bound hq]
  simp only [List.mem_filter, and_assoc]

theorem triple_listForRule {id : Value} {s : String}
    (hs : view.name .listVulnerabilitiesForRule id = .ok (some s)) :
    Triple (view.storage.perform (.listVulnerabilitiesForRule id)) w
      (fun xs w' => w' = w ∧ ∀ x ∈ xs, ∃ row ∈ w.store.vulnerabilities.rows.records,
        row.ruleId = s ∧ row.toVulnerability = x)
      (fun _ w' => w' = w) := by
  show Triple (listForRule id) w _ _
  have hbound : boundCell .listVulnerabilitiesForRule (Cell.text id) = .ok (some s) := hs
  simp only [listForRule, select, bind_assoc, bindText_eq, hbound]
  refine Triple.bind_run (World.run_stored w) ?_
  unfold prepare
  split
  case isFalse => exact Triple.throw rfl
  refine Triple.pure ⟨rfl, fun x hx => ?_⟩
  obtain ⟨row, hrow, rfl⟩ := List.mem_map.mp ((byDetection_perm _).mem_iff.mp hx)
  obtain ⟨hmem, heq⟩ := List.mem_filter.mp hrow
  exact ⟨row, hmem, by simpa [eq_comm] using heq, rfl⟩

end Tables

/-! ## Either store -/

namespace Backing

theorem keeps_turns : ∀ (b : Backing) {w : World b.Store} {r : Request α},
    b.view.Shelved Vulnerability.id (b.view.records w.store).vulnerabilities → r.IsWorkflow →
    Keeps (b.view.Turns b.tag b.spot w r) (b.storage.perform r) w
  | memory, _, _, hw, hr => Memory.keeps_turns hw hr
  | tables, _, _, hw, hr => Tables.keeps_turns hw hr

theorem triple_getVulnerability : ∀ (b : Backing) {w : World b.Store} (id : Value),
    b.view.Shelved Vulnerability.id (b.view.records w.store).vulnerabilities →
    Triple (b.storage.perform (.getVulnerability id)) w
      (fun x? w' => w' = w ∧ ∀ x, x? = some x → ∃ s,
        b.view.name .updateVulnerability id = .ok (some s) ∧
          (b.view.records w.store).vulnerabilities.get? (.text s) = some x)
      (fun _ w' => w' = w)
  | memory, _, id, hw => Memory.triple_getVulnerability hw id
  | tables, _, id, _ => Tables.triple_getVulnerability id

/-- A rule that is found has an id that is kept as it is. -/
theorem triple_getRule : ∀ (b : Backing) {w : World b.Store} (id : Value),
    Triple (b.storage.perform (.getRule id)) w
      (fun r? w' => w' = w ∧ ∀ r, r? = some r → b.tag r.id = r.id) (fun _ w' => w' = w)
  | memory, w, id => by
    refine (Memory.lawful.reads (r := .getRule id) rfl).keeps (I := (· = w)) rfl |>.mono ?_
      fun _ _ h => h
    exact fun r? w' h => ⟨h, fun _ _ => rfl⟩
  | tables, w, id => by
    refine (Tables.triple_getRule id).mono ?_ fun _ _ h => h
    rintro r? w' ⟨rfl, hr⟩
    refine ⟨rfl, fun r h => ?_⟩
    obtain ⟨s, hs⟩ := hr r h
    exact hs ▸ Tables.tag_text s

/-- What is listed for a property is what is of it. -/
theorem triple_listForProperty : ∀ (b : Backing) {w : World b.Store} (p : Value),
    Triple (b.storage.perform (.listVulnerabilitiesForProperty p none)) w
      (fun xs w' => w' = w ∧
        ∀ x, x ∈ xs ↔ x ∈ b.vulnerabilities w.store ∧ x.propertyId.equal (b.spot p) = true)
      (fun _ w' => w' = w)
  | memory, _, p => Memory.triple_listForProperty p
  | tables, w, p => by
    refine (Tables.triple_listForProperty p).mono ?_ fun _ _ h => h
    rintro xs w' ⟨rfl, h⟩
    refine ⟨rfl, fun x => (h x).trans ⟨?_, ?_⟩⟩
    · rintro ⟨row, hrow, hp, rfl⟩
      exact ⟨List.mem_map_of_mem hrow, hp⟩
    · rintro ⟨hx, hp⟩
      obtain ⟨row, hrow, rfl⟩ := List.mem_map.mp hx
      exact ⟨row, hrow, hp, rfl⟩

/-- What is listed for a rule is of it. -/
theorem triple_listForRule : ∀ (b : Backing) {w : World b.Store} {id : Value} {s : String},
    b.view.name .listVulnerabilitiesForRule id = .ok (some s) →
    Triple (b.storage.perform (.listVulnerabilitiesForRule id)) w
      (fun xs w' => w' = w ∧ ∀ x ∈ xs, x ∈ b.vulnerabilities w.store ∧ x.ruleId = .text s)
      (fun _ w' => w' = w)
  | memory, _, _, s, hs => by
    cases Memory.eq_text_of_name hs
    exact Memory.triple_listForRule s
  | tables, w, _, _, hs => by
    refine (Tables.triple_listForRule hs).mono ?_ fun _ _ h => h
    rintro xs w' ⟨rfl, h⟩
    refine ⟨rfl, fun x hx => ?_⟩
    obtain ⟨row, hrow, rfl, rfl⟩ := h x hx
    exact ⟨List.mem_map_of_mem hrow, rfl⟩

end Backing

end PropertyRisk
