import PropertyRisk.Proofs.Legible
import PropertyRisk.Proofs.Lifetimes
import PropertyRisk.Proofs.Processed

/-!
# States in which every time can be read

Whatever calls have been made, and whatever befell their requests, the window of every rule is
as a check left it, every detection time can be read, and the property of every assessment is
bound as it is: `Backing.Visited.punctual`. So a rule is effective or not at any instant, and a
vulnerability is opened unless the storage fails (`Backing.triple_open`).
-/

namespace PropertyRisk

open Op (Triple Keeps)
open Engine

namespace View

variable {S : Type} {v : View S} {rules : Shelf Key Rule} {assessments : Shelf Key Assessment}
  {s : String}

/-- Rules under their own ids, with windows as their checks left them. -/
structure Scheduled (v : View S) (rules : Shelf Key Rule) : Prop where
  shelved : v.Shelved Rule.id rules
  windows : ∀ r ∈ rules.records, r.window.Written

/-- Assessments under their own ids, of properties that are bound as they are. -/
structure Booked (v : View S) (assessments : Shelf Key Assessment) : Prop where
  shelved : v.Shelved Assessment.id assessments
  settled : ∀ a ∈ assessments.records, v.Settled a.propertyId

theorem Scheduled.put (h : v.Scheduled rules) (hs : v.Plain s) {r : Rule} (hid : r.id = .text s)
    (hr : r.window.Written) : v.Scheduled (rules.put (.text s) r) where
  shelved := h.shelved.put hs hid
  windows x hx := (Shelf.mem_records_put hx).elim (fun he => he ▸ hr) (h.windows x)

theorem Scheduled.erase (h : v.Scheduled rules) (key : Key) : v.Scheduled (rules.erase key) where
  shelved := h.shelved.erase key
  windows x hx := h.windows x (Shelf.mem_records_of_erase hx)

theorem Booked.put (h : v.Booked assessments) (hs : v.Plain s) {a : Assessment}
    (hid : a.id = .text s) (ha : v.Settled a.propertyId) :
    v.Booked (assessments.put (.text s) a) where
  shelved := h.shelved.put hs hid
  settled x hx := (Shelf.mem_records_put hx).elim (fun he => he ▸ ha) (h.settled x)

end View

/-! ## What requests make of the assessments -/

/-- The assessment that a request is to record. -/
def Request.assesses? : Request α → Option AssessmentDraft
  | .createAssessment d => some d
  | _ => none

namespace Backing

variable {b : Backing} {w u : World b.Store} {c : Call} {q : Request α} {r : Rule} {a : Assessment}

/-- What a request may make of the assessments of a store. A new one is of a property that is
bound as it is, and of the time that was given, if there was one. -/
inductive AssessmentEffect (b : Backing) (w u : World b.Store) (q : Request α) : Prop
  | same (h : (b.view.records u.store).assessments = (b.view.records w.store).assessments)
  | recorded {d : AssessmentDraft} {a : Assessment} (hq : q.assesses? = some d)
      (hid : a.id = .text (w.idOf (w.issued + 1))) (hproperty : b.view.Settled a.propertyId)
      (htime : a.assessedAt = b.tag (d.assessedAt.orElse (.text w.clock.text)))
      (h : (b.view.records u.store).assessments =
        (b.view.records w.store).assessments.put (.text (w.idOf (w.issued + 1))) a)

theorem keeps_recorded : ∀ (b : Backing) {w : World b.Store} (d : AssessmentDraft),
    Keeps (fun u => b.AssessmentEffect w u (.createAssessment d))
      (b.storage.perform (.createAssessment d)) w
  | memory, _, _ => Keeps.of_run rfl (.recorded rfl rfl trivial rfl rfl)
  | tables, w, d => by
    refine (Keeps.of_triple (Tables.gains_insertAssessment d) ?_ ?_).bind
      fun _ _ ht => (Tables.quiet_reread (r := .getAssessment _)
        (Tables.quiet_getAssessment _)).keeps ht
    · rintro - u ⟨-, a, ⟨hid, hproperty, htime⟩, hput⟩
      exact .recorded rfl hid hproperty htime hput
    · intro _ u hsame
      exact .same (congrArg (fun t => (tables.view.records t).assessments) hsame)

/-- A store does nothing else to its assessments. -/
theorem keeps_assessmentEffect (b : Backing) (w : World b.Store) (q : Request α) :
    Keeps (fun u => b.AssessmentEffect w u q) (b.storage.perform q) w := by
  by_cases hadds : q.operation = .createAssessment
  · cases q <;> cases hadds
    exact b.keeps_recorded _
  · exact (b.keeps_beside (Archive.spares .assessments hadds)).imp fun _ hu => .same hu.2

/-! ## The invariant -/

/-- Rules are in order, and so is everything that is read when an assessment is processed. -/
structure Punctual (b : Backing) (w : World b.Store) : Prop where
  inOrder : b.RulesInOrder w
  numbered : b.view.Numbered w
  rules : b.view.Scheduled (b.view.records w.store).rules
  stamped : (b.view.records w.store).Stamped
  booked : b.view.Booked (b.view.records w.store).assessments

/-! ## What is kept of a window -/

theorem written_stored {d : RuleDraft} (h : d.IsChecked) (id now : String) :
    (d.stored b.tag b.view.flag id now).window.Written := by
  rw [window_stored h.window]
  exact h.window

/-- A checked change leaves a window as it was, or sets one that was checked. -/
theorem written_changed {change : RuleChange} (hc : change.IsChecked) (hr : r.window.Written)
    (tree : Option Criteria) (now : String) :
    (r.changed (b.view.kept change) tree now).window.Written := by
  rcases hc.window with ⟨hfrom, hto⟩ | ⟨window, hw, hfrom, hto⟩
  · rwa [window_unchanged hfrom hto]
  · rwa [window_changed hw hfrom hto]

/-! ## What a request leaves -/

namespace Punctual

theorem scheduled (h : b.Punctual w) (hq : c.Asks q) (he : b.RuleEffect w u q) :
    b.view.Scheduled (b.view.records u.store).rules := by
  cases he with
  | same hsame => exact hsame ▸ h.rules
  | created hd hissued hput =>
    cases q <;> cases hd
    obtain ⟨-, hchecked⟩ := hq
    exact hput ▸ h.rules.put (h.numbered.plain _) rfl (written_stored hchecked _ _)
  | changed hchange hs hold hrevised hput =>
    cases q <;> cases hchange
    obtain ⟨-, hchecked⟩ := hq
    obtain ⟨tree, hproper, -⟩ := hchecked.proper
    obtain ⟨hplain, hid⟩ := h.rules.shelved.id_of_get? hold
    rw [revised_of_proper hproper hrevised] at hput
    refine hput ▸ h.rules.put hplain ?_ (written_changed hchecked ?_ _ _)
    · simp [Rule.changed, View.kept, hproper.id, hid]
    · exact h.rules.windows _ (Shelf.mem_records_of_get? hold)
  | deleted hd hs herase => exact herase ▸ h.rules.erase _

theorem stamped_of_turns (h : b.Punctual w) (hq : c.Asks q)
    (ht : b.view.Turns b.tag b.spot w q u) : (b.view.records u.store).Stamped := by
  intro y hy
  obtain ⟨-, he⟩ := ht
  cases he with
  | same hsame => exact h.stamped y (hsame ▸ hy)
  | opened hd hid hx hissued hput =>
    rcases Shelf.mem_records_put (hput ▸ hy) with rfl | hy
    · obtain ⟨stamp, hstamp⟩ := (hq.opening hd).2.detectedAt
      refine ⟨stamp, ?_⟩
      rw [hx.detectedAt, hstamp, Value.orElse_stamp, b.tag_text, requireStampValue_text]
    · exact h.stamped y hy
  | changed hchange hs hold hsame hstatus hput =>
    rcases Shelf.mem_records_put (hput ▸ hy) with rfl | hy
    · exact hsame.detectedAt ▸ h.stamped _ (Shelf.mem_records_of_get? hold)
    · exact h.stamped y hy
  | deleted herase => exact h.stamped y (Shelf.mem_records_of_erase (herase ▸ hy))

theorem booked_of_effect (h : b.Punctual w) (he : b.AssessmentEffect w u q) :
    b.view.Booked (b.view.records u.store).assessments := by
  cases he with
  | same hsame => exact hsame ▸ h.booked
  | recorded hd hid hproperty htime hput =>
    exact hput ▸ h.booked.put (h.numbered.plain _) hid hproperty

/-- What a request of a call keeps. -/
theorem keeps (h : b.Punctual w) (hq : c.Asks q) : Keeps b.Punctual (b.storage.perform q) w := by
  have hrules := keeps_ruleEffect h.inOrder (h.numbered.plain _) (parsed_of_asks hq)
  have hturns := b.keeps_turns h.numbered.shelved hq.proper.workflow
  have hassessments := b.keeps_assessmentEffect w q
  exact (hrules.both (hturns.both hassessments)).imp fun u ⟨⟨hin, _, he⟩, ht, ha⟩ =>
    ⟨hin, h.numbered.step b.tag_text hq.proper ht, h.scheduled hq he, h.stamped_of_turns hq ht,
      h.booked_of_effect ha⟩

theorem tick (h : b.Punctual w) (clock : Time.Stamp) : b.Punctual { w with clock } :=
  ⟨b.rulesInOrder_tick h.inOrder clock, h.numbered.tick clock, h.rules, h.stamped, h.booked⟩

theorem empty (b : Backing) (clock : Time.Stamp) (issued : Nat) {idOf : Nat → String}
    (hinj : Function.Injective idOf) (hwhole : ∀ n, Text.isWhole (idOf n) = true) :
    b.Punctual ⟨b.empty, clock, issued, idOf⟩ := by
  have hrecords : b.view.records b.empty = {} := b.records_empty
  refine ⟨b.rulesInOrder_empty clock issued idOf, .empty (congrArg Memory.vulnerabilities hrecords)
    hinj fun n => b.plain_of_isWhole (hwhole n), ?_, ?_, ?_⟩ <;> rw [hrecords]
  · exact ⟨.nil, nofun⟩
  · exact nofun
  · exact ⟨.nil, nofun⟩

end Punctual

/-- What is agreed with a store on the requests of calls. -/
def punctuality (b : Backing) : Contract (World b.Store) where
  inv := b.Punctual
  may q := ∃ c : Call, c.Asks q

theorem meets_punctuality : b.storage.faulty.Meets b.punctuality.first :=
  (meets_of_keeps fun ⟨_, hq⟩ h => h.keeps hq).faulty fun _ _ => trivial

theorem Visited.punctual {may : World b.Store → Policy → Call → Prop} (h : b.Visited may w) :
    b.Punctual w := by
  induction h with
  | empty clock issued idOf hinj hwhole => exact .empty b clock issued hinj hwhole
  | tick clock _ ih => exact ih.tick clock
  | call policy plan _ _ ih =>
    exact (Call.upheld meets_punctuality (fun _ _ => trivial) (fun hq => ⟨_, hq⟩) policy
      (s := (_, plan)) ih).keeps.state

/-! ## Looking up -/

/-- Whether a store answers with a rule when it is asked for it by its id. -/
def Answers (b : Backing) (w : World b.Store) (r : Rule) : Prop :=
  (b.storage.perform (.getRule r.id)).run w = (.ok (some r), w)

theorem Punctual.answers_iff (h : b.Punctual w) :
    b.Answers w r ↔ r ∈ (b.view.records w.store).rules.records := by
  rw [Answers, b.run_lookUpRule h.inOrder]
  constructor
  · intro hr
    obtain ⟨s, -, hget⟩ := View.look_eq_some.mp (congrArg Prod.fst hr)
    exact Shelf.mem_records_of_get? hget
  · intro hr
    obtain ⟨s, hs, hid, hget⟩ := h.rules.shelved.get?_of_mem hr
    rw [hid, View.look_of_name (b.lawful.name_text hs), hget]

end Backing

/-! ## Answers

An assessment that is answered can be found again under its id, and its property is bound as it
is, so that what was found for it is listed unless the storage fails. -/

namespace Memory

variable {w : World Memory} {id p : Value} {a : Assessment}

theorem of_getAssessment (h : view.Booked w.store.assessments)
    (ha : (view.storage.perform (.getAssessment id)).run w = (.ok (some a), w)) :
    view.Text a.id ∧ view.Settled a.propertyId := by
  have hfind : find w.store.assessments id = .ok (some a) :=
    congrArg Prod.fst ((run_look (fun m => find m.assessments id) w).symm.trans ha)
  obtain ⟨s, hs, hid, -⟩ := h.shelved.get?_of_mem (mem_of_find hfind)
  exact ⟨⟨s, hs, hid⟩, trivial⟩

theorem triple_listSettled (h : w.store.Stamped) :
    Triple (view.storage.perform (.listVulnerabilitiesForProperty p none)) w (fun _ _ => True)
      (fun e _ => ∃ failure, e = .storage failure) := by
  obtain ⟨xs, hxs⟩ : ∃ xs, w.store.ofProperty p none = .ok xs := ofProperty_of_stamped h nofun
  have hrun : (view.storage.perform (.listVulnerabilitiesForProperty p none)).run w =
      (w.store.ofProperty p none, w) := run_look (fun m => m.ofProperty p none) w
  exact Triple.of_run (hrun.trans (by rw [hxs])) trivial

end Memory

namespace Tables

variable {w : World Tables} {id p : Value} {a : Assessment}

/-- What is read from a row is under its id, for its property and at its time. -/
theorem of_toAssessment {row : AssessmentRow} (h : row.toAssessment = .ok a) :
    a.id = .text row.id ∧ a.propertyId = row.propertyId ∧ a.assessedAt = .text row.assessedAt := by
  unfold AssessmentRow.toAssessment at h
  repeat' split at h
  all_goals cases h
  exact ⟨rfl, rfl, rfl⟩

/-- An assessment that is answered is that of a row. -/
theorem triple_getAssessment_row (id : Value) :
    Triple (getAssessment id) w
      (fun found _ => ∀ a, found = some a → ∃ s row, view.name .getAssessment id = .ok (some s) ∧
        w.store.assessments.rows.get? s = some row ∧ row.toAssessment = .ok a)
      (fun _ _ => True) := by
  simp only [getAssessment, selectOne, bind_assoc, bindText_eq]
  refine Triple.bind_run (World.run_stored _) ?_
  unfold prepare
  split
  case isFalse => exact Triple.throw trivial
  simp only [pure_bind]
  refine Triple.bind_ofExcept (fun _ => trivial) fun cell hcell => ?_
  cases hrow : cell.bind w.store.assessments.rows.get? with
  | none => exact Triple.pure (by simp)
  | some row =>
    refine Triple.bind_ofExcept (fun _ => trivial) fun a ha => Triple.pure fun a' ha' => ?_
    cases ha'
    obtain ⟨s, rfl, hget⟩ := Option.bind_eq_some_iff.mp hrow
    exact ⟨s, row, hcell, hget, ha⟩

theorem of_getAssessment (h : view.Booked (records w.store).assessments)
    (ha : (view.storage.perform (.getAssessment id)).run w = (.ok (some a), w)) :
    view.Text a.id ∧ view.Settled a.propertyId := by
  have hget : (getAssessment id).run w = (.ok (some a), w) := ha
  obtain ⟨key, row, -, hrow, hread⟩ := (triple_getAssessment_row id).ok hget a rfl
  obtain ⟨hid, hp, -⟩ := of_toAssessment hread
  have hmem : row.record ∈ (records w.store).assessments.records := by
    rw [records, Shelf.records_relabel]
    exact List.mem_map_of_mem (Shelf.mem_records_of_get? hrow)
  obtain ⟨s, hs, hown, -⟩ := h.shelved.get?_of_mem hmem
  exact ⟨⟨s, hs, hid.trans hown⟩, hp ▸ h.settled _ hmem⟩

theorem triple_listSettled (hp : view.Settled p) :
    Triple (view.storage.perform (.listVulnerabilitiesForProperty p none)) w (fun _ _ => True)
      (fun e _ => ∃ failure, e = .storage failure) := by
  show Triple (listForProperty p none) w _ _
  simp only [listForProperty, select, bind_assoc, bindNumber_eq, hp.1, boundCell]
  refine Triple.bind_run (World.run_stored _) ?_
  unfold prepare
  split
  · exact Triple.pure trivial
  · exact Triple.throw ⟨_, rfl⟩

theorem triple_createVulnerability_of_lost (h : w.store.vulnerabilities.state ≠ .whole)
    (d : VulnerabilityDraft) :
    Triple (view.storage.perform (.createVulnerability d)) w (fun _ _ => True)
      (fun e _ => ∃ failure, e = .storage failure) := by
  have hlost : w.store.vulnerabilities.allows .everyColumn = false := by
    rcases htable : w.store.vulnerabilities with ⟨rows, _ | column | _⟩
    · exact absurd (congrArg Table.state htable) h
    · rfl
    · rfl
  have hinsert : Triple (insertVulnerability d) w (fun _ _ => False)
      (fun e _ => ∃ failure, e = .storage failure) := by
    refine Triple.bind_run (World.run_now w) <| Triple.bind_run (World.run_fresh w) <|
      Triple.bind_run (World.run_stored _) ?_
    unfold prepare
    rw [hlost]
    exact Triple.throw ⟨_, rfl⟩
  exact hinsert.bind fun _ _ hno => hno.elim

/-- Where the ids can be bound, a vulnerability is added unless the table is not as it was made. -/
theorem triple_createOpened (hs : Text.isWhole (w.idOf (w.issued + 1)) = true)
    (hnew : (records w.store).vulnerabilities.get? (.text (w.idOf (w.issued + 1))) = none)
    {ruleId assessmentId : String} (hr : Text.isWhole ruleId = true)
    (ha : Text.isWhole assessmentId = true) (hp : view.Settled p) :
    Triple (view.storage.perform (.createVulnerability { ruleId := .text ruleId
                                                         assessmentId := .text assessmentId
                                                         propertyId := p
                                                         detectedAt := .text w.clock.text })) w
      (fun _ _ => True) (fun e _ => ∃ failure, e = .storage failure) := by
  by_cases hstate : w.store.vulnerabilities.state = .whole
  · have hnone : w.store.vulnerabilities.rows.get? (w.idOf (w.issued + 1)) = none := by
      simpa only [records, Shelf.get?_relabel text_injective, Option.map_eq_none_iff] using hnew
    exact Triple.of_run (run_createVulnerability hstate hs hr ha hp hnone) trivial
  · exact triple_createVulnerability_of_lost hstate _

end Tables

namespace Backing

variable {b : Backing} {w : World b.Store} {rules : Shelf Key Rule} {r : Rule} {a : Assessment}

theorem of_getAssessment : ∀ (b : Backing) {w : World b.Store} {id : Value},
    b.view.Booked (b.view.records w.store).assessments →
    (b.storage.perform (.getAssessment id)).run w = (.ok (some a), w) →
    b.view.Text a.id ∧ b.view.Settled a.propertyId
  | memory, _, _, h, ha => Memory.of_getAssessment h ha
  | tables, _, _, h, ha => Tables.of_getAssessment h ha

theorem triple_listSettled : ∀ (b : Backing) {w : World b.Store} {p : Value},
    (b.view.records w.store).Stamped → b.view.Settled p →
    Triple (b.storage.perform (.listVulnerabilitiesForProperty p none)) w (fun _ _ => True)
      (fun e _ => ∃ failure, e = .storage failure)
  | memory, _, _, h, _ => Memory.triple_listSettled h
  | tables, _, _, _, hp => Tables.triple_listSettled hp

theorem triple_createOpened : ∀ (b : Backing) {w : World b.Store} {p : Value}
    {ruleId assessmentId : String}, b.view.Numbered w → b.view.Plain ruleId →
    b.view.Plain assessmentId → b.view.Settled p →
    Triple (b.storage.perform (.createVulnerability { ruleId := .text ruleId
                                                      assessmentId := .text assessmentId
                                                      propertyId := p
                                                      detectedAt := .text w.clock.text })) w
      (fun _ _ => True) (fun e _ => ∃ failure, e = .storage failure)
  | memory, _, _, _, _, _, _, _, _ => Triple.of_run rfl trivial
  | tables, _, _, _, _, h, hr, ha, hp =>
    Tables.triple_createOpened (h.plain _) h.next_unused hr ha hp

/-- What is agreed with a store while a vulnerability may be opened: the rules stay as they are,
and nothing but a failure of the storage is in the way. -/
def opening (b : Backing) (rules : Shelf Key Rule) : Contract (World b.Store) where
  inv u := b.Punctual u ∧ (b.view.records u.store).rules = rules
  may q := ∃ c : Call, c.Asks q
  errs e _ := ∃ failure, e = .storage failure

theorem opening_findUnresolved (h : (b.opening rules).inv w) {p : Value} (hp : b.view.Settled p)
    (ruleId : Value) :
    (b.opening rules).Upheld (Vulnerabilities.findUnresolved b.storage ruleId p) w := by
  refine (((b.triple_listSettled h.1.stamped hp).and (b.triple_listForProperty p)).mono
    (fun _ _ ht => ht) ?_).bind ?_
  · rintro e u ⟨hfailure, rfl⟩
    exact ⟨hfailure, h⟩
  rintro xs u ⟨-, rfl, hxs⟩
  -- the status of what is listed is at a step of the workflow
  have hnamed (x : Vulnerability) (hx : x ∈ xs) : ∃ name, x.status = .text name := by
    obtain ⟨st, hst⟩ := h.1.numbered.named x (b.records_vulnerabilities _ ▸ ((hxs x).mp hx).1)
    exact ⟨st.name, hst⟩
  obtain ⟨found, hfound, -⟩ := Vulnerabilities.firstUnresolved_isSome ruleId hnamed
  rw [hfound]
  exact Triple.pure h

theorem opening_create (h : (b.opening rules).inv w) (hr : b.view.Text r.id) (ha : b.view.Text a.id)
    (hp : b.view.Settled a.propertyId) :
    (b.opening rules).Upheld (Vulnerabilities.create b.storage r.id a.id a.propertyId .null) w := by
  obtain ⟨ruleId, hrule, hr⟩ := hr
  obtain ⟨assessmentId, hassessment, ha⟩ := ha
  have hnow : b.storage.now.run w = (.ok w.clock.text, w) := b.view_storage ▸ b.lawful.now
  rw [hr, ha]
  refine Triple.bind_run hnow ?_
  -- the request is one that processing makes, so everything can still be read after it
  have hkept := h.1.keeps (c := .process (.stored .null)) (q := .createVulnerability
    { ruleId := .text ruleId, assessmentId := .text assessmentId, propertyId := a.propertyId
      detectedAt := .text w.clock.text }) ⟨rfl, rfl, w.clock, rfl⟩
  refine ((b.triple_createOpened h.1.numbered hrule hassessment hp).and
    (hkept.both (b.keeps_rules h.1.inOrder rfl))).mono ?_ ?_
  · exact fun _ u ⟨_, hu, _, hb⟩ => ⟨hu, hb.2.trans h.2⟩
  · exact fun e u ⟨he, hu, _, hb⟩ => ⟨he, hu, hb.2.trans h.2⟩

/-- What is done for a rule that triggers. -/
theorem opening_open (h : (b.opening rules).inv w) (hr : b.view.Text r.id) (ha : b.view.Text a.id)
    (hp : b.view.Settled a.propertyId) (dedupe : Bool) :
    (b.opening rules).Upheld (Assessments.open_ b.storage dedupe a r) w := by
  have hrest (existing : Option Vulnerability) (u : World b.Store)
      (hu : (b.opening rules).inv u) : (b.opening rules).Upheld (do
        if existing.isSome then return none
        return some (← Vulnerabilities.create b.storage r.id a.id a.propertyId .null)) u := by
    split
    · exact .pure hu
    · exact (opening_create hu hr ha hp).bind fun _ _ ht => .pure ht
  unfold Assessments.open_
  split
  · exact (opening_findUnresolved h hp r.id).bind hrest
  · exact hrest none w h

end Backing

end PropertyRisk
