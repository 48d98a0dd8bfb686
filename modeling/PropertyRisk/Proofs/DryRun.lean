import PropertyRisk.Proofs.Batches
import PropertyRisk.Proofs.Founded
import PropertyRisk.Proofs.Legible
import PropertyRisk.Proofs.RuleWrites

/-!
# Trying a tree and processing with it

A rule is created from a document and an assessment recorded from another one. Trying the
first on the second reads both once; processing judges what the store has kept of them.
`Backing.dry_run_tells`: it comes to the same, as long as the rule is not changed.
-/

namespace PropertyRisk

open Op (Triple)
open Engine
open Engine.Assessments

/-- A rule that takes part is listed as triggered if its tree is true. -/
theorem Engine.Assessments.Accounts.mem_triggered {dedupe : Bool} {xs : List Vulnerability}
    {a : Assessment} {instant : Option String} {opened : Nat → Rule → Vulnerability}
    {rules : List Rule} {report : ProcessReport} {r : Rule}
    (h : Accounts [] dedupe xs a instant opened rules report) (hnd : (rules.map Rule.id).Nodup)
    (hr : r ∈ rules) :
    r.id ∈ report.triggered ↔ isPresent instant r = true ∧ holdsOn a r = true := by
  rw [h.triggered, List.mem_map]
  constructor
  · rintro ⟨q, hq, hid⟩
    obtain ⟨hq, htriggers⟩ := List.mem_filter.mp hq
    -- ids are unique, so the rule that was listed is this one
    cases List.inj_on_of_nodup_map hnd hq hr hid
    simpa [rereadFailure?, Injected.failureOf] using htriggers
  · rintro ⟨hpresent, hholds⟩
    refine ⟨r, List.mem_filter.mpr ⟨hr, ?_⟩, rfl⟩
    simp [rereadFailure?, Injected.failureOf, hpresent, hholds]

/-- A tree that is tried on one list of observations. -/
theorem Engine.Rules.test_eq {document : Value} {tree : Criteria} {items : List Value}
    {os : List Observation} {t : Bool} (htree : Criteria.read document = .ok tree)
    (hread : readObservationList (.list items) = .ok os) (ht : tree.evaluate os = .ok t) :
    Rules.test document (.list [.list items]) = .ok [⟨os, t⟩] := by
  have hobservations : trialObservations (.list items) = .ok os := hread
  simp [Rules.test, htree, itemsOf, try_, hobservations, ht]

namespace View

variable {S : Type} {v : View S} {w w' : World S} {r : Rule} {as : List Assessment}
  {a : Assessment}

/-- A world in which a rule stands as it was created, and some assessments as they were
recorded. -/
structure Standing (v : View S) (r : Rule) (as : List Assessment) (w : World S) : Prop
    extends v.Steady w where
  windows : ∀ q ∈ (v.records w.store).rules.records, q.window.Readable
  rule : ∃ s, r.id = .text s ∧ (v.records w.store).rules.get? (.text s) = some r
  recorded : ∀ c ∈ as, (v.records w.store).Records c

namespace Standing

theorem put_assessment (h : v.Standing r as w) (hid : a.id = .text (w.idOf (w.issued + 1)))
    (ha : v.Settled a.propertyId) (hissued : w'.issued = w.issued + 1)
    (hb : v.Becomes w { v.records w.store with
      assessments := (v.records w.store).assessments.put (.text (w.idOf (w.issued + 1))) a } w') :
    v.Standing r (a :: as) w' where
  toSteady := h.toSteady.put_assessment hid ha hissued hb
  windows := hb.records ▸ h.windows
  rule := hb.records ▸ h.rule
  recorded := by
    rw [hb.records]
    intro c hc
    rcases List.mem_cons.mp hc with rfl | hc
    · exact ⟨_, hid, by rw [Shelf.get?_put, if_pos rfl]⟩
    · obtain ⟨s, hs, hget⟩ := h.recorded c hc
      exact ⟨s, hs, h.supplied.get?_put_assessment hget⟩

/-- Processing leaves rules and assessments as they are. -/
theorem processed (h : v.Standing r as w) {dedupe : Bool} {instant : Option String}
    {rules : List Rule} {report : ProcessReport}
    (hp : v.Processed w a dedupe instant rules report w') : v.Standing r as w' where
  toSteady := hp.steady
  windows := hp.becomes.records ▸ h.windows
  rule := hp.becomes.records ▸ h.rule
  recorded := hp.becomes.records ▸ h.recorded

end Standing

variable (law : v.Lawful)
include law

/-- Recording an assessment keeps its observations. -/
theorem triple_recordDraft_stands (h : v.Standing r as w) (p : Value) {os : List Observation}
    (hos : v.Noted os) (time : Value) :
    Triple (recordDraft v.storage p os time) w
      (fun a w' => a.observations = os ∧ v.Standing r (a :: as) w') (fun _ _ => True) := by
  have hcreate (t : Value) : Triple (v.storage.perform (.createAssessment ⟨p, os, t⟩)) w
      (fun a w' => a.observations = os ∧ v.Standing r (a :: as) w') (fun _ _ => True) :=
    (law.createAssessment (d := ⟨p, os, t⟩) h.ready h.supplied hos).mono
      (fun _ _ ⟨hid, hobservations, hp, hissued, hb⟩ =>
        ⟨hobservations, h.put_assessment hid hp hissued hb⟩) fun _ _ _ => trivial
  unfold recordDraft
  split
  · exact Triple.bind_ofExcept (fun _ => trivial) fun _ _ => hcreate _
  · exact hcreate _

/-- A call on an assessment that is stored tells whether the rule triggers on it. -/
theorem run_processWhen_stands (h : v.Standing r as w) (ha : a ∈ as) {source : AssessmentSource}
    (hs : source = .stored a.id ∨ source = .record a) {time : Option Value}
    {instant : Option String} (ht : JudgesAt a time instant)
    (hj : ∀ q ∈ (v.records w.store).rules.records, isPresent instant q = true →
      ∃ t, q.tree.evaluate a.observations = .ok t) (dedupe : Bool) :
    ∃ report w', (processWhen v.storage dedupe source time).run w = (.ok report, w') ∧
      v.Standing r as w' ∧
      (r.id ∈ report.triggered ↔ isPresent instant r = true ∧ holdsOn a r = true) := by
  obtain ⟨i, hid, hget⟩ := h.recorded a ha
  obtain ⟨rules, hperm, hlist⟩ := law.listRules h.ready
  obtain ⟨report, w', hrun, hp⟩ := run_processWhen_listed law ⟨h.toSteady, hid, hget⟩ dedupe
    (hid ▸ hs) ht h.windows hj hlist
  have hnd : (rules.map Rule.id).Nodup :=
    (hperm.map Rule.id).nodup_iff.mpr h.ready.kept.rules.nodup_ids
  obtain ⟨s, -, hr⟩ := h.rule
  exact ⟨report, w', hrun, h.processed hp,
    hp.accounts.mem_triggered hnd (hperm.mem_iff.mpr (Shelf.mem_records_of_get? hr))⟩

end View

namespace Backing

variable {b : Backing} {w : World b.Store}

/-- What is kept of a flag holds if the flag does. -/
theorem holds_flag : ∀ (b : Backing) (x : Value), (b.view.flag x).holds = x.holds
  | memory, _ => rfl
  | tables, _ => rfl

/-- A rule that has been checked is kept with its tree. -/
theorem triple_createRule_stands (hw : b.view.Steady w)
    (hwindows : ∀ q ∈ (b.view.records w.store).rules.records, q.window.Readable) {d : RuleDraft}
    (hd : d.IsChecked) :
    Triple (b.view.storage.perform (.createRule d)) w
      (fun r w' => r.tree = d.tree ∧ r.isActive.holds = d.isActive.holds ∧ b.view.Standing r [] w')
      (fun _ _ => True) := by
  obtain ⟨document, hread⟩ := hd.tree
  have htree := b.lawful.tree_of_read hread
  have hkept := b.triple_createRule (b.rulesInOrder_of_ready hw.ready) (hw.supplied.plain _) htree
  have hlegible := b.perform_legible (r := .createRule d)
    ⟨hw.ready.whole, hw.supplied.plain, ⟨hw.ready.kept.rules, hwindows⟩,
      ⟨hw.ready.kept.vulnerabilities, hw.stamped⟩⟩ hd
  rw [← b.view_storage] at hkept hlegible
  refine (hkept.and hlegible).mono ?_ fun _ _ _ => trivial
  rintro r w' ⟨⟨rfl, hissued, -, hb⟩, -, hl⟩
  refine ⟨rfl, b.holds_flag _, ?_, hl.rules.windows, ⟨_, rfl, ?_⟩, nofun⟩
  · exact hw.put_rule (hw.supplied.plain _) rfl (.inr ⟨_, Nat.le_of_eq hissued.symm, rfl⟩)
      (hb.becomes hw.ready.whole)
  · rw [hb.records, Shelf.get?_put, if_pos rfl]

/-- A new rule has the tree that was read from its document. -/
theorem triple_create_stands (hw : b.view.Steady w)
    (hwindows : ∀ q ∈ (b.view.records w.store).rules.records, q.window.Readable)
    (input : RuleInput) :
    Triple (Rules.create b.view.storage input) w
      (fun r w' => Criteria.read input.tree = .ok r.tree ∧
        r.isActive.holds = input.isActive.holds ∧ b.view.Standing r [] w') (fun _ _ => True) := by
  have law := b.lawful
  refine Triple.bind_ofExcept (fun _ => trivial) fun name _ => ?_
  refine Triple.bind_ofExcept (fun _ => trivial) fun description _ => ?_
  refine Triple.bind_run law.now (Triple.bind_ofExcept (fun _ => trivial) fun window hwindow => ?_)
  split
  · refine (Rules.triple_checkTree law.readsQuietly _ _).answered.bind ?_
    rintro tree w ⟨rfl, htree⟩
    refine (triple_createRule_stands hw hwindows
      ⟨⟨_, htree⟩, Rules.written_of_checkWindow hwindow⟩).mono ?_ fun _ _ _ => trivial
    rintro r w' ⟨hsame, hactive, hstanding⟩
    exact ⟨hsame ▸ htree, hactive, hstanding⟩
  · exact Triple.throw trivial

/-- A call comes to a report in which a rule is listed as triggered or is not. -/
def Lists (b : Backing) (r : Rule) (as : List Assessment) (triggered : Bool)
    (call : Op (World b.Store) ProcessReport) (w : World b.Store) : Prop :=
  ∃ report w', call.run w = (.ok report, w') ∧ b.view.Standing r as w' ∧
    (r.id ∈ report.triggered ↔ triggered = true)

/-- No rule that takes part comes to compare a huge number when it is judged on some
observations. -/
def Calm (b : Backing) (w : World b.Store) (os : List Observation) (instant : Option String) :
    Prop :=
  ∀ q ∈ (b.view.records w.store).rules.records, isPresent instant q = true →
    ∃ t, q.tree.evaluate os = .ok t

/-- Where a rule stands, what a trial on a document of observations has told is borne out. -/
structure BearsOut (b : Backing) (r : Rule) (items : List Value) (os : List Observation)
    (triggered : Bool) (as : List Assessment) (w : World b.Store) : Prop where
  /-- The observations that are recorded are those of the trial, and the rule still stands. -/
  recorded : ∀ {p time : Value} {a : Assessment} {u : World b.Store},
    (record b.storage p (.list items) time).run w = (.ok a, u) →
      a.observations = os ∧ b.view.Standing r (a :: as) u
  /-- An assessment that was recorded is processed, as it is or by its id. -/
  stored : ∀ {a : Assessment} {source : AssessmentSource} {time : Option Value}
    {instant : Option String}, a ∈ as → a.observations = os →
    source = .stored a.id ∨ source = .record a → JudgesAt a time instant →
    isCandidate instant r = true → b.Calm w os instant →
      ∀ dedupe, b.Lists r as triggered (processWhen b.storage dedupe source time) w
  /-- An assessment that is not stored yet is recorded first. -/
  draft : ∀ {d : AssessmentDraft} {a : Assessment} {u : World b.Store} {time : Option Value}
    {instant : Option String}, d.observations = os →
    (resolve b.storage (.draft d)).run w = (.ok a, u) → JudgesAt a time instant →
    isCandidate instant r = true → b.Calm w os instant →
      ∀ dedupe, b.Lists r (a :: as) triggered (processWhen b.storage dedupe (.draft d) time) w

/-- An assessment that is stored is judged under the tree that stands. -/
theorem lists_of_standing {r : Rule} {as : List Assessment} (h : b.view.Standing r as w)
    (hactive : r.isActive.holds = true) {a : Assessment} {t : Bool}
    (ht : r.tree.evaluate a.observations = .ok t) (ha : a ∈ as) {source : AssessmentSource}
    (hs : source = .stored a.id ∨ source = .record a) {time : Option Value}
    {instant : Option String} (hjudges : JudgesAt a time instant)
    (hcandidate : isCandidate instant r = true) (hcalm : b.Calm w a.observations instant)
    (dedupe : Bool) : b.Lists r as t (processWhen b.view.storage dedupe source time) w := by
  obtain ⟨report, w', hrun, hstanding, htriggered⟩ :=
    View.run_processWhen_stands b.lawful h ha hs hjudges hcalm dedupe
  refine ⟨report, w', hrun, hstanding, htriggered.trans ?_⟩
  simp [isPresent, hactive, hcandidate, holdsOn, ht]

theorem bearsOut_of_standing {r : Rule} {as : List Assessment} (h : b.view.Standing r as w)
    (hactive : r.isActive.holds = true) {items : List Value} {os : List Observation}
    (hread : readObservationList (.list items) = .ok os) {t : Bool}
    (ht : r.tree.evaluate os = .ok t) : b.BearsOut r items os t as w where
  recorded {p time a u} hrun := by
    rw [← b.view_storage, record, hread] at hrun
    have hnoted := b.lawful.noted_of_read hread
    exact (View.triple_recordDraft_stands b.lawful h p hnoted time).ok hrun
  stored ha hos hs hjudges hcandidate hcalm dedupe := by
    subst hos
    rw [← b.view_storage]
    exact lists_of_standing h hactive ht ha hs hjudges hcandidate hcalm dedupe
  draft {d a u time instant} hd hresolve hjudges hcandidate hcalm dedupe := by
    subst hd
    have hnoted := b.lawful.noted_of_read hread
    rw [← b.view_storage] at hresolve ⊢
    obtain ⟨hos, hstanding⟩ :=
      (View.triple_recordDraft_stands b.lawful h d.propertyId hnoted d.assessedAt).ok hresolve
    obtain ⟨_, hat⟩ := View.atHand_of_recordDraft b.lawful h.toSteady hnoted hresolve
    obtain ⟨report, w', hrun, hreport⟩ := lists_of_standing hstanding hactive (hos ▸ ht)
      List.mem_cons_self (.inr rfl) hjudges hcandidate
      (by rw [Calm, hat.rules, hos]; exact hcalm) dedupe
    refine ⟨report, w', Eq.trans ?_ hrun, hreport⟩
    -- the draft is recorded first, at either kind of time
    cases time with
    | none => exact Op.run_bind_ok hresolve
    | some time => exact Op.run_bind_ok hresolve

/-- A tree is tried on some observations, and a rule is created from it. As long as the rule
stands as it was created, processing an assessment with these observations lists it as
triggered if and only if the trial did: at once, later by the assessment's id, or as an
assessment that is not stored yet. -/
theorem dry_run_tells (hw : b.view.Steady w)
    (hwindows : ∀ q ∈ (b.view.records w.store).rules.records, q.window.Readable)
    {input : RuleInput} {r : Rule} {u : World b.Store}
    (hcreate : (Rules.create b.storage input).run w = (.ok r, u))
    (hactive : input.isActive.holds = true) {items : List Value} {os : List Observation}
    (hread : readObservationList (.list items) = .ok os)
    (hcalm : ∀ tree, Criteria.read input.tree = .ok tree → ∃ t, tree.evaluate os = .ok t) :
    ∃ t, Rules.test input.tree (.list [.list items]) = .ok [⟨os, t⟩] ∧
      b.view.Standing r [] u ∧
      ∀ {as : List Assessment} {w' : World b.Store}, b.view.Standing r as w' →
        b.BearsOut r items os t as w' := by
  rw [← b.view_storage] at hcreate
  obtain ⟨htree, hflag, hstanding⟩ := (triple_create_stands hw hwindows input).ok hcreate
  obtain ⟨t, ht⟩ := hcalm _ htree
  exact ⟨t, Rules.test_eq htree hread ht, hstanding, fun h =>
    bearsOut_of_standing h (hflag.trans hactive) hread ht⟩

/-! ## A rising level -/

def gauging : List Call :=
  [.createObservationType (.text "level") (.text "NUMBER") .null (.bool false)]

/-- Tables with a type of observation, which has the id `a`. -/
def gauged : World Tables := (Call.runAll {} Tables.storage gauging (start .tables)).2

/-- A rule that asks for a level above five. -/
def rising : RuleInput where
  name := .text "Rising"
  description := .text "The level is above five."
  tree := .object [("join_operator", .text "or"), ("conditions", .list
    [.object [("observation_type_id", .text "a"), ("operator", .text "greater_than"),
      ("value_type", .text "number"), ("value", .text " 5.0 ")]])]

/-- A level of seven, as a document. -/
def seven : List Value := [.object [("observation_type_id", .text "a"), ("value", .int 7)]]

theorem steady_gauged : tables.view.Steady gauged := by
  have hcalls : ∀ c ∈ gauging, ∀ as, c.Permitted as := by simp [gauging, Call.Permitted]
  obtain ⟨as, h⟩ := Reached.runAll (b := .tables) {} hcalls
    (.empty (start .tables).clock 0 letters letters_injective isWhole_letters)
  exact h.sound.toSteady

/-- The trial triggers, and so does an assessment that is recorded and processed. -/
theorem dry_run_rising : ∃ r u a u',
    (Rules.create Tables.storage rising).run gauged = (.ok r, u) ∧
    Rules.test rising.tree (.list [.list seven]) = .ok [⟨[{ typeId := "a", value := .int 7 }], true⟩] ∧
    (record Tables.storage (.int 3) (.list seven) .null).run u = (.ok a, u') ∧
    Lists .tables r [a] true (process Tables.storage true (.stored a.id)) u' := by
  have hwindows : ∀ q ∈ (tables.view.records gauged.store).rules.records, q.window.Readable := by
    intro q hq
    have hempty : (tables.view.records gauged.store).rules.records = [] := by decide +kernel
    rw [hempty] at hq
    cases hq
  have hread : readObservationList (.list seven) = .ok [{ typeId := "a", value := .int 7 }] := by
    decide +kernel
  have htree : Criteria.read rising.tree = .ok ⟨.or, [.leaf
      { typeId := "a", operator := .greaterThan, kind := .number, value := .text " 5.0 " }]⟩ := by
    decide +kernel
  have hcalm : ∀ tree, Criteria.read rising.tree = .ok tree →
      tree.evaluate [{ typeId := "a", value := .int 7 }] = .ok true := by
    intro tree h
    cases htree.symm.trans h
    decide +kernel
  -- the rule is created, the assessment is recorded, and no tree of the store overflows on it
  have hcalls : ∃ r u a u', (Rules.create Tables.storage rising).run gauged = (.ok r, u) ∧
      (record Tables.storage (.int 3) (.list seven) .null).run u = (.ok a, u') ∧
      (tables.view.records u'.store).rules.records.all (fun q =>
        (q.tree.evaluate [{ typeId := "a", value := .int 7 }]).toBool) = true := by
    have hrun : ((do
        let _ ← Rules.create Tables.storage rising
        record Tables.storage (.int 3) (.list seven) .null).run gauged).1.toBool = true := by
      decide +kernel
    have hall : (tables.view.records ((do
        let _ ← Rules.create Tables.storage rising
        record Tables.storage (.int 3) (.list seven) .null).run gauged).2.store).rules.records.all
          (fun q => (q.tree.evaluate [{ typeId := "a", value := .int 7 }]).toBool) = true := by
      decide +kernel
    simp only [Op.run_bind] at hrun hall
    rcases hr : (Rules.create Tables.storage rising).run gauged with ⟨e | r, u⟩
    · rw [hr] at hrun
      cases hrun
    simp only [hr] at hrun hall
    rcases ha : (record Tables.storage (.int 3) (.list seven) .null).run u with ⟨e | a, u'⟩
    · rw [ha] at hrun
      cases hrun
    exact ⟨r, u, a, u', rfl, ha, by rwa [ha] at hall⟩
  obtain ⟨r, u, a, u', hr, ha, hall⟩ := hcalls
  obtain ⟨t, htest, hstanding, hbears⟩ := dry_run_tells (b := .tables) steady_gauged hwindows hr rfl
    hread fun tree h => ⟨_, hcalm tree h⟩
  have ht : t = true := by
    rw [Rules.test_eq htree hread (hcalm _ htree)] at htest
    cases htest
    rfl
  subst ht
  obtain ⟨hos, hstands⟩ := (hbears hstanding).recorded ha
  have hcalm' : Calm tables u' [{ typeId := "a", value := .int 7 }] none := fun q hq _ => by
    have hq' := List.all_eq_true.mp hall q hq
    cases he : q.tree.evaluate [{ typeId := "a", value := .int 7 }] with
    | ok t => exact ⟨t, rfl⟩
    | error e =>
      rw [he] at hq'
      cases hq'
  exact ⟨r, u, a, u', hr, htest, ha, (hbears hstands).stored (List.mem_singleton_self a) hos
    (.inl rfl) .ever rfl hcalm' true⟩

end Backing

end PropertyRisk
