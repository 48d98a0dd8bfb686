import PropertyRisk.Proofs.Sound

/-!
# Calls that keep states sound

`View.keeps_call`: whatever a call ends in, it leaves a sound state, if it opens
vulnerabilities by processing only and processes stored assessments only.
-/

namespace PropertyRisk

open Op (Triple Keeps Quiet)
open Engine

namespace View

variable {S : Type} {v : View S} {w w' u : World S} {as : List Assessment} {x : Vulnerability}

/-! ## Taking vulnerabilities away -/

/-- What a world has kept of another one while vulnerabilities were taken away. -/
structure Trimmed (v : View S) (w w' : World S) : Prop where
  rules : (v.records w'.store).rules = (v.records w.store).rules
  assessments : (v.records w'.store).assessments = (v.records w.store).assessments
  fewer : ∀ x ∈ (v.records w'.store).vulnerabilities.records,
    x ∈ (v.records w.store).vulnerabilities.records

namespace Trimmed

theorem refl : v.Trimmed w w := ⟨rfl, rfl, fun _ h => h⟩

theorem trans (h : v.Trimmed w w') (k : v.Trimmed w' u) : v.Trimmed w u :=
  ⟨k.rules.trans h.rules, k.assessments.trans h.assessments, fun x hx => h.fewer x (k.fewer x hx)⟩

theorem triggers (h : v.Trimmed w w') {tree : Criteria}
    (ht : (v.records w.store).Triggers tree x) : (v.records w'.store).Triggers tree x := by
  obtain ⟨s, a, hs, ha, hp, htrue⟩ := ht
  exact ⟨s, a, hs, h.assessments ▸ ha, hp, htrue⟩

end Trimmed

variable (law : v.Lawful)
include law

theorem keeps_deleteVulnerability (h : v.Sound as w) (id : Value) :
    Keeps (v.Sound as) (v.storage.perform (.deleteVulnerability id)) w := by
  obtain ⟨w', hrun, hb⟩ := law.deleteVulnerability id h.ready
  exact Keeps.of_run hrun (h.drop_vulnerability id hb)

theorem triple_discard (h : v.Sound as w) (hid : v.Text x.id) :
    Triple (Rules.discard v.storage x) w
      (fun _ w' => v.Sound as w' ∧ v.Trimmed w w' ∧
        x ∉ (v.records w'.store).vulnerabilities.records)
      (fun _ w' => v.Sound as w') := by
  obtain ⟨t, ht, hid⟩ := hid
  obtain ⟨w', hrun, hb⟩ := law.deleteVulnerability x.id h.ready
  have hn : v.name .deleteVulnerability x.id = .ok (some t) := hid ▸ law.name_text ht
  rw [look_of_name hn] at hrun
  rw [drop_of_name hn] at hb
  have hs : v.Sound as w' := h.drop_vulnerability x.id (by rw [drop_of_name hn]; exact hb)
  have hgone : x ∉ (v.records w'.store).vulnerabilities.records := by
    intro hm
    obtain ⟨i, -, hi, hg⟩ := hs.ready.kept.vulnerabilities.get?_of_mem hm
    have hit : i = t := Value.text.inj (hi.symm.trans hid)
    subst hit
    rw [hb.records, Shelf.get?_erase] at hg
    simp at hg
  have htrim : v.Trimmed w w' := by
    refine ⟨hb.records ▸ rfl, hb.records ▸ rfl, fun y hy => ?_⟩
    rw [hb.records] at hy
    exact Shelf.mem_records_of_erase hy
  refine Triple.bind_run (Op.run_attempt_ok hrun) ?_
  split
  · exact Triple.pure ⟨hs, htrim, hgone⟩
  · exact Triple.pure ⟨hs, htrim, hgone⟩
  · exact Triple.pure ⟨hs, htrim, hgone⟩

/-! ## Judging what a rule has found -/

theorem run_observationsOf (h : v.Ready w) {s : String} {a : Assessment}
    (ha : (v.records w.store).assessments.get? (.text s) = some a) :
    (observationsOf v.storage (.text s)).run w = (.ok a.observations, w) := by
  rw [observationsOf,
    Op.run_bind_ok (run_getAssessment_text law h (h.kept.assessments.id_of_get? ha).1), ha]
  rfl

theorem triple_reconcile (h : v.Sound as w) (hid : v.Text x.id) {r : Rule} {t : String}
    (hx : x.ruleId = .text t) (hr : (v.records w.store).rules.get? (.text t) = some r)
    (tree : Criteria) :
    Triple (Rules.reconcile v.storage tree x) w
      (fun _ w' => v.Sound as w' ∧ v.Trimmed w w' ∧
        (x ∈ (v.records w'.store).vulnerabilities.records → (v.records w'.store).Triggers tree x))
      (fun _ w' => v.Sound as w') := by
  have hdiscard : Triple (Rules.discard v.storage x) w
      (fun _ w' => v.Sound as w' ∧ v.Trimmed w w' ∧
        (x ∈ (v.records w'.store).vulnerabilities.records → (v.records w'.store).Triggers tree x))
      (fun _ w' => v.Sound as w') :=
    (triple_discard law h hid).mono
      (fun _ _ hq => ⟨hq.1, hq.2.1, fun hm => absurd hm hq.2.2⟩) (fun _ _ he => he)
  by_cases hm : x ∈ (v.records w.store).vulnerabilities.records
  · obtain ⟨s, a, hs, ha, hp, hall⟩ := h.grounds x hm
    -- the rule triggers on the assessment, so something was observed
    have hne : a.observations.isEmpty = false := by
      have htrue := hall t r hx hr
      cases ho : a.observations with
      | nil =>
        rw [ho, Criteria.evaluate_nil] at htrue
        cases htrue
      | cons => rfl
    have hobs := run_observationsOf law h.ready ha
    rw [← hs] at hobs
    refine Triple.bind_run (Op.run_attempt_ok hobs) ?_
    simp only [hne, Bool.false_eq_true, if_false]
    refine (Triple.orElse (Q := fun b w' => w' = w ∧ tree.evaluate a.observations = .ok b)
      (fun b hb => ⟨rfl, hb⟩) (fun _ _ => h)).bind ?_
    rintro b w' ⟨rfl, hb⟩
    cases b with
    | true => exact Triple.pure ⟨h, .refl, fun _ => ⟨s, a, hs, ha, hp, hb⟩⟩
    | false => exact hdiscard
  · have hq := law.readsQuietly
    have hkept : v.Sound as w ∧ v.Trimmed w w ∧
        (x ∈ (v.records w.store).vulnerabilities.records → (v.records w.store).Triggers tree x) :=
      ⟨h, .refl, fun hx => absurd hx hm⟩
    have hread : Triple (Op.attempt (observationsOf v.storage x.assessmentId)) w
        (fun _ w' => w' = w) (fun _ w' => v.Sound as w') :=
      ((quiet_observationsOf hq _).attempt.keeps (I := (· = w)) rfl).mono
        (fun _ _ ht => ht) (fun _ _ ht => ht ▸ h)
    refine hread.bind ?_
    rintro found w' rfl
    cases found with
    | error failure => exact Triple.pure hkept
    | ok observations =>
      simp only
      split
      · exact Triple.pure hkept
      · refine (Triple.orElse (Q := fun _ u => u = w') (fun _ _ => rfl) (fun _ _ => h)).bind ?_
        rintro b u rfl
        cases b with
        | true => exact Triple.pure hkept
        | false => exact hdiscard

/-- After the loop, all that is left of the list triggers. -/
theorem triple_reconcileAll (tree : Criteria) {xs : List Vulnerability} (h : v.Sound as w)
    (hid : ∀ x ∈ xs, v.Text x.id) {r : Rule} {t : String} (hx : ∀ x ∈ xs, x.ruleId = .text t)
    (hr : (v.records w.store).rules.get? (.text t) = some r) :
    Triple (Rules.reconcileAll v.storage tree xs) w
      (fun _ w' => v.Sound as w' ∧ v.Trimmed w w' ∧
        ∀ x ∈ xs, x ∈ (v.records w'.store).vulnerabilities.records →
          (v.records w'.store).Triggers tree x)
      (fun _ w' => v.Sound as w') := by
  induction xs generalizing w with
  | nil => exact Triple.pure ⟨h, .refl, nofun⟩
  | cons x rest ih =>
    refine (triple_reconcile law h (hid x List.mem_cons_self) (hx x List.mem_cons_self) hr
      tree).bind ?_
    rintro outcome w' ⟨h', htrim, hfirst⟩
    refine (ih h' (fun y hy => hid y (List.mem_cons_of_mem _ hy))
      (fun y hy => hx y (List.mem_cons_of_mem _ hy)) (htrim.rules ▸ hr)).bind ?_
    rintro others u ⟨hu, htrim', hrest⟩
    refine Triple.pure ⟨hu, htrim.trans htrim', fun y hy hm => ?_⟩
    rcases List.mem_cons.mp hy with rfl | hy
    · exact htrim'.triggers (hfirst (htrim'.fewer _ hm))
    · exact hrest y hy hm

/-! ## Changing rules -/

theorem keeps_apply (h : v.Sound as w) {id : Value} {s : String} {r : Rule}
    (hn : v.name .getRule id = .ok (some s))
    (hr : (v.records w.store).rules.get? (.text s) = some r) (patch : RulePatch)
    (window : Option Window) (isActive : Option Bool) :
    Keeps (v.Sound as) (Rules.apply v.storage r id patch window isActive) w := by
  refine ((law.triple_checkedTree patch.tree w).mono (fun _ _ ht => ht)
    (fun _ _ ht => ht ▸ h)).bind ?_
  rintro tree w' ⟨rfl, htree⟩
  obtain ⟨xs, hperm, hlist⟩ := law.listForRule h.ready h.stamped
    (law.name_congr .listVulnerabilitiesForRule hn)
  have hmem := mem_listed hperm
  refine Triple.bind_run hlist ?_
  refine (triple_reconcileAll law (tree.getD r.tree) h ?_ ?_ hr).bind ?_
  · intro x hx
    obtain ⟨i, hi, hid, -⟩ := h.ready.kept.vulnerabilities.get?_of_mem ((hmem x).mp hx).1
    exact ⟨i, hi, hid⟩
  · exact fun x hx => ((hmem x).mp hx).2
  rintro outcomes u ⟨hu, htrim, hleft⟩
  have hru : (v.records u.store).rules.get? (.text s) = some r := htrim.rules ▸ hr
  obtain ⟨u', hrun, hb⟩ := law.updateRule (Rules.changeOf patch window tree isActive)
    hu.ready (law.name_congr _ hn) hru ⟨rfl, rfl, rfl, rfl⟩ htree
  obtain ⟨hplain, hid⟩ := hu.ready.kept.rules.id_of_get? hru
  -- the rule is written only now that what it found triggers
  have hdone : v.Sound as u' := by
    cases ht : v.takes (Rules.changeOf patch window tree isActive) r.version with
    | error e =>
      rw [ht] at hb
      exact hu.congr rfl rfl rfl hb
    | ok _ =>
      rw [ht] at hb
      have hsame : (r.changed (v.kept (Rules.changeOf patch window tree isActive)) tree
          u.clock.text).id = .text s := hid
      refine hu.put_rule hplain hsame (.inl (.inl (Shelf.mem_keys_of_get? hru))) ?_ hb
      intro x hx hxs
      exact hleft x ((hmem x).mpr ⟨htrim.fewer x hx, hxs⟩) hx
  refine (Keeps.of_run hrun hdone).bind fun answer u' hu' => ?_
  cases answer
  · exact Triple.throw hu'
  · exact Triple.pure hu'

theorem keeps_updateRule (h : v.Sound as w) (id : Value) (patch : RulePatch) :
    Keeps (v.Sound as) (Rules.update v.storage id patch) w := by
  unfold Rules.update
  split
  · exact Triple.throw h
  refine Keeps.bind ((Quiet.ofExcept _).keeps h) fun _ w h => ?_
  have hget := law.getRule id h.ready
  cases hl : v.look .getRule id (v.records w.store).rules with
  | error e =>
    rw [hl] at hget
    exact Keeps.of_run (Op.run_bind_error (Op.run_bind_error hget)) h
  | ok found =>
    rw [hl] at hget
    cases found with
    | none => exact Keeps.of_run (Op.run_bind_error (Op.run_bind_ok hget)) h
    | some r =>
      obtain ⟨s, hn, hr⟩ := look_eq_some.mp hl
      refine Triple.bind_run (Op.run_bind_ok hget) (Triple.bind_ofExcept (fun _ => h) ?_)
      intro window _
      split
      · exact keeps_apply law h hn hr _ _ _
      · exact keeps_apply law h hn hr _ _ _
      · exact Triple.throw h

theorem keeps_createRule (h : v.Sound as w) (input : RuleInput) :
    Keeps (v.Sound as) (Rules.create v.storage input) w := by
  unfold Rules.create
  refine Keeps.bind ((Quiet.ofExcept _).keeps h) fun name w h => ?_
  refine Keeps.bind ((Quiet.ofExcept _).keeps h) fun description w h => ?_
  refine Keeps.bind (law.readsQuietly.now.keeps h) fun start w h => ?_
  refine Keeps.bind ((Quiet.ofExcept _).keeps h) fun window w h => ?_
  split
  · refine ((Rules.triple_checkTree law.readsQuietly _ _).mono (fun _ _ ht => ht)
      (fun _ _ ht => ht ▸ h)).bind ?_
    rintro tree w ⟨rfl, ht⟩
    refine Keeps.of_triple (law.createRule h.ready h.supplied (law.tree_of_read ht)) ?_ ?_
    · rintro r w' ⟨hid, -, hi, hb⟩
      refine h.put_rule (h.supplied.plain _) hid (.inr ⟨_, Nat.le_of_eq hi.symm, rfl⟩) ?_ hb
      exact fun x hx hxr => absurd (.inr (.inr (.inr ⟨x, hx, hxr⟩)))
        (h.supplied.unused _ (Nat.lt_succ_self _))
    · exact fun _ _ hb => h.congr rfl rfl rfl hb
  · exact Triple.throw h

theorem keeps_deleteRule (h : v.Sound as w) (id : Value) :
    Keeps (v.Sound as) (Rules.delete v.storage id) w := by
  unfold Rules.delete
  refine Keeps.bind ((Quiet.ofExcept _).keeps h) fun _ w h => ?_
  refine Keeps.bind ((law.reads rfl).keeps h) fun _ w h => ?_
  obtain ⟨w', hrun, hb⟩ := law.deleteRule id h.ready
  refine (Keeps.of_run hrun (h.drop_rule id hb)).bind fun deleted w h => ?_
  split
  · exact Triple.pure h
  · exact Triple.throw h

/-! ## Recording and processing -/

theorem triple_recordDraft (h : v.Sound as w) (p : Value) {os : List Observation}
    (hos : v.Noted os) (time : Value) :
    Triple (Assessments.recordDraft v.storage p os time) w (fun a w' => v.Sound (a :: as) w')
      (fun _ w' => v.Sound as w') := by
  have hcreate (t : Value) : Triple (v.storage.perform (.createAssessment ⟨p, os, t⟩)) w
      (fun a w' => v.Sound (a :: as) w') (fun _ w' => v.Sound as w') :=
    (law.createAssessment (d := ⟨p, os, t⟩) h.ready h.supplied hos).mono
      (fun _ _ ⟨hid, _, hp, hi, hb⟩ => h.put_assessment hid hp hi hb)
      (fun _ _ hb => h.congr rfl rfl rfl hb)
  unfold Assessments.recordDraft
  split
  · exact Triple.bind_ofExcept (fun _ => h) fun _ _ => hcreate _
  · exact hcreate _

theorem triple_record (h : v.Sound as w) (p observations time : Value) :
    Triple (Assessments.record v.storage p observations time) w
      (fun a w' => v.Sound (a :: as) w') (fun _ w' => v.Sound as w') :=
  Triple.bind_ofExcept (fun _ => h) fun _ hos =>
    triple_recordDraft law h p (law.noted_of_read hos) time

omit law in
/-- An assessment that is stored can be counted among the recorded ones. -/
theorem Sound.note (h : v.Sound as w) {a : Assessment} (ha : (v.records w.store).Records a) :
    v.Sound (a :: as) w :=
  { h with recorded := fun _ hc => (List.mem_cons.mp hc).elim (· ▸ ha) (h.recorded _) }

/-- What a triggered rule opens has its grounds: it is opened on the observations
that are stored. -/
theorem keeps_open (h : v.Sound as w) (dedupe : Bool) {a : Assessment} (ha : a ∈ as) {r : Rule}
    {t : String} (hr : (v.records w.store).rules.get? (.text t) = some r)
    (htrue : r.tree.evaluate a.observations = .ok true) :
    Keeps (v.Sound as) (Assessments.open_ v.storage dedupe a r) w := by
  obtain ⟨i, hi, hget⟩ := h.recorded a ha
  obtain ⟨htp, ht⟩ := h.ready.kept.rules.id_of_get? hr
  have hip := (h.ready.kept.assessments.id_of_get? hget).1
  have hcreate : Keeps (v.Sound as)
      (Vulnerabilities.create v.storage r.id a.id a.propertyId .null) w := by
    obtain ⟨w', hrun, hissued, hb⟩ := law.createVulnerability h.ready h.supplied htp hip
      (h.ready.kept_get? hget)
    rw [hi, ht]
    exact Triple.bind_run law.now (Keeps.of_run hrun (h.put_opened hget hr htrue hissued hb))
  have hrest (existing : Option Vulnerability) : Keeps (v.Sound as)
      (if existing.isSome then pure none
        else do return some (← Vulnerabilities.create v.storage r.id a.id a.propertyId .null))
      w := by
    split
    · exact Triple.pure h
    · exact hcreate.bind fun _ _ h => Triple.pure h
  unfold Assessments.open_
  split
  · refine Triple.bind ((Vulnerabilities.quiet_findUnresolved law.readsQuietly _ _).keeps
      (I := (· = w)) rfl |>.mono (fun _ _ hw => hw) fun _ _ hw => hw ▸ h) ?_
    rintro existing _ rfl
    exact hrest existing
  · exact Triple.bind_run rfl (hrest none)

theorem keeps_judgeRule (h : v.Sound as w) (dedupe : Bool) {a : Assessment} (ha : a ∈ as)
    {r : Rule} {t : String} (hr : (v.records w.store).rules.get? (.text t) = some r) :
    Keeps (v.Sound as) (Assessments.judgeRule v.storage dedupe a r) w := by
  refine (Triple.orElse (Q := fun b w' => w' = w ∧ r.tree.evaluate a.observations = .ok b)
    (fun _ hb => ⟨rfl, hb⟩) (fun _ _ => h)).bind ?_
  rintro b w' ⟨rfl, hb⟩
  cases b with
  | false => exact Triple.pure h
  | true =>
    refine Keeps.bind (keeps_open law h dedupe ha hr hb).attempt fun found w h => ?_
    rcases found with _ | _ | _ <;> exact Triple.pure h

theorem keeps_examine (h : v.Sound as w) (dedupe : Bool) {a : Assessment} (ha : a ∈ as)
    (time : Option String) (candidate : Rule) :
    Keeps (v.Sound as) (Assessments.examine v.storage dedupe a time candidate) w := by
  have hget := law.getRule candidate.id h.ready
  have hread : Triple (Op.attempt (v.storage.perform (.getRule candidate.id))) w
      (fun found w' => w' = w ∧ ∀ r, found = .ok (some r) →
        ∃ t, (v.records w.store).rules.get? (.text t) = some r)
      (fun _ w' => v.Sound as w') := by
    cases hl : v.look .getRule candidate.id (v.records w.store).rules with
    | error e =>
      rw [hl] at hget
      exact Triple.attempt (Triple.of_run_error hget ⟨fun _ _ => ⟨rfl, nofun⟩, h⟩)
    | ok found =>
      rw [hl] at hget
      refine Triple.attempt (Triple.of_run hget ⟨rfl, fun r hr => ?_⟩)
      cases hr
      obtain ⟨t, -, ht⟩ := look_eq_some.mp hl
      exact ⟨t, ht⟩
  refine hread.bind ?_
  rintro found w' ⟨rfl, hfound⟩
  rcases found with failure | _ | r
  · exact Triple.pure h
  · exact Triple.pure h
  obtain ⟨t, hr⟩ := hfound r rfl
  refine Triple.bind_ofExcept (fun _ => h) fun b _ => ?_
  split
  · exact keeps_judgeRule law h dedupe ha hr
  · exact Triple.pure h

theorem keeps_examineAll (dedupe : Bool) {a : Assessment} (ha : a ∈ as) (time : Option String)
    (candidates : List Rule) (h : v.Sound as w) :
    Keeps (v.Sound as) (Assessments.examineAll v.storage dedupe a time candidates) w := by
  induction candidates generalizing w with
  | nil => exact Triple.pure h
  | cons candidate rest ih =>
    refine Keeps.bind (keeps_examine law h dedupe ha time candidate) fun verdict w h => ?_
    exact Keeps.bind (ih h) fun others w h => Triple.pure h

end View

namespace Engine

/-- An assessment given by id, or as it was recorded. -/
def AssessmentSource.Among (as : List Assessment) : AssessmentSource → Prop
  | .stored _ => True
  | .record a => a ∈ as
  | .draft _ => False

end Engine

namespace View

variable {S : Type} {v : View S} {w w' : World S} {as : List Assessment}

variable (law : v.Lawful)
include law

theorem triple_resolve (h : v.Sound as w) {source : AssessmentSource} (hs : source.Among as) :
    Triple (Assessments.resolve v.storage source) w (fun a w' => v.Sound (a :: as) w')
      (fun _ w' => v.Sound as w') := by
  cases source with
  | record a => exact Triple.pure (h.note (h.recorded a hs))
  | draft d => exact hs.elim
  | stored id =>
    have hget := law.getAssessment id h.ready
    cases hl : v.look .getAssessment id (v.records w.store).assessments with
    | error e =>
      rw [hl] at hget
      exact Triple.of_run_error (Op.run_bind_error hget) h
    | ok found =>
      rw [hl] at hget
      refine Triple.bind_run hget ?_
      cases found with
      | none => exact Triple.throw h
      | some a =>
        obtain ⟨s, -, ha⟩ := look_eq_some.mp hl
        exact Triple.pure (h.note ⟨s, (h.ready.kept.assessments.id_of_get? ha).2, ha⟩)

/-- What follows may rely on the assessment being stored. -/
theorem keeps_resolved (h : v.Sound as w) {source : AssessmentSource} (hs : source.Among as)
    {f : Assessment → Op (World S) α}
    (hf : ∀ a w, v.Sound (a :: as) w → Keeps (v.Sound (a :: as)) (f a) w) :
    Keeps (v.Sound as) (Assessments.resolve v.storage source >>= f) w := by
  refine (triple_resolve law h hs).bind fun a w h => ?_
  have hless (u : World S) (hu : v.Sound (a :: as) u) : v.Sound as u :=
    hu.mono fun _ => List.mem_cons_of_mem a
  exact (hf a w h).imp hless

theorem keeps_process (h : v.Sound as w) (dedupe : Bool) {source : AssessmentSource}
    (hs : source.Among as) :
    Keeps (v.Sound as) (Assessments.process v.storage dedupe source) w := by
  refine keeps_resolved law h hs fun a w h => ?_
  refine Keeps.bind ((law.reads rfl).keeps h) fun candidates w h => ?_
  refine Keeps.bind (keeps_examineAll law dedupe List.mem_cons_self none candidates h) ?_
  exact fun _ _ h => Triple.pure h

theorem keeps_processAt (h : v.Sound as w) (dedupe : Bool) {source : AssessmentSource}
    (hs : source.Among as) (time : Value) :
    Keeps (v.Sound as) (Assessments.processAt v.storage dedupe source time) w := by
  refine keeps_resolved law h hs fun a w h => ?_
  simp only
  split
  · exact Triple.throw h
  refine Keeps.bind ((Quiet.ofExcept _).keeps h) fun stamp w h => ?_
  refine Keeps.bind ((law.reads rfl).keeps h) fun candidates w h => ?_
  refine Keeps.bind (keeps_examineAll law dedupe List.mem_cons_self _ candidates h) ?_
  exact fun _ _ h => Triple.pure h

/-! ## Working on vulnerabilities -/

theorem keeps_reexamine (h : v.Sound as w) (x : Vulnerability) :
    Keeps (v.Sound as) (Vulnerabilities.reexamine v.storage x) w := by
  have hq := law.readsQuietly
  have hdiscard (w : World S) (h : v.Sound as w) :
      Keeps (v.Sound as) (Vulnerabilities.discard v.storage x) w := by
    refine Keeps.bind (keeps_deleteVulnerability law h x.id).attempt fun found w h => ?_
    rcases found with _ | _ | _ <;> exact Triple.pure h
  refine Keeps.bind ((law.reads rfl).keeps h).attempt fun found w h => ?_
  rcases found with failure | _ | rule
  · exact Triple.pure h
  · exact Triple.pure h
  refine Keeps.bind ((quiet_observationsOf hq _).keeps h).attempt fun found w h => ?_
  rcases found with failure | observations
  · exact Triple.pure h
  simp only
  split
  · exact Triple.pure h
  refine Keeps.bind ((Quiet.orElse _ _).keeps h) fun b w h => ?_
  split
  · exact Triple.pure h
  · exact hdiscard w h

theorem keeps_reexamineAll (xs : List Vulnerability) (h : v.Sound as w) :
    Keeps (v.Sound as) (Vulnerabilities.reexamineAll v.storage xs) w := by
  induction xs generalizing w with
  | nil => exact Triple.pure h
  | cons x rest ih =>
    refine Keeps.bind (keeps_reexamine law h x) fun finding w h => ?_
    exact Keeps.bind (ih h) fun others w h => Triple.pure h

theorem keeps_reevaluate (h : v.Sound as w) (p : Value) :
    Keeps (v.Sound as) (Vulnerabilities.reevaluate v.storage p) w := by
  refine Keeps.bind ((law.reads rfl).keeps h) fun xs w h => ?_
  exact Keeps.bind (keeps_reexamineAll law xs h) fun findings w h => Triple.pure h

theorem keeps_change (h : v.Sound as w) (id : Value) {change : VulnerabilityChange}
    (hc : change.IsWorkflow) : Keeps (v.Sound as) (Vulnerabilities.change v.storage id change) w := by
  refine Triple.bind (Q := fun _ w' => v.Sound as w') ?_ fun found w h => ?_
  · refine Keeps.of_triple (law.updateVulnerability id h.ready hc) ?_ (fun _ _ he => he ▸ h)
    intro found w' hw
    cases found with
    | none => exact hw ▸ h
    | some y =>
      obtain ⟨s, x, hx, hsame, hb⟩ := hw
      exact h.put_changed hx hsame hb
  · cases found
    · exact Triple.throw h
    · exact Triple.pure h

theorem keeps_assignMitigationType (h : v.Sound as w) (id typeId : Value) :
    Keeps (v.Sound as) (Vulnerabilities.assignMitigationType v.storage id typeId) w := by
  refine Keeps.bind ((law.reads rfl).keeps h) fun found w h => ?_
  cases found with
  | none => exact Triple.throw h
  | some type =>
    refine Keeps.bind (law.readsQuietly.now.keeps h) fun now w h => ?_
    exact keeps_change law h id ⟨rfl, rfl, rfl, rfl, rfl, nofun, rfl⟩

theorem keeps_applyMitigation (h : v.Sound as w) (id valueId description : Value) :
    Keeps (v.Sound as) (Vulnerabilities.applyMitigation v.storage id valueId description) w := by
  refine Keeps.bind (law.readsQuietly.now.keeps h) fun now w h => ?_
  refine keeps_change law h id ⟨rfl, rfl, rfl, rfl, rfl, fun x hx => ?_, rfl⟩
  cases hx
  exact ⟨_, rfl⟩

theorem keeps_updateStatus (h : v.Sound as w) (enforced : Bool) (id status notes : Value) :
    Keeps (v.Sound as) (Vulnerabilities.updateStatus v.storage enforced id status notes) w := by
  unfold Vulnerabilities.updateStatus
  simp only
  split
  · exact Triple.throw h
  refine Keeps.bind ((Vulnerabilities.quiet_get law.readsQuietly id).keeps h) fun x w h => ?_
  refine Keeps.bind ((Quiet.ofExcept _).keeps h) fun backwards w h => ?_
  split
  · exact Triple.throw h
  refine Keeps.bind (law.readsQuietly.now.keeps h) fun now w h => ?_
  refine Keeps.bind (keeps_change law h id ⟨rfl, rfl, rfl, rfl, rfl, fun x hx => ?_, rfl⟩)
    fun y w h => Triple.pure h
  cases hx
  exact ⟨_, rfl⟩

/-! ## Catalogs -/

theorem keeps_catalog (h : v.Sound as w) {r : Request α} (hr : r.isCatalogWrite) :
    Keeps (v.Sound as) (v.storage.perform r) w := by
  have hmono (w' : World S) : (∃ m, m.rules = (v.records w.store).rules ∧
      m.vulnerabilities = (v.records w.store).vulnerabilities ∧
      m.assessments = (v.records w.store).assessments ∧ v.Becomes w m w') → v.Sound as w' := by
    rintro ⟨m, hm, hv, ha, hb⟩
    exact h.congr hm hv ha hb
  exact (law.catalogs h.ready hr).imp hmono

theorem keeps_createObservationType (h : v.Sound as w) (name kind description multiple : Value) :
    Keeps (v.Sound as)
      (Catalogs.createObservationType v.storage name kind description multiple) w :=
  Keeps.bind ((Quiet.ofExcept _).keeps h) fun _ _ h => keeps_catalog law h rfl

theorem keeps_createObservationValue (h : v.Sound as w) (typeId value description : Value) :
    Keeps (v.Sound as) (Catalogs.createObservationValue v.storage typeId value description) w := by
  refine Keeps.bind ((law.reads rfl).keeps h) fun found w h => ?_
  split
  · exact Triple.throw h
  · exact keeps_catalog law h rfl

theorem keeps_createMitigationValue (h : v.Sound as w) (typeId value description category : Value) :
    Keeps (v.Sound as)
      (Catalogs.createMitigationValue v.storage typeId value description category) w := by
  refine Keeps.bind ((law.reads rfl).keeps h) fun found w h => ?_
  cases found with
  | none => exact Triple.throw h
  | some type => exact Keeps.bind ((Quiet.ofExcept _).keeps h) fun _ _ h => keeps_catalog law h rfl

end View

/-! ## Calls -/

namespace Engine.Call

/-- Whether a call may be made once `recorded` were recorded: vulnerabilities are
opened by processing only, and an assessment to process is one of these or is
given by id. -/
def Permitted (recorded : List Assessment) : Call → Prop
  | createVulnerability .. => False
  | process source | processAt source _ => source.Among recorded
  | _ => True

/-- The recorded assessments after a call. -/
def recorded (as : List Assessment) : Call → Except Error Reply → List Assessment
  | recordAssessment .., .ok (.assessment a) => a :: as
  | _, _ => as

end Engine.Call

namespace View

variable {S : Type} {v : View S} {w : World S} {as : List Assessment} (law : v.Lawful)
include law

theorem keeps_call (h : v.Sound as w) (policy : Policy) {c : Call} (hc : c.Permitted as) :
    Keeps (v.Sound as) (c.run policy v.storage) w := by
  cases c with
  | createRule input => exact (keeps_createRule law h input).map _
  | updateRule id patch => exact (keeps_updateRule law h id patch).map _
  | deleteRule id => exact (keeps_deleteRule law h id).map _
  | createVulnerability => exact hc.elim
  | assignMitigationType id typeId => exact (keeps_assignMitigationType law h id typeId).map _
  | applyMitigation id valueId description =>
    exact (keeps_applyMitigation law h id valueId description).map _
  | updateStatus id status notes => exact (keeps_updateStatus law h _ id status notes).map _
  | reevaluateProperty p => exact (keeps_reevaluate law h p).map _
  | recordAssessment p observations time =>
    have hless (u : World S) : (∃ a, v.Sound (a :: as) u) → v.Sound as u :=
      fun ⟨a, hu⟩ => hu.mono fun _ => List.mem_cons_of_mem a
    exact Keeps.map _ (Keeps.of_triple (triple_record law h p observations time)
      (fun a u hu => hless u ⟨a, hu⟩) (fun _ _ hu => hu))
  | process source => exact (keeps_process law h _ hc).map _
  | processAt source time => exact (keeps_processAt law h _ hc time).map _
  | createObservationType name kind description multiple =>
    exact (keeps_createObservationType law h name kind description multiple).map _
  | createObservationValue typeId value description =>
    exact (keeps_createObservationValue law h typeId value description).map _
  | createMitigationType name description multiple =>
    exact (keeps_catalog law h rfl).map _
  | createMitigationValue typeId value description category =>
    exact (keeps_createMitigationValue law h typeId value description category).map _
  | _ => exact (Call.quiet_of_isRead law.readsQuietly policy rfl).keeps h

/-- The step: after a call the state is sound, with what the call recorded. -/
theorem sound_call (h : v.Sound as w) (policy : Policy) {c : Call} (hc : c.Permitted as) :
    v.Sound (c.recorded as ((c.run policy v.storage).run w).1)
      ((c.run policy v.storage).run w).2 := by
  have hkeep := (keeps_call law h policy hc).state
  cases c with
  | recordAssessment p observations time =>
    simp only [Call.run, Op.run_map] at hkeep ⊢
    have htriple := triple_record law h p observations time
    rcases hr : (Assessments.record v.storage p observations time).run w with ⟨_ | a, w'⟩
    · exact htriple.error hr
    · exact htriple.ok hr
  | _ => exact hkeep

end View

end PropertyRisk
