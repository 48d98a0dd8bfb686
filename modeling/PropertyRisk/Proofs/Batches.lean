import PropertyRisk.Proofs.Judgements

/-!
# Batches are gone through to their end

`Backing.batches_complete`: processing an assessment, changing a rule and judging a
property again come to an outcome for every rule or vulnerability on their lists, as
long as no tree comes to compare a huge number by order. `Backing.batch_aborted` has a
batch that ends early because one does.
-/

namespace PropertyRisk

open Engine
open Engine.Assessments

/-- Without failures to inject, a storage is as it was. -/
theorem Storage.guarded_nil {σ : Type} (g : Storage σ) : (g.guarded fun _ => []) = g := by
  obtain ⟨now, perform⟩ := g
  rfl

namespace View

variable {S : Type} {v : View S} {w u : World S} {a : Assessment} {i : String}

/-! ## The assessment at hand -/

/-- An assessment at hand is stored, and the rules and what they found are as before. -/
structure AtHand (v : View S) (w : World S) (a : Assessment) (i : String) (u : World S) : Prop
    extends v.Processing u a i where
  rules : (v.records u.store).rules = (v.records w.store).rules
  found : (v.records u.store).vulnerabilities = (v.records w.store).vulnerabilities

variable (law : v.Lawful)
include law

theorem atHand_of_recordDraft (h : v.Steady w) {p time : Value} {os : List Observation}
    (hos : v.Noted os) (hrun : (recordDraft v.storage p os time).run w = (.ok a, u)) :
    ∃ i, v.AtHand w a i u := by
  have hcreate {t : Value}
      (hrun : (v.storage.perform (.createAssessment ⟨p, os, t⟩)).run w = (.ok a, u)) :
      ∃ i, v.AtHand w a i u := by
    obtain ⟨hid, -, hp, hissued, hb⟩ :=
      (law.createAssessment (d := ⟨p, os, t⟩) h.ready h.supplied hos).ok hrun
    refine ⟨_, ⟨h.put_assessment hid hp hissued hb, hid, ?_⟩, hb.records ▸ rfl, hb.records ▸ rfl⟩
    rw [hb.records, Shelf.get?_put, if_pos rfl]
  unfold recordDraft at hrun
  split at hrun
  · cases hstamp : requireStampValue time with
    | error e =>
      rw [hstamp, Op.run_bind_error (Op.run_ofExcept_error e w)] at hrun
      cases hrun
    | ok stamp =>
      rw [hstamp, Op.run_bind_ok (Op.run_ofExcept_ok stamp w)] at hrun
      exact hcreate hrun
  · exact hcreate hrun

/-- What a call has come to that processed an assessment: a report on the listed rules, and
the store with what they opened. -/
structure Processed (v : View S) (u : World S) (a : Assessment) (dedupe : Bool)
    (instant : Option String) (rules : List Rule) (report : ProcessReport) (u' : World S) :
    Prop where
  accounts : Accounts [] dedupe (v.records u.store).vulnerabilities.records a instant
    (opening u a) rules report
  steady : v.Steady u'
  becomes : v.Becomes u ((v.records u.store).adding (openings u a (rules.filter
    (fateOf [] dedupe (v.records u.store).vulnerabilities.records a instant · = .created)))) u'
  still : report.created = [] → u' = u

/-- Where no rule comes to open anything, nothing changes. -/
theorem still_examineAll (hu : v.Processing u a i) (dedupe : Bool) {instant : Option String}
    {rules : List Rule} (hrs : ∀ r ∈ rules, r ∈ (v.records u.store).rules.records)
    (hcand : ∀ r ∈ rules, isCandidate instant r = true)
    (hpart : ∀ r ∈ rules, takesPart instant r = .ok (isPresent instant r))
    (hj : ∀ r ∈ rules, isPresent instant r = true →
      r.tree.evaluate a.observations = .ok (holdsOn a r))
    (hno : ∀ r ∈ rules,
      fateOf [] dedupe (v.records u.store).vulnerabilities.records a instant r ≠ .created) :
    Op.Keeps (· = u) (examineAll (v.storage.guarded fun _ => []) dedupe a instant rules) u := by
  have hnone : Storage.ForRules [] := nofun
  induction rules with
  | nil => exact Op.Triple.pure rfl
  | cons r rest ih =>
    obtain ⟨t, -, -, hr⟩ := hu.ready.kept.rules.get?_of_mem (hrs r List.mem_cons_self)
    obtain ⟨u₁, hrun, hafter⟩ := run_examine law hu hnone dedupe hr (hcand r List.mem_cons_self)
      (hpart r List.mem_cons_self) fun _ => hj r List.mem_cons_self
    rw [if_neg (hno r List.mem_cons_self)] at hafter
    subst hafter
    have hrest : ∀ q ∈ rest, q ∈ r :: rest := fun q => List.mem_cons_of_mem r
    have hkeeps := ih (fun q hq => hrs q (hrest q hq)) (fun q hq => hcand q (hrest q hq))
      (fun q hq => hpart q (hrest q hq)) (fun q hq => hj q (hrest q hq))
      fun q hq => hno q (hrest q hq)
    exact Op.Triple.bind_run hrun (hkeeps.bind fun others t ht => Op.Triple.pure ht)

/-- The listed rules are judged on an assessment at hand, where they take part. -/
theorem run_processWhen_listed (hu : v.Processing u a i) (dedupe : Bool) {source : AssessmentSource}
    (hs : source = .stored (.text i) ∨ source = .record a) {time : Option Value}
    {instant : Option String} (ht : JudgesAt a time instant)
    (hwindows : ∀ r ∈ (v.records u.store).rules.records, r.window.Readable)
    (hj : ∀ r ∈ (v.records u.store).rules.records, isPresent instant r = true →
      ∃ t, r.tree.evaluate a.observations = .ok t) {rules : List Rule}
    (hlist : (v.storage.perform .listRules).run u = (.ok rules, u)) :
    ∃ report u', (processWhen v.storage dedupe source time).run u = (.ok report, u') ∧
      v.Processed u a dedupe instant rules report u' := by
  obtain ⟨rules', hperm, hlist'⟩ := law.listRules hu.ready
  cases hlist.symm.trans hlist'
  have hmem (r : Rule) : r ∈ rules → r ∈ (v.records u.store).rules.records := hperm.mem_iff.mp
  have hnd : (rules.map Rule.id).Nodup :=
    (hperm.map Rule.id).nodup_iff.mpr hu.ready.kept.rules.nodup_ids
  have hnone : Storage.ForRules [] := nofun
  have hcandidate (r : Rule) (hr : r ∈ rules.filter (isCandidate instant)) :
      r ∈ (v.records u.store).rules.records :=
    hmem r (List.mem_filter.mp hr).1
  have hcand (r : Rule) (hr : r ∈ rules.filter (isCandidate instant)) :
      isCandidate instant r = true := (List.mem_filter.mp hr).2
  have hpart (r : Rule) (hr : r ∈ rules.filter (isCandidate instant)) :
      takesPart instant r = .ok (isPresent instant r) :=
    takesPart_eq ht (hwindows r (hcandidate r hr))
  have hholds (r : Rule) (hr : r ∈ rules.filter (isCandidate instant))
      (hpresent : isPresent instant r = true) :
      r.tree.evaluate a.observations = .ok (holdsOn a r) := by
    obtain ⟨holds, hholds⟩ := hj r (hcandidate r hr) hpresent
    simp [holdsOn, hholds]
  obtain ⟨u', hrun, hsteady, hb⟩ := run_examineAll law hu hnone dedupe
    (hnd.sublist (List.filter_sublist.map _)) hcandidate hcand hpart fun r hr _ => hholds r hr
  have hwhen := run_processWhen law hu hnone dedupe hs ht (fun r hr => hwindows r (hmem r hr)) hlist
  rw [Op.run_map, hrun, Storage.guarded_nil] at hwhen
  rw [filter_candidates (p := (· = .created)) rfl] at hb
  refine ⟨_, u', hwhen, accounts_report hnd, hsteady, hb, fun hcreated => ?_⟩
  -- where nothing is reported as created, no rule came to open anything
  have hnothing (r : Rule) (hr : r ∈ rules) : ¬fateOf [] dedupe
      (v.records u.store).vulnerabilities.records a instant r = .created := by
    rw [(accounts_report hnd).created, List.mapIdx_eq_nil_iff, List.filter_eq_nil_iff] at hcreated
    simpa using hcreated r hr
  have hstill := (still_examineAll law hu dedupe hcandidate hcand hpart hholds fun r hr =>
    hnothing r (List.mem_filter.mp hr).1).state
  rwa [hrun] at hstill

end View

/-! ## Whole calls -/

namespace Backing

variable {b : Backing} {w : World b.Store}

/-- Judging a property again judges everything that is listed for it. -/
theorem reevaluate_complete (hw : b.view.Ready w) (hst : Stamped (b.vulnerabilities w.store))
    {p : Value} {xs : List Vulnerability}
    (hlist : (b.storage.perform (.listVulnerabilitiesForProperty p none)).run w = (.ok xs, w))
    (hj : ∀ x ∈ xs, ∀ r, (b.view.records w.store).ruleOf? x = some r →
      r.tree.Comparable (b.storage.observed w x)) :
    ∃ w', (Vulnerabilities.reevaluate b.storage p).run w =
        (.ok (Vulnerabilities.summary p (xs.map fun x => (x, b.view.findingOf w x))), w') ∧
      b.view.Becomes w ((b.view.records w.store).dropping fun x =>
        x.propertyId.equal (b.spot p) && b.view.refuted w x) w' := by
  rw [← b.view_storage] at hj
  exact run_reevaluate_judged hw hst hlist fun x hx r hr => (hj x hx r hr).evaluate

end Backing

end PropertyRisk
