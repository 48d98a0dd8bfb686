import PropertyRisk.Proofs.Alike
import PropertyRisk.Proofs.Founded
import PropertyRisk.Proofs.Listing

/-!
# What judging a property again removes

`Backing.reevaluation_exact`: judging a property again deletes just those of its
vulnerabilities for which the storage does not fail and whose observations refute the
rule that found them. Those whose rule is gone and those for which the storage fails
are reported in the order in which they are listed, and stay as they are. Where the
storage does not fail for any, nothing is left to delete when the property is judged
once more.
-/

namespace PropertyRisk

open Engine

/-! ## Storages that fail for one vulnerability at a time -/

namespace Storage

/-- The vulnerability that is being judged, and those that wait, by their ids. -/
structure Turn where
  current : Option Value := none
  waiting : List Value

def Turn.next (turn : Turn) : Turn := ⟨turn.waiting.head?, turn.waiting.tail⟩

/-- Whose turn it is when a request is made: a vulnerability's rule is asked for first. -/
def Turn.at (turn : Turn) (operation : Operation) : Turn :=
  if operation = .getRule then turn.next else turn

variable {σ : Type}

/-- A storage that fails, without effect, for the vulnerabilities that it is told to. What
is asked before any of them is judged passes through. -/
def faltering (fails : Failures) (g : Storage σ) : Storage (σ × Turn) where
  now := Op.within .first g.now
  perform r := fun (s, turn) =>
    match (turn.at r.operation).current.bind (fails r.operation) with
    | some cause => (.error (.storage ⟨r.operation, cause⟩), (s, turn.at r.operation))
    | none => Op.within .first (g.perform r) (s, turn.at r.operation)

/-- Whether nothing fails on behalf of a vulnerability that is judged again. -/
def Failures.spares (fails : Failures) (id : Value) : Bool :=
  (fails .getRule id).isNone && (fails .getAssessment id).isNone &&
    (fails .deleteVulnerability id).isNone

variable {fails : Failures} {g : Storage σ} {s : σ} {turn : Turn} {id : Value}
  {waiting : List Value}

theorem run_faltering_fails (r : Request α) (ht : turn.at r.operation = ⟨id, waiting⟩)
    {cause : StorageCause} (h : fails r.operation id = some cause) :
    ((g.faltering fails).perform r).run (s, turn) =
      (.error (.storage ⟨r.operation, cause⟩), (s, ⟨id, waiting⟩)) := by
  simp only [faltering, Op.run, ht, Option.bind_some, h]

theorem run_faltering_passes (r : Request α)
    (h : (turn.at r.operation).current.bind (fails r.operation) = none) :
    ((g.faltering fails).perform r).run (s, turn) =
      (((g.perform r).run s).1, (((g.perform r).run s).2, turn.at r.operation)) := by
  simp only [faltering, Op.run, h]
  rfl

theorem run_faltering_spares (r : Request α) (ht : turn.at r.operation = ⟨id, waiting⟩)
    (h : fails r.operation id = none) {a : Except Error α} {s' : σ}
    (hr : (g.perform r).run s = (a, s')) :
    ((g.faltering fails).perform r).run (s, turn) = (a, (s', ⟨id, waiting⟩)) := by
  rw [run_faltering_passes r (by rw [ht]; exact h), hr, ht]

/-- What is asked before any vulnerability is judged passes through. -/
theorem run_faltering_first {r : Request α} (hr : Turn.at { waiting } r.operation = { waiting })
    {a : Except Error α} {s' : σ} (h : (g.perform r).run s = (a, s')) :
    ((g.faltering fails).perform r).run (s, { waiting }) = (a, (s', { waiting })) := by
  rw [run_faltering_passes r (by rw [hr]; rfl), h, hr]

/-- A storage that fails for no vulnerability answers as if it were told of none. -/
theorem alike_faltering (h : ∀ operation id, fails operation id = none) :
    Storage.Alike (fun (t : σ × Turn) s => t.1 = s) (g.faltering fails) g := by
  have hsame {α : Type} (a : Except Error α) : PropertyRisk.Alike Eq a a := by
    cases a with
    | ok a => exact .ok rfl
    | error e => exact .error (.same e)
  constructor
  case now =>
    rintro ⟨s, turn⟩ _ rfl
    exact ⟨hsame _, rfl⟩
  case perform =>
    rintro α r ⟨s, turn⟩ _ rfl
    have hnone : (turn.at r.operation).current.bind (fails r.operation) = none := by
      cases (turn.at r.operation).current <;> simp [h]
    rw [run_faltering_passes r hnone]
    exact ⟨hsame _, rfl⟩

end Storage

/-! ## What becomes of a vulnerability -/

namespace Engine.Vulnerabilities

variable (fails : Storage.Failures) (rule? : Option Rule) (os : List Observation) (id : Value)

/-- What judging a vulnerability again comes to, given its rule if there still is one. -/
def findingAmid : Finding :=
  match fails .getRule id, rule? with
  | some cause, _ => .failed ⟨.getRule, cause⟩
  | none, none => .orphaned
  | none, some rule =>
    match fails .getAssessment id with
    | some cause => .failed ⟨.getAssessment, cause⟩
    | none =>
      if rule.tree.refutes os then
        match fails .deleteVulnerability id with
        | some cause => .failedToRemove ⟨.deleteVulnerability, cause⟩
        | none => .removed
      else if os.isEmpty then .unjudged
      else .kept

/-- The failure that judging a vulnerability again runs into, if any. -/
def failureAmid : Option StorageFailure :=
  match fails .getRule id with
  | some cause => some ⟨.getRule, cause⟩
  | none => rule?.bind fun rule => Rules.failureOf fails rule.tree os id

variable {fails rule? os id}

theorem failure_findingAmid :
    (findingAmid fails rule? os id).failure? = failureAmid fails rule? os id := by
  unfold findingAmid failureAmid Rules.failureOf
  repeat' split
  all_goals simp_all [Finding.failure?]

theorem findingAmid_eq_removed : findingAmid fails rule? os id = .removed ↔
    (fails.spares id && rule?.any (·.tree.refutes os)) = true := by
  unfold findingAmid Storage.Failures.spares
  repeat' split
  all_goals simp_all

theorem findingAmid_eq_orphaned : findingAmid fails rule? os id = .orphaned ↔
    ((fails .getRule id).isNone && rule?.isNone) = true := by
  unfold findingAmid
  repeat' split
  all_goals simp_all

theorem isChecked_findingAmid : (findingAmid fails rule? os id).isChecked =
    ((fails .getRule id).isNone && (fails .getAssessment id).isNone && rule?.isSome &&
      !os.isEmpty) := by
  have hsome {tree : Criteria} (h : tree.refutes os = true) : os ≠ [] :=
    (Criteria.refutes_iff.mp h).1
  unfold findingAmid
  repeat' split
  all_goals simp_all [Finding.isChecked]
  all_goals exact hsome ‹_›

/-- A storage that fails for no vulnerability comes to what the storage under it does. -/
theorem run_reevaluate_sound {σ : Type} {g : Storage σ} {p : Value} {s s' : σ}
    {turn turn' : Storage.Turn} {report : Reevaluation}
    (hsound : ∀ operation id, fails operation id = none)
    (hrun : (reevaluate (g.faltering fails) p).run (s, turn) = (.ok report, (s', turn')))
    (hnone : report.errors = []) : (reevaluate g p).run s = (.ok report, s') := by
  obtain ⟨hend, hstate⟩ := alike_reevaluate (Storage.alike_faltering hsound) p (s, turn) s rfl
  rw [hrun] at hend hstate
  rcases hplain : (reevaluate g p).run s with ⟨r, t⟩
  rw [hplain] at hend hstate
  cases hend with
  | ok halike =>
    rename_i report'
    -- reports that list no failure differ in nothing
    have herrors : report'.errors = [] :=
      List.forall₂_nil_left_iff.mp (hnone ▸ halike.errors)
    have hsame : report' = report := halike.rest.trans (by rw [herrors, ← hnone])
    have hst : s' = t := hstate
    rw [hsame, hst]

end Engine.Vulnerabilities

namespace View

variable {S : Type} {v : View S} {w : World S} {x : Vulnerability} {fails : Storage.Failures}

/-- What judging a vulnerability again comes to in a world. -/
def findingAmid (v : View S) (fails : Storage.Failures) (w : World S) (x : Vulnerability) :
    Vulnerabilities.Finding :=
  Vulnerabilities.findingAmid fails ((v.records w.store).ruleOf? x) (v.storage.observed w x) x.id

/-- Whether judging a vulnerability again removes it: nothing fails for it, and its rule is
there and does not trigger any more. -/
def removes (v : View S) (fails : Storage.Failures) (w : World S) (x : Vulnerability) : Bool :=
  fails.spares x.id && v.refuted w x

/-- Whether a vulnerability comes to be judged: its rule and its observations can be read, and
there are some. -/
def checks (v : View S) (fails : Storage.Failures) (w : World S) (x : Vulnerability) : Bool :=
  (fails .getRule x.id).isNone && (fails .getAssessment x.id).isNone &&
    ((v.records w.store).ruleOf? x).isSome && !(v.storage.observed w x).isEmpty

/-- What can be read of a vulnerability can be judged. -/
def Judges (v : View S) (fails : Storage.Failures) (w : World S) (x : Vulnerability) : Prop :=
  fails .getRule x.id = none → fails .getAssessment x.id = none →
    ∀ r, (v.records w.store).ruleOf? x = some r →
      ∃ t, r.tree.evaluate (v.storage.observed w x) = .ok t

theorem checks_of_removes (h : v.removes fails w x = true) : v.checks fails w x = true := by
  simp only [removes, refuted, Storage.Failures.spares, Bool.and_eq_true, Option.any_eq_true] at h
  obtain ⟨⟨⟨hget, hassessment⟩, -⟩, rule, hr, hrefutes⟩ := h
  have hne := (Criteria.refutes_iff.mp hrefutes).1
  simp [checks, hget, hassessment, hr, hne]

section

variable {u : World S}
  (hr : (v.records u.store).ruleOf? x = (v.records w.store).ruleOf? x)
  (ho : v.storage.observed u x = v.storage.observed w x)
include hr ho

theorem findingAmid_congr : v.findingAmid fails u x = v.findingAmid fails w x := by
  rw [findingAmid, findingAmid, hr, ho]

theorem removes_congr : v.removes fails u x = v.removes fails w x := by
  rw [removes, removes, refuted, refuted, hr, ho]

theorem checks_congr : v.checks fails u x = v.checks fails w x := by
  rw [checks, checks, hr, ho]

theorem Judges.congr (h : v.Judges fails w x) : v.Judges fails u x := by
  rw [Judges, hr, ho]
  exact h

end

variable (law : v.Lawful)
include law

/-! ## One vulnerability -/

theorem run_discard_faltering (fails : Storage.Failures) (h : v.Ready w)
    (hx : x ∈ (v.records w.store).vulnerabilities.records) (waiting : List Value) :
    ∃ w', (Vulnerabilities.discard (v.storage.faltering fails) x).run (w, ⟨x.id, waiting⟩) =
        (.ok (match fails .deleteVulnerability x.id with
          | some cause => .failedToRemove ⟨.deleteVulnerability, cause⟩
          | none => .removed), (w', ⟨x.id, waiting⟩)) ∧
      v.Becomes w ((v.records w.store).dropping fun y =>
        decide (y = x) && (fails .deleteVulnerability x.id).isNone) w' := by
  cases hf : fails .deleteVulnerability x.id with
  | some cause =>
    refine ⟨w, ?_, h.becomes_dropping (by simp)⟩
    exact Op.run_bind_ok (Op.run_attempt_storage (Storage.run_faltering_fails _ rfl hf))
  | none =>
    obtain ⟨w', hrun, hb⟩ := run_deleteStored law h hx
    refine ⟨w', ?_, by simpa using hb⟩
    exact Op.run_bind_ok (Op.run_attempt_ok (Storage.run_faltering_spares _ rfl hf hrun))

theorem run_rejudge_faltering (h : v.Ready w)
    (hx : x ∈ (v.records w.store).vulnerabilities.records) (waiting : List Value) {rule : Rule}
    (hr : (v.records w.store).ruleOf? x = some rule) (hget : fails .getRule x.id = none)
    (hj : v.Judges fails w x) :
    ∃ w', (Vulnerabilities.rejudge (v.storage.faltering fails) rule x).run (w, ⟨x.id, waiting⟩) =
        (.ok (v.findingAmid fails w x), (w', ⟨x.id, waiting⟩)) ∧
      v.Becomes w ((v.records w.store).dropping fun y =>
        decide (y = x) && v.removes fails w x) w' := by
  obtain ⟨a?, hrun, hobserved⟩ :=
    run_getAssessment_of_text law h (h.kept.findings x hx).assessmentId
  cases hf : fails .getAssessment x.id with
  | some cause =>
    have hfail : (observationsOf (v.storage.faltering fails) x.assessmentId).run
        (w, ⟨x.id, waiting⟩) = (.error (.storage ⟨.getAssessment, cause⟩), (w, ⟨x.id, waiting⟩)) :=
      Op.run_bind_error (Storage.run_faltering_fails _ rfl hf)
    refine ⟨w, ?_, h.becomes_dropping (by simp [removes, Storage.Failures.spares, hf])⟩
    rw [Vulnerabilities.rejudge, Op.run_bind_ok (Op.run_attempt_storage hfail)]
    simp [findingAmid, Vulnerabilities.findingAmid, hget, hr, hf]
  | none =>
    have hpass : (observationsOf (v.storage.faltering fails) x.assessmentId).run
        (w, ⟨x.id, waiting⟩) = (.ok (v.storage.observed w x), (w, ⟨x.id, waiting⟩)) := by
      rw [observationsOf, Op.run_bind_ok (Storage.run_faltering_spares _ rfl hf hrun), hobserved]
      cases a? <;> rfl
    rw [Vulnerabilities.rejudge, Op.run_bind_ok (Op.run_attempt_ok hpass)]
    simp only [run_judged (hj hget hf rule hr)]
    cases hrefutes : rule.tree.refutes (v.storage.observed w x) with
    | false =>
      refine ⟨w, ?_, h.becomes_dropping (by simp [removes, refuted, hr, hrefutes])⟩
      rw [if_neg Bool.false_ne_true]
      simp [findingAmid, Vulnerabilities.findingAmid, hget, hr, hf, hrefutes]
    | true =>
      obtain ⟨w', hd, hb⟩ := run_discard_faltering law fails h hx waiting
      refine ⟨w', ?_, ?_⟩
      · rw [if_pos rfl, hd]
        simp [findingAmid, Vulnerabilities.findingAmid, hget, hr, hf, hrefutes]
      · simpa [removes, refuted, Storage.Failures.spares, hget, hf, hr, hrefutes] using hb

theorem run_reexamine_faltering (h : v.Ready w)
    (hx : x ∈ (v.records w.store).vulnerabilities.records) (hj : v.Judges fails w x)
    (current : Option Value) (waiting : List Value) :
    ∃ w', (Vulnerabilities.reexamine (v.storage.faltering fails) x).run
          (w, ⟨current, x.id :: waiting⟩) =
        (.ok (v.findingAmid fails w x), (w', ⟨x.id, waiting⟩)) ∧
      v.Becomes w ((v.records w.store).dropping fun y =>
        decide (y = x) && v.removes fails w x) w' := by
  cases hf : fails .getRule x.id with
  | some cause =>
    refine ⟨w, ?_, h.becomes_dropping (by simp [removes, Storage.Failures.spares, hf])⟩
    rw [Vulnerabilities.reexamine,
      Op.run_bind_ok (Op.run_attempt_storage (Storage.run_faltering_fails _ rfl hf))]
    simp [findingAmid, Vulnerabilities.findingAmid, hf, Request.operation]
  | none =>
    rw [Vulnerabilities.reexamine, Op.run_bind_ok (Op.run_attempt_ok
      (Storage.run_faltering_spares _ rfl hf (run_ruleOf law h hx)))]
    cases hr : (v.records w.store).ruleOf? x with
    | none =>
      refine ⟨w, ?_, h.becomes_dropping (by simp [removes, refuted, hr])⟩
      simp [findingAmid, Vulnerabilities.findingAmid, hf, hr]
    | some rule => exact run_rejudge_faltering law h hx waiting hr hf hj

/-! ## One after another -/

theorem run_reexamineAll_faltering {xs : List Vulnerability} (h : v.Ready w) (hnd : xs.Nodup)
    (hxs : ∀ x ∈ xs, x ∈ (v.records w.store).vulnerabilities.records)
    (hj : ∀ x ∈ xs, v.Judges fails w x) :
    ∃ w' current, (Vulnerabilities.reexamineAll (v.storage.faltering fails) xs).run
          (w, { waiting := xs.map (·.id) }) =
        (.ok (xs.map fun x => (x, v.findingAmid fails w x)), (w', { current, waiting := [] })) ∧
      v.Becomes w ((v.records w.store).dropping fun y =>
        decide (y ∈ xs) && v.removes fails w y) w' := by
  rw [Vulnerabilities.reexamineAll_eq_each]
  obtain ⟨w', _, hrun, ⟨current, rfl⟩, hb⟩ := run_each_at law
    (fun u left (s : World S × Storage.Turn) =>
      ∃ current, s = (u, { current, waiting := left.map (·.id) })) h hnd hxs ⟨none, rfl⟩
    fun u hu hrules hobserved x hx hxu rest _ ⟨current, hs⟩ => by
      have hrule : (v.records u.store).ruleOf? x = (v.records w.store).ruleOf? x := by
        rw [Memory.ruleOf?, Memory.ruleOf?, hrules]
      obtain ⟨u', hrun, hb⟩ := run_reexamine_faltering law hu hxu
        ((hj x hx).congr hrule (hobserved x)) current (rest.map (·.id))
      rw [findingAmid_congr hrule (hobserved x)] at hrun
      rw [removes_congr hrule (hobserved x)] at hb
      exact ⟨u', _, hs ▸ hrun, ⟨_, rfl⟩, hb⟩
  exact ⟨w', current, hrun, hb⟩

end View

/-! ## A property -/

/-- What is counted is left, or it is counted among what goes. -/
theorem countP_filter_not_add {α : Type} {p q : α → Bool} (h : ∀ a, q a = true → p a = true)
    (as : List α) : (as.filter (!q ·)).countP p + as.countP q = as.countP p := by
  have hgone : (as.filter q).countP p = as.countP q := by
    rw [List.countP_filter]
    refine List.countP_congr fun a _ => ?_
    rw [Bool.and_eq_true]
    exact ⟨And.right, fun ha => ⟨h a ha, ha⟩⟩
  rw [List.countP_eq_countP_filter_add as p q, hgone, Nat.add_comm]

namespace Backing

variable {b : Backing} {w w' : World b.Store} {p : Value} {xs : List Vulnerability}
  {fails : Storage.Failures} {report : Reevaluation}

/-- A property on which `xs` are listed has been judged again, and nothing but what the
report counts as removed is gone. -/
structure Reexamined (b : Backing) (fails : Storage.Failures) (w : World b.Store) (p : Value)
    (xs : List Vulnerability) (report : Reevaluation) (w' : World b.Store) : Prop where
  propertyId : report.propertyId = p
  checked : report.checked = xs.countP (b.view.checks fails w)
  removed : report.removed = xs.countP (b.view.removes fails w)
  orphaned : report.orphaned = (xs.filter fun x => (fails .getRule x.id).isNone &&
    ((b.view.records w.store).ruleOf? x).isNone).map (·.id)
  errors : report.errors = xs.filterMap fun x =>
    (Vulnerabilities.failureAmid fails ((b.view.records w.store).ruleOf? x)
      (b.storage.observed w x) x.id).map fun failure => ⟨x.id, failure⟩
  becomes : b.view.Becomes w ((b.view.records w.store).dropping fun x =>
    x.propertyId.equal p && b.view.removes fails w x) w'

theorem run_reevaluate_faltering (h : b.view.Ready w) (hl : b.ListsFor w p xs)
    (hj : ∀ x ∈ xs, b.view.Judges fails w x) :
    ∃ report w' current, (Vulnerabilities.reevaluate (b.storage.faltering fails) p).run
          (w, { waiting := xs.map (·.id) }) =
        (.ok report, (w', { current, waiting := [] })) ∧
      b.Reexamined fails w p xs report w' := by
  obtain ⟨w', current, hrun, hb⟩ := View.run_reexamineAll_faltering b.lawful h (hl.nodup h)
    (fun x hx => (hl.mem_iff.mp hx).1) hj
  rw [b.view_storage] at hrun
  -- what is on the list is what is stored of the property
  rw [Memory.dropping_listed hl.listed] at hb
  refine ⟨Vulnerabilities.summary p (xs.map fun x => (x, b.view.findingAmid fails w x)), w',
    current, ?_, rfl, ?_, ?_, ?_, ?_, hb⟩
  · rw [Vulnerabilities.reevaluate, Vulnerabilities.listForProperty,
      Op.run_bind_ok (Storage.run_faltering_first rfl hl.run), Op.run_bind_ok hrun]
    rfl
  · simp only [Vulnerabilities.summary, List.countP_map]
    exact List.countP_congr fun x _ => by
      simp [View.findingAmid, Vulnerabilities.isChecked_findingAmid, View.checks]
  · simp only [Vulnerabilities.summary, List.countP_map]
    exact List.countP_congr fun x _ => by
      simp [View.findingAmid, Vulnerabilities.findingAmid_eq_removed, View.removes, View.refuted]
  · simp only [Vulnerabilities.summary, List.filter_map, List.map_map]
    refine congrArg _ (List.filter_congr fun x _ => Bool.eq_iff_iff.mpr ?_)
    simp [View.findingAmid, Vulnerabilities.findingAmid_eq_orphaned]
  · simp only [Vulnerabilities.summary, List.filterMap_map]
    refine List.filterMap_congr fun x _ => ?_
    simp [View.findingAmid, Vulnerabilities.failure_findingAmid, b.view_storage]

namespace Reexamined

theorem no_errors (h : b.Reexamined fails w p xs report w')
    (hsound : ∀ operation id, fails operation id = none) : report.errors = [] := by
  rw [h.errors, List.filterMap_eq_nil_iff]
  intro x _
  cases (b.view.records w.store).ruleOf? x <;>
    simp [Vulnerabilities.failureAmid, Rules.failureOf, hsound]

end Reexamined

/-- Judging once more: what is left is listed, and nothing of it is removed. -/
theorem run_reevaluate_again (h : b.view.Ready w) (hl : b.ListsFor w p xs) (hp : b.view.Settled p)
    (hj : ∀ x ∈ xs, b.view.Judges fails w x) (hsound : ∀ operation id, fails operation id = none)
    (hdone : b.Reexamined fails w p xs report w') {u : World b.Store} (hu : b.view.Ready u)
    (hstore : u.store = w'.store) :
    ∃ again u', (Vulnerabilities.reevaluate b.storage p).run u = (.ok again, u') ∧
      again.removed = 0 ∧ again.orphaned = report.orphaned ∧
      again.checked + report.removed = report.checked ∧
      b.view.Becomes u (b.view.records u.store) u' := by
  have hrecords := hdone.becomes.records
  rw [← hstore] at hrecords
  -- what is left has the rule and the observations that it had
  have hrule (x : Vulnerability) :
      (b.view.records u.store).ruleOf? x = (b.view.records w.store).ruleOf? x := by
    rw [hrecords]
    rfl
  have hobserved (x : Vulnerability) : b.view.storage.observed u x = b.view.storage.observed w x :=
    View.observed_congr b.lawful h hu (by rw [hrecords]; rfl)
  have hremoves (x : Vulnerability) : b.view.removes fails u x = b.view.removes fails w x :=
    View.removes_congr (hrule x) (hobserved x)
  have hleft : b.ListsFor u p (xs.filter (!b.view.removes fails w ·)) := by
    have hkept := hl.dropping h hu hp hrecords
    rwa [List.filter_congr fun x hx => by rw [(hl.mem_iff.mp hx).2, Bool.true_and]] at hkept
  obtain ⟨again, u', _, hrun, hagain⟩ := run_reevaluate_faltering hu hleft fun x hx =>
    (hj x (List.mem_of_mem_filter hx)).congr (hrule x) (hobserved x)
  refine ⟨again, u', Vulnerabilities.run_reevaluate_sound hsound hrun (hagain.no_errors hsound),
    ?_, ?_, ?_, ?_⟩
  · rw [hagain.removed, List.countP_filter]
    simp [hremoves]
  · rw [hagain.orphaned, hdone.orphaned, List.filter_filter]
    refine congrArg _ (List.filter_congr fun x _ => ?_)
    -- what is removed has its rule
    rw [hrule]
    cases hr : (b.view.records w.store).ruleOf? x <;> simp [View.removes, View.refuted, hr]
  · have hchecks : b.view.checks fails u = b.view.checks fails w :=
      funext fun x => View.checks_congr (hrule x) (hobserved x)
    rw [hagain.checked, hdone.checked, hdone.removed, hchecks]
    exact countP_filter_not_add (fun x => View.checks_of_removes) xs
  · have hstays : ∀ x ∈ (b.view.records u.store).vulnerabilities.records,
        (x.propertyId.equal p && b.view.removes fails u x) = false := by
      intro x hx
      rw [hrecords] at hx
      rw [hremoves]
      exact (Memory.mem_dropping.mp hx).2
    have hsame := (Memory.dropping_congr hstays).trans Memory.dropping_none
    exact hsame ▸ hagain.becomes

/-- Judging a property again, while the storage fails for some of its vulnerabilities. Where
it fails for none, another run, then or later, has nothing left to remove. -/
theorem reevaluation_exact (fails : Storage.Failures) (h : b.view.Ready w)
    (hst : Stamped (b.vulnerabilities w.store)) (hp : b.view.Settled p)
    (hj : ∀ x ∈ b.vulnerabilities w.store, x.propertyId.equal p = true →
      b.view.Judges fails w x) :
    ∃ xs report w' current, b.ListsFor w p xs ∧
      (Vulnerabilities.reevaluate (b.storage.faltering fails) p).run
        (w, { waiting := xs.map (·.id) }) = (.ok report, (w', { current, waiting := [] })) ∧
      b.Reexamined fails w p xs report w' ∧
      ((∀ operation id, fails operation id = none) →
        (Vulnerabilities.reevaluate b.storage p).run w = (.ok report, w') ∧
        ∀ clock, ∃ again w'',
          (Vulnerabilities.reevaluate b.storage p).run { w' with clock } = (.ok again, w'') ∧
          again.removed = 0 ∧ again.orphaned = report.orphaned ∧
          again.checked + report.removed = report.checked ∧
          b.view.Becomes { w' with clock } (b.view.records w'.store) w'') := by
  obtain ⟨xs, hl⟩ := exists_lists h hst hp
  have hjudges : ∀ x ∈ xs, b.view.Judges fails w x := by
    intro x hx
    obtain ⟨hmem, hof⟩ := List.mem_filter.mp (hl.perm.mem_iff.mp hx)
    exact hj x hmem hof
  obtain ⟨report, w', current, hrun, hdone⟩ := run_reevaluate_faltering h hl hjudges
  refine ⟨xs, report, w', current, hl, hrun, hdone, fun hsound => ⟨?_, fun clock => ?_⟩⟩
  · exact Vulnerabilities.run_reevaluate_sound hsound hrun (hdone.no_errors hsound)
  · -- the clock is not asked
    have hready := hdone.becomes.ready (h.kept.dropping _)
    exact run_reevaluate_again h hl hp hjudges hsound hdone (u := { w' with clock })
      ⟨hready.whole, hready.kept⟩ rfl

/-- A number that no integer column can hold is not asked for, so there is no report on it. -/
theorem reevaluate_oversized : tables.vulnerabilities (start tables).store = [] ∧
    (Vulnerabilities.reevaluate Tables.storage (.int (2 ^ 63))).run (start tables) =
      (.error (.fault .tooLarge), start tables) := ⟨rfl, rfl⟩

/-! ## A drain -/

/-- The rule that has found two leaks asks for no water now, and a third one was found by a
rule that is gone. -/
def drained : World Memory :=
  { leaks with
    store := { leaks.store with
      rules := [(.text "leak", { waterRule "leak" with
        tree := ⟨.and, [.leaf { typeId := "water", value := .text "no" }]⟩ })]
      vulnerabilities :=
        [(.text "u", .opened "u" "flood" "a" (.int 7) "2024-01-01T00:00:00+00:00"),
          (.text "v", .opened "v" "leak" "a" (.int 7) "2024-01-01T00:00:00+00:00"),
          (.text "w", .opened "w" "leak" "a" (.int 7) "2024-01-01T00:00:00+00:00")] } }

theorem stamped_drained : Stamped (memory.vulnerabilities drained.store) := by
  have hall : ∀ x ∈ memory.vulnerabilities drained.store,
      x.detectedAt = .text "2024-01-01T00:00:00+00:00" := by
    decide +kernel
  intro x hx
  exact ⟨⟨⟨2024, 1, 1, by decide⟩, .midnight, .utc⟩, by rw [hall x hx]; decide +kernel⟩

theorem ready_drained : memory.view.Ready drained where
  whole := trivial
  kept.rules := by
    refine ⟨List.nodup_singleton _, ?_⟩
    simp [view, Memory.view, drained, waterRule]
  kept.vulnerabilities := by
    refine ⟨show [Key.text "u", Key.text "v", Key.text "w"].Nodup by decide, ?_⟩
    simp [view, Memory.view, drained, Vulnerability.opened]
  kept.assessments := ready_leaks.kept.assessments
  kept.findings x hx := by
    have hall : ∀ x ∈ memory.vulnerabilities drained.store, ∃ r a s, x.ruleId = .text r ∧
        x.assessmentId = .text a ∧ x.status = .text s := by
      simp [vulnerabilities, drained, Shelf.records, Vulnerability.opened]
    obtain ⟨r, a, s, hr, ha, hs⟩ := hall x hx
    exact ⟨⟨r, trivial, hr⟩, ⟨a, trivial, ha⟩, ⟨s, hs⟩⟩
  kept.settled _ _ := trivial

theorem judges_drained (fails : Storage.Failures) {x : Vulnerability}
    (hx : x ∈ memory.vulnerabilities drained.store) : memory.view.Judges fails drained x := by
  have hall : ∀ x ∈ memory.vulnerabilities drained.store, ∀ r ∈ drained.store.rules.records,
      ∃ t, r.tree.evaluate (Memory.storage.observed drained x) = .ok t := by
    decide +kernel
  intro _ _ r hr
  have hrule : (drained.store : Memory).ruleOf? x = some r := hr
  unfold Memory.ruleOf? at hrule
  split at hrule
  · exact hall x hx r (Shelf.mem_records_of_get? hrule)
  · cases hrule

/-- While the assessment cannot be read for one of the leaks, the other one goes. Where all
can be read both go, and nothing but the third one is left to be listed. -/
theorem reevaluate_drained :
    (∃ w' current,
      (Vulnerabilities.reevaluate (Memory.storage.faltering unreadable) (.int 7)).run
          (drained, { waiting := [.text "u", .text "v", .text "w"] }) =
        (.ok ⟨.int 7, 1, 1, [.text "u"], [⟨.text "v", ⟨.getAssessment, .unstated⟩⟩]⟩,
          (w', { current, waiting := [] }))) ∧
    ∃ w' again w'',
      (Vulnerabilities.reevaluate Memory.storage (.int 7)).run drained =
        (.ok ⟨.int 7, 2, 2, [.text "u"], []⟩, w') ∧
      (Vulnerabilities.reevaluate Memory.storage (.int 7)).run w' = (.ok again, w'') ∧
      again.checked = 0 ∧ again.removed = 0 ∧ again.orphaned = [.text "u"] := by
  have hlisted : (Memory.storage.perform (.listVulnerabilitiesForProperty (.int 7) none)).run
      drained = (.ok drained.store.vulnerabilities.records, drained) := by cbv
  constructor
  · obtain ⟨xs, ⟨p, checked, removed, orphaned, errors⟩, w', current, hl, hrun, hdone, -⟩ :=
      reevaluation_exact (b := .memory) (p := .int 7) unreadable ready_drained stamped_drained
        trivial fun _ hx _ => judges_drained unreadable hx
    cases hl.run.symm.trans hlisted
    obtain rfl : p = .int 7 := hdone.propertyId
    obtain rfl : checked = 1 := hdone.checked.trans (by decide +kernel)
    obtain rfl : removed = 1 := hdone.removed.trans (by decide +kernel)
    obtain rfl : orphaned = [.text "u"] := hdone.orphaned.trans (by decide +kernel)
    obtain rfl : errors = [⟨.text "v", ⟨.getAssessment, .unstated⟩⟩] :=
      hdone.errors.trans (by decide +kernel)
    exact ⟨w', current, hrun⟩
  · obtain ⟨xs, ⟨p, checked, removed, orphaned, errors⟩, w', _, hl, -, hdone, hagain⟩ :=
      reevaluation_exact (b := .memory) (p := .int 7) (fun _ _ => none) ready_drained
        stamped_drained trivial fun _ hx _ => judges_drained _ hx
    cases hl.run.symm.trans hlisted
    obtain ⟨hrun, hsecond⟩ := hagain fun _ _ => rfl
    obtain ⟨again, w'', hrun', hnone, hsame, hcount, -⟩ := hsecond w'.clock
    obtain rfl : p = .int 7 := hdone.propertyId
    obtain rfl : checked = 2 := hdone.checked.trans (by decide +kernel)
    obtain rfl : removed = 2 := hdone.removed.trans (by decide +kernel)
    obtain rfl : orphaned = [.text "u"] := hdone.orphaned.trans (by decide +kernel)
    obtain rfl : errors = [] := hdone.errors.trans (by decide +kernel)
    exact ⟨w', again, w'', hrun, hrun', Nat.add_right_cancel (hcount.trans (Nat.zero_add 2).symm),
      hnone, hsame⟩

end Backing

end PropertyRisk
