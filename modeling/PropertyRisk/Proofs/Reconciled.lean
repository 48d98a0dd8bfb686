import PropertyRisk.Proofs.Failing
import PropertyRisk.Proofs.QuietCalls
import PropertyRisk.Proofs.Upkeep
import PropertyRisk.Proofs.Windows
import Mathlib

/-!
# What a change of a rule removes

`Backing.update_reconciles`: a change of a rule deletes just those of its
vulnerabilities whose observations refute the changed tree and for which the
storage does not fail, reports the others for which it does, and leaves
everything else as it is.
-/

namespace PropertyRisk

open Engine

/-- Do something for each item, and pair the item with what it came to. -/
def Op.each {σ α β : Type} (f : α → Op σ β) : List α → Op σ (List (α × β))
  | [] => return []
  | a :: rest => do
    let b ← f a
    let others ← each f rest
    return (a, b) :: others

theorem Engine.Rules.reconcileAll_eq_each {σ : Type} (g : Storage σ) (tree : Criteria)
    (xs : List Vulnerability) :
    Rules.reconcileAll g tree xs = Op.each (Rules.reconcile g tree) xs := by
  induction xs with
  | nil => rfl
  | cons x rest ih =>
    rw [Rules.reconcileAll, ih]
    rfl

/-- The observations that a vulnerability was found on, as a storage answers. -/
def Storage.observed (g : Storage σ) (s : σ) (x : Vulnerability) : List Observation :=
  ((observationsOf g x.assessmentId).run s).1.toOption.getD []

/-- Whether there are observations and a tree does not trigger on them. -/
def Criteria.refutes (tree : Criteria) (os : List Observation) : Bool :=
  match tree.evaluate os with
  | .ok false => !os.isEmpty
  | _ => false

theorem Criteria.refutes_iff {tree : Criteria} {os : List Observation} :
    tree.refutes os = true ↔ os ≠ [] ∧ tree.evaluate os = .ok false := by
  unfold refutes
  split
  · rename_i h
    simp [h]
  · rename_i h
    simp only [Bool.false_eq_true, false_iff]
    rintro ⟨-, hf⟩
    exact h hf

/-- What was found is discarded just if the observations refute the tree; without any, it is
not judged. -/
theorem Engine.run_judged {σ β : Type} {tree : Criteria} {os : List Observation}
    (hj : ∃ t, tree.evaluate os = .ok t) (unjudged kept : β) (discard : Op σ β) (s : σ) :
    Op.run (if os.isEmpty then pure unjudged
      else judge tree os >>= fun t => if t then pure kept else discard) s =
    if tree.refutes os then discard.run s
    else (.ok (if os.isEmpty then unjudged else kept), s) := by
  obtain ⟨t, ht⟩ := hj
  have hjudge : (judge tree os : Op σ Bool).run s = (.ok t, s) := by
    rw [judge, ht, Op.run_orElse_ok]
  cases hos : os.isEmpty with
  | true => cases t <;> simp [Criteria.refutes, ht, hos]
  | false =>
    rw [if_neg Bool.false_ne_true, Op.run_bind_ok hjudge]
    cases t <;> simp [Criteria.refutes, ht, hos]

namespace Engine.Rules

variable (fails : Storage.Failures) (tree : Criteria) (os : List Observation) (id : Value)

/-- The failure that the judging of a vulnerability runs into, if any. -/
def failureOf : Option StorageFailure :=
  match fails .getAssessment id with
  | some cause => some ⟨.getAssessment, cause⟩
  | none =>
    if tree.refutes os then
      (fails .deleteVulnerability id).map fun cause => ⟨.deleteVulnerability, cause⟩
    else none

/-- Whether a vulnerability is deleted: nothing fails for it, and its
observations refute the tree. -/
def isRemoved : Bool :=
  (fails .getAssessment id).isNone && (fails .deleteVulnerability id).isNone && tree.refutes os

def outcomeOf : Outcome :=
  match failureOf fails tree os id with
  | some failure => .failed failure
  | none => if tree.refutes os then .removed else .kept

variable {fails tree os id}

theorem outcomeOf_eq_removed : outcomeOf fails tree os id = .removed ↔
    isRemoved fails tree os id = true := by
  unfold outcomeOf failureOf isRemoved
  cases fails .getAssessment id <;> cases fails .deleteVulnerability id <;>
    cases tree.refutes os <;> simp

theorem failureOf_of_outcomeOf :
    (match outcomeOf fails tree os id with
      | .failed failure => some failure
      | _ => none) = failureOf fails tree os id := by
  unfold outcomeOf
  cases failureOf fails tree os id with
  | some failure => rfl
  | none => cases tree.refutes os <;> rfl

end Engine.Rules

/-- The records without some vulnerabilities. -/
def Memory.dropping (m : Memory) (gone : Vulnerability → Bool) : Memory :=
  { m with vulnerabilities := m.vulnerabilities.filter fun p => !gone p.2 }

namespace Memory

variable {m : Memory} {f g : Vulnerability → Bool}

theorem dropping_none : m.dropping (fun _ => false) = m := by
  simp [dropping]

theorem dropping_dropping : (m.dropping f).dropping g = m.dropping fun x => f x || g x := by
  simp only [dropping, List.filter_filter, Bool.not_or, Bool.and_comm]

theorem dropping_congr (h : ∀ x ∈ m.vulnerabilities.records, f x = g x) :
    m.dropping f = m.dropping g := by
  have hfilter : (m.vulnerabilities.filter fun p => !f p.2) =
      m.vulnerabilities.filter fun p => !g p.2 :=
    List.filter_congr fun p hp => by rw [h p.2 (Shelf.mem_records.mpr ⟨p.1, hp⟩)]
  simp only [dropping, hfilter]

/-- What goes from a list is what goes of all that the list was taken from. -/
theorem dropping_listed {xs : List Vulnerability}
    (hperm : xs.Perm (m.vulnerabilities.records.filter g)) :
    (m.dropping fun x => decide (x ∈ xs) && f x) = m.dropping fun x => g x && f x :=
  dropping_congr fun x hx => by simp [hperm.mem_iff, hx]

/-- What is counted on a list, counted on all that the list was taken from. -/
theorem countP_listed {xs : List Vulnerability}
    (hperm : xs.Perm (m.vulnerabilities.records.filter g)) :
    xs.countP f = m.vulnerabilities.records.countP fun x => g x && f x := by
  rw [hperm.countP_eq, List.countP_filter]
  exact List.countP_congr fun x _ => by rw [Bool.and_comm]

theorem records_dropping :
    (m.dropping f).vulnerabilities.records = m.vulnerabilities.records.filter (!f ·) := by
  simp only [dropping, Shelf.records, List.filter_map]
  rfl

theorem mem_dropping {x : Vulnerability} : x ∈ (m.dropping f).vulnerabilities.records ↔
    x ∈ m.vulnerabilities.records ∧ f x = false := by
  rw [records_dropping, List.mem_filter, Bool.not_eq_true']

end Memory

namespace View

variable {S : Type} {v : View S} {w w' : World S} {m : Memory} {x : Vulnerability}
  {fails : Storage.Failures} {tree : Criteria}

theorem Kept.dropping (h : v.Kept m) (gone : Vulnerability → Bool) : v.Kept (m.dropping gone) where
  rules := h.rules
  vulnerabilities := ⟨h.vulnerabilities.distinct.sublist (List.filter_sublist.map _),
    fun p hp => h.vulnerabilities.own p (List.mem_filter.mp hp).1⟩
  assessments := h.assessments
  findings x hx := h.findings x (Memory.mem_dropping.mp hx).1
  settled := h.settled

/-- Where nothing goes, the world stays as it is. -/
theorem Ready.becomes_dropping (h : v.Ready w) {gone : Vulnerability → Bool}
    (hstay : ∀ y, gone y = false) : v.Becomes w ((v.records w.store).dropping gone) w := by
  rw [funext hstay, Memory.dropping_none]
  exact .refl h.whole

/-- A record is taken away by its id. -/
theorem Shelved.erase_eq_filter [DecidableEq α] {idOf : α → Value} {shelf : Shelf Key α} {a : α}
    {s : String} (h : v.Shelved idOf shelf) (ha : a ∈ shelf.records) (hs : idOf a = .text s) :
    shelf.erase (.text s) = shelf.filter fun p => !decide (p.2 = a) := by
  refine List.filter_congr fun p hp => ?_
  obtain ⟨t, -, hk, ht⟩ := h.own p hp
  have hiff : p.1 = .text s ↔ p.2 = a := by
    constructor
    · intro hkey
      cases hk.symm.trans hkey
      exact h.eq_of_id (Shelf.mem_records.mpr ⟨p.1, hp⟩) ha (ht.trans hs.symm)
    · rintro rfl
      rw [hk, Value.text.inj (ht.symm.trans hs)]
  by_cases hp : p.2 = a <;> simp [hiff, hp]

variable (law : v.Lawful)
include law

theorem run_getAssessment_of_text (h : v.Ready w) (hx : v.Text x.assessmentId) :
    ∃ a?, (v.storage.perform (.getAssessment x.assessmentId)).run w = (.ok a?, w) ∧
      v.storage.observed w x = (a?.map Assessment.observations).getD [] := by
  obtain ⟨s, hs, he⟩ := hx
  have hrun := run_getAssessment_text law h hs
  rw [← he] at hrun
  refine ⟨_, hrun, ?_⟩
  unfold Storage.observed observationsOf
  rw [Op.run_bind_ok hrun]
  cases (v.records w.store).assessments.get? (.text s) <;> rfl

/-- What was observed does not change while the assessments stay. -/
theorem observed_congr (h : v.Ready w) (h' : v.Ready w')
    (ha : (v.records w'.store).assessments = (v.records w.store).assessments) :
    v.storage.observed w' x = v.storage.observed w x := by
  unfold Storage.observed observationsOf
  rw [Op.run_bind, Op.run_bind, law.getAssessment _ h, law.getAssessment _ h', ha]
  rcases v.look .getAssessment x.assessmentId (v.records w.store).assessments with _ | _ | a <;> rfl

/-! ## One vulnerability -/

/-- A vulnerability that is stored is deleted by its id. -/
theorem run_deleteStored (h : v.Ready w) (hx : x ∈ (v.records w.store).vulnerabilities.records) :
    ∃ w', (v.storage.perform (.deleteVulnerability x.id)).run w = (.ok true, w') ∧
      v.Becomes w ((v.records w.store).dropping fun y => decide (y = x)) w' := by
  obtain ⟨i, hi, hid, hget⟩ := h.kept.vulnerabilities.get?_of_mem hx
  have hn : v.name .deleteVulnerability x.id = .ok (some i) := hid ▸ law.name_text hi
  obtain ⟨w', hrun, hb⟩ := law.deleteVulnerability x.id h
  rw [look_of_name hn, hget] at hrun
  rw [drop_of_name hn, h.kept.vulnerabilities.erase_eq_filter hx hid] at hb
  exact ⟨w', hrun, hb⟩

theorem run_discard (fails : Storage.Failures) (h : v.Ready w)
    (hx : x ∈ (v.records w.store).vulnerabilities.records) (waiting : List Value) :
    ∃ w', (Rules.discard (v.storage.failing fails) x).run (w, waiting) =
        (.ok (match fails .deleteVulnerability x.id with
          | some cause => .failed ⟨.deleteVulnerability, cause⟩
          | none => .removed), (w', waiting)) ∧
      v.Becomes w ((v.records w.store).dropping fun y =>
        decide (y = x) && (fails .deleteVulnerability x.id).isNone) w' := by
  cases hf : fails .deleteVulnerability x.id with
  | some cause =>
    refine ⟨w, ?_, h.becomes_dropping fun _ => Bool.and_false _⟩
    exact Op.run_bind_ok (Op.run_attempt_storage (Storage.run_deleteVulnerability_failing hf))
  | none =>
    obtain ⟨w', hrun, hb⟩ := run_deleteStored law h hx
    refine ⟨w', ?_, by simpa using hb⟩
    refine Op.run_bind_ok (Op.run_attempt_ok (a := true) ?_)
    rw [Storage.run_deleteVulnerability_passing hf, hrun]

theorem run_reconcile (h : v.Ready w) (hx : x ∈ (v.records w.store).vulnerabilities.records)
    (waiting : List Value)
    (hj : fails .getAssessment x.id = none →
      ∃ t, tree.evaluate (v.storage.observed w x) = .ok t) :
    ∃ w', (Rules.reconcile (v.storage.failing fails) tree x).run (w, x.id :: waiting) =
        (.ok (Rules.outcomeOf fails tree (v.storage.observed w x) x.id), (w', waiting)) ∧
      v.Becomes w ((v.records w.store).dropping fun y =>
        decide (y = x) && Rules.isRemoved fails tree (v.storage.observed w x) x.id) w' := by
  cases hf : fails .getAssessment x.id with
  | some cause =>
    refine ⟨w, ?_, h.becomes_dropping (by simp [Rules.isRemoved, hf])⟩
    have hfail : (observationsOf (v.storage.failing fails) x.assessmentId).run
        (w, x.id :: waiting) = (.error (.storage ⟨.getAssessment, cause⟩), (w, waiting)) :=
      Op.run_bind_error (Storage.run_getAssessment_failing hf _)
    rw [Rules.reconcile, Op.run_bind_ok (Op.run_attempt_storage hfail)]
    simp [Rules.outcomeOf, Rules.failureOf, hf]
  | none =>
    obtain ⟨a?, hrun, hobserved⟩ :=
      run_getAssessment_of_text law h (h.kept.findings x hx).assessmentId
    have hpass : (observationsOf (v.storage.failing fails) x.assessmentId).run
        (w, x.id :: waiting) = (.ok (v.storage.observed w x), (w, waiting)) := by
      rw [observationsOf, Op.run_bind, Storage.run_getAssessment_passing hf, hrun, hobserved]
      cases a? <;> rfl
    rw [Rules.reconcile, Op.run_bind_ok (Op.run_attempt_ok hpass)]
    simp only [run_judged (hj hf)]
    cases hr : tree.refutes (v.storage.observed w x) with
    | false =>
      refine ⟨w, ?_, h.becomes_dropping (by simp [Rules.isRemoved, hr])⟩
      simp [Rules.outcomeOf, Rules.failureOf, hf, hr]
    | true =>
      obtain ⟨w', hd, hb⟩ := run_discard law fails h hx waiting
      refine ⟨w', ?_, by simpa [Rules.isRemoved, hf, hr] using hb⟩
      rw [if_pos rfl, hd]
      cases hdel : fails .deleteVulnerability x.id <;>
        simp [Rules.outcomeOf, Rules.failureOf, hf, hr, hdel]

/-! ## One after another -/

/-- Each item on a list may go, as `gone` says of it; the others are judged in what is
left. `At` says what the state is when some items are still to come. -/
theorem run_each_at {τ β : Type} (At : World S → List Vulnerability → τ → Prop)
    {f : Vulnerability → Op τ β} {out : Vulnerability → β} {gone : Vulnerability → Bool}
    {xs : List Vulnerability} {s : τ} (h : v.Ready w) (hnd : xs.Nodup)
    (hxs : ∀ x ∈ xs, x ∈ (v.records w.store).vulnerabilities.records) (hs : At w xs s)
    (hf : ∀ u, v.Ready u → (v.records u.store).rules = (v.records w.store).rules →
      (∀ y, v.storage.observed u y = v.storage.observed w y) →
      ∀ x ∈ xs, x ∈ (v.records u.store).vulnerabilities.records → ∀ rest t, At u (x :: rest) t →
        ∃ u' t', (f x).run t = (.ok (out x), t') ∧ At u' rest t' ∧
          v.Becomes u ((v.records u.store).dropping fun y => decide (y = x) && gone x) u') :
    ∃ w' s', (Op.each f xs).run s = (.ok (xs.map fun x => (x, out x)), s') ∧ At w' [] s' ∧
      v.Becomes w ((v.records w.store).dropping fun y => decide (y ∈ xs) && gone y) w' := by
  induction xs generalizing w s with
  | nil => exact ⟨w, s, rfl, hs, h.becomes_dropping (by simp)⟩
  | cons x rest ih =>
    obtain ⟨hnew, hnd⟩ := List.nodup_cons.mp hnd
    obtain ⟨w₁, s₁, hrun, hs₁, hb⟩ :=
      hf w h rfl (fun _ => rfl) x List.mem_cons_self (hxs x List.mem_cons_self) rest s hs
    have h₁ : v.Ready w₁ := hb.ready (h.kept.dropping _)
    have hrules : (v.records w₁.store).rules = (v.records w.store).rules := hb.records ▸ rfl
    have hobserved (y : Vulnerability) : v.storage.observed w₁ y = v.storage.observed w y :=
      observed_congr law h h₁ (hb.records ▸ rfl)
    -- the others are still there, under the same rules and on the same observations
    have hleft : ∀ y ∈ rest, y ∈ (v.records w₁.store).vulnerabilities.records := by
      intro y hy
      have hne : y ≠ x := fun he => hnew (he ▸ hy)
      rw [hb.records]
      exact Memory.mem_dropping.mpr ⟨hxs y (List.mem_cons_of_mem x hy), by simp [hne]⟩
    obtain ⟨w₂, s₂, hrest, hs₂, hb₂⟩ := ih h₁ hnd hleft hs₁ fun u hu hur huo y hy =>
      hf u hu (hur.trans hrules) (fun z => (huo z).trans (hobserved z)) y
        (List.mem_cons_of_mem x hy)
    rw [hb.records, Memory.dropping_dropping] at hb₂
    refine ⟨w₂, s₂, ?_, hs₂, ?_⟩
    · rw [Op.each, Op.run_bind_ok hrun, Op.run_bind_ok hrest]
      rfl
    · have hsame : (fun y => (decide (y = x) && gone x) || (decide (y ∈ rest) && gone y)) =
          fun y => decide (y ∈ x :: rest) && gone y := by
        funext y
        by_cases hyx : y = x
        · subst hyx
          simp [hnew]
        · simp [hyx]
      rw [hsame] at hb₂
      exact hb.trans hb₂

theorem run_reconcileAll (fails : Storage.Failures) {xs : List Vulnerability} (h : v.Ready w)
    (hnd : xs.Nodup) (hx : ∀ x ∈ xs, x ∈ (v.records w.store).vulnerabilities.records)
    (hj : ∀ x ∈ xs, fails .getAssessment x.id = none →
      ∃ t, tree.evaluate (v.storage.observed w x) = .ok t) :
    ∃ w', (Rules.reconcileAll (v.storage.failing fails) tree xs).run (w, xs.map (·.id)) =
        (.ok (xs.map fun x =>
          (x, Rules.outcomeOf fails tree (v.storage.observed w x) x.id)), (w', [])) ∧
      v.Becomes w ((v.records w.store).dropping fun y =>
        decide (y ∈ xs) && Rules.isRemoved fails tree (v.storage.observed w y) y.id) w' := by
  rw [Rules.reconcileAll_eq_each]
  obtain ⟨w', _, hrun, rfl, hb⟩ := run_each_at law
    (fun u waiting s => s = (u, waiting.map (·.id)))
    (f := Rules.reconcile (v.storage.failing fails) tree) h hnd hx rfl
    fun u hu _ hobserved x hxs hxu rest _ hs => by
      obtain ⟨u', hrun, hb⟩ := run_reconcile law hu hxu (rest.map (·.id))
        ((hobserved x).symm ▸ hj x hxs)
      rw [hobserved] at hrun hb
      exact ⟨u', _, hs ▸ hrun, rfl, hb⟩
  exact ⟨w', hrun, hb⟩

end View

/-! ## The changed record -/

namespace Engine.RulePatch

/-- A patch that the checks let through, and what they make of it. -/
structure Accepted (patch : RulePatch) (g : Storage σ) (s : σ) (current : Rule)
    (window : Option Window) (tree : Option Criteria) (isActive : Option Bool) : Prop where
  known : patch.unknown = []
  labels : Rules.patchProblems patch = []
  window : Rules.patchedWindow current patch = .ok (window.map .ok)
  isActive : Rules.flagOf patch.isActive = .ok isActive
  tree : (patch.tree.mapM (Rules.checkTree g)).run s = (.ok tree, s)

/-- What a patch makes of a rule, in a store that keeps `column` of a text. An end
of the window that the patch does not set stays as it was written. -/
structure LeadsTo (patch : RulePatch) (column : Value → Value) (tree : Option Criteria)
    (now : String) (r r' : Rule) : Prop where
  id : r'.id = r.id
  createdAt : r'.createdAt = r.createdAt
  version : r'.version = r.version + 1
  updatedAt : r'.updatedAt = now
  name : r'.name = (patch.name.map column).getD r.name
  description : r'.description = (patch.description.map column).getD r.description
  tree : r'.tree = tree.getD r.tree
  isActive : r'.isActive = patch.isActive.getD r.isActive
  start : ∀ x, patch.effectiveFrom = some x → ∃ a : Time.Stamp,
    requireStampValue (x.orElse r.effectiveFrom) = .ok a ∧ r'.effectiveFrom = .text a.text
  stop : ∀ x, patch.effectiveTo = some x → Window.EndsAt x r'.effectiveTo
  window : patch.effectiveFrom = none → patch.effectiveTo = none → r'.window = r.window
  ownStart : patch.effectiveFrom = none → r.window.Written → r'.effectiveFrom = r.effectiveFrom
  ownStop : patch.effectiveTo = none → r.window.Written → r'.effectiveTo = r.effectiveTo

end Engine.RulePatch

theorem Engine.Rules.flagOf_eq_ok {given : Option Value} {b? : Option Bool}
    (h : flagOf given = .ok b?) : given = b?.map .bool := by
  unfold flagOf at h
  split at h <;> cases h <;> rfl

namespace View

variable {S : Type} {v : View S} {w : World S} {s : String} {r : Rule} {patch : RulePatch}
  {window : Option Window} {tree : Option Criteria} {isActive : Option Bool}
  {fails : Storage.Failures}

variable (law : v.Lawful)
include law

/-- A checked window is kept as it is. -/
theorem kept_window {x y : Value} {w : Window} (h : Rules.checkWindow x y = .ok (.ok w)) :
    v.column w.start = w.start ∧ v.column w.stop = w.stop := by
  obtain ⟨⟨a, ha⟩, hstop⟩ := Rules.written_of_checkWindow h
  refine ⟨ha ▸ law.column_text law.plain_stamp, ?_⟩
  rcases hstop with hb | ⟨b, hb⟩
  · exact hb ▸ law.column_null
  · exact hb ▸ law.column_text law.plain_stamp

theorem leadsTo_changed (hwindow : Rules.patchedWindow r patch = .ok (window.map .ok))
    (hflag : Rules.flagOf patch.isActive = .ok isActive) (now : String) :
    patch.LeadsTo v.column tree now r
      (r.changed (v.kept (Rules.changeOf patch window tree isActive)) tree now) := by
  have hactive : ((isActive.map Value.bool).map v.flag).getD r.isActive =
      patch.isActive.getD r.isActive := by
    rw [Rules.flagOf_eq_ok hflag]
    cases isActive with
    | none => rfl
    | some b => exact law.flag_bool
  cases window with
  | none =>
    -- neither end is given
    obtain ⟨hfrom, hto⟩ := Rules.patchedWindow_eq_none hwindow
    exact ⟨rfl, rfl, rfl, rfl, rfl, rfl, rfl, hactive, by simp [hfrom], by simp [hto],
      fun _ _ => rfl, fun _ _ => rfl, fun _ _ => rfl⟩
  | some win =>
    have hwin := Rules.patchedWindow_eq_some hwindow
    obtain ⟨hkstart, hkstop⟩ := kept_window law hwin
    obtain ⟨⟨a, ha, hstart⟩, hstop⟩ := Rules.checkWindow_eq_ok hwin
    have hnewStart : (r.changed (v.kept (Rules.changeOf patch (some win) tree isActive)) tree
        now).effectiveFrom = win.start := hkstart
    have hnewStop : (r.changed (v.kept (Rules.changeOf patch (some win) tree isActive)) tree
        now).effectiveTo = win.stop := hkstop
    refine ⟨rfl, rfl, rfl, rfl, rfl, rfl, rfl, hactive, ?_, ?_, ?_, ?_, ?_⟩
    · intro x hx
      rw [hx] at ha
      exact ⟨a, ha, hnewStart.trans hstart⟩
    · intro x hx
      rw [hx] at hstop
      exact hnewStop ▸ hstop
    · intro hfrom hto
      have hsome := hwindow
      simp [Rules.patchedWindow, hfrom, hto] at hsome
    -- an end that is not given was checked before, and is written as it stands
    · intro hfrom hw
      rw [hnewStart, hstart]
      obtain ⟨c, hc⟩ := hw.start
      have hown : r.effectiveFrom = .text c.text := hc
      rw [hfrom, Option.getD_none, Value.orElse_self, hown, requireStampValue_text] at ha
      cases ha
      exact hown.symm
    · intro hto hw
      rw [hnewStop]
      rw [hto, Option.getD_none] at hstop
      exact hstop.eq_of_written hw.stop

end View

/-! ## The whole change -/

namespace Engine.Rules

variable {σ : Type} (g : Storage σ) (s : σ) (fails : Storage.Failures) (tree : Criteria)

/-- Whether a change of a rule removes a vulnerability: the rule found it, nothing
fails for it, and what was observed refutes the tree. -/
def removes (ruleId : Value) (x : Vulnerability) : Bool :=
  decide (x.ruleId = ruleId) && isRemoved fails tree (g.observed s x) x.id

/-- The report on a vulnerability whose judging runs into a failure. -/
def failureFor? (x : Vulnerability) : Option ItemFailure :=
  (failureOf fails tree (g.observed s x) x.id).map fun failure => ⟨x.id, failure⟩

variable {g s fails tree}

theorem failures_outcomes (xs : List Vulnerability) :
    failures (xs.map fun x => (x, outcomeOf fails tree (g.observed s x) x.id)) =
      xs.filterMap (failureFor? g s fails tree) := by
  rw [failures, List.filterMap_map]
  congr 1
  funext x
  rw [failureFor?, ← failureOf_of_outcomeOf]
  show (match outcomeOf fails tree (g.observed s x) x.id with
    | .failed failure => some (⟨x.id, failure⟩ : ItemFailure)
    | _ => none) = _
  cases outcomeOf fails tree (g.observed s x) x.id <;> rfl

theorem removals_outcomes (xs : List Vulnerability) :
    removals (xs.map fun x => (x, outcomeOf fails tree (g.observed s x) x.id)) =
      xs.countP fun x => isRemoved fails tree (g.observed s x) x.id := by
  rw [removals, List.countP_map]
  refine List.countP_congr fun x _ => ?_
  simp [outcomeOf_eq_removed]

end Engine.Rules

namespace View

variable {S : Type} {v : View S} {w : World S} {s : String} {r : Rule} {patch : RulePatch}
  {window : Option Window} {tree : Option Criteria} {isActive : Option Bool}
  {fails : Storage.Failures}

variable (law : v.Lawful)
include law

/-- A rule is still there, and the clock has not moved, when a change of it is written after some
of what it has found has gone. -/
theorem run_updateRule_dropping (h : v.Ready w) {id : Value}
    (hn : v.name .updateRule id = .ok (some s))
    (hr : (v.records w.store).rules.get? (.text s) = some r) (change : RuleChange)
    (hc : change.Proper tree) (htree : ∀ t, tree = some t → v.Tree t) {gone : Vulnerability → Bool}
    {u : World S} (hb : v.Becomes w ((v.records w.store).dropping gone) u) :
    ∃ w', (v.storage.perform (.updateRule id change (some (.int r.version)))).run u =
        ((v.takes change r.version).map fun _ =>
          some (r.changed (v.kept change) tree w.clock.text), w') ∧
      v.Becomes w { (v.records w.store).dropping gone with
        rules := match v.takes change r.version with
          | .ok _ => (v.records w.store).rules.put (.text s)
              (r.changed (v.kept change) tree w.clock.text)
          | .error _ => (v.records w.store).rules } w' := by
  have hru : (v.records u.store).rules.get? (.text s) = some r := by
    rw [hb.records]
    exact hr
  obtain ⟨w', hwrite, hb'⟩ := law.updateRule change (hb.ready (h.kept.dropping _)) hn hru hc htree
  rw [hb.clock] at hwrite hb'
  rw [hb.records] at hb'
  exact ⟨w', hwrite, hb.trans hb'⟩

theorem run_apply (h : v.Ready w) (hst : (v.records w.store).Stamped) {id : Value}
    (hn : v.name .getRule id = .ok (some s))
    (hr : (v.records w.store).rules.get? (.text s) = some r)
    (hp : patch.Accepted v.storage w r window tree isActive)
    (ht : v.takes (Rules.changeOf patch window tree isActive) r.version = .ok ())
    (hj : ∀ x ∈ (v.records w.store).vulnerabilities.records, x.ruleId = .text s →
      fails .getAssessment x.id = none →
        ∃ t, (tree.getD r.tree).evaluate (v.storage.observed w x) = .ok t) :
    ∃ xs w', (v.storage.perform (.listVulnerabilitiesForRule id)).run w = (.ok xs, w) ∧
      (Rules.apply (v.storage.failing fails) r id patch window isActive).run
          (w, xs.map (·.id)) =
        (.ok
          { rule := r.changed (v.kept (Rules.changeOf patch window tree isActive)) tree w.clock.text
            removed := (v.records w.store).vulnerabilities.records.countP
              (Rules.removes v.storage w fails (tree.getD r.tree) (.text s))
            errors := xs.filterMap (Rules.failureFor? v.storage w fails (tree.getD r.tree)) },
          (w', [])) ∧
      v.Becomes w
        { (v.records w.store).dropping
            (Rules.removes v.storage w fails (tree.getD r.tree) (.text s)) with
          rules := (v.records w.store).rules.put (.text s)
            (r.changed (v.kept (Rules.changeOf patch window tree isActive)) tree
              w.clock.text) } w' := by
  obtain ⟨xs, hperm, hlist⟩ := law.listForRule h hst (law.name_congr .listVulnerabilitiesForRule hn)
  have hmem := mem_listed hperm
  obtain ⟨u, hloop, hb⟩ := run_reconcileAll law fails h (h.nodup_listed hperm)
    (fun x hx => ((hmem x).mp hx).1) fun x hx => hj x ((hmem x).mp hx).1 ((hmem x).mp hx).2
  rw [Memory.dropping_listed hperm] at hb
  have htree := ((law.triple_checkedTree patch.tree w).ok hp.tree).2
  obtain ⟨u', hwrite, hb'⟩ := run_updateRule_dropping law h (law.name_congr _ hn) hr
    (Rules.changeOf patch window tree isActive) ⟨rfl, rfl, rfl, rfl⟩ htree hb
  rw [ht] at hwrite hb'
  refine ⟨xs, u', hlist, ?_, hb'⟩
  have hchecked : (patch.tree.mapM (Rules.checkTree (v.storage.failing fails))).run
      (w, xs.map (·.id)) = (.ok tree, (w, xs.map (·.id))) := by
    rw [Storage.checkedTree_failing, Op.run_within_first, hp.tree]
  rw [Rules.apply, Op.run_bind_ok hchecked, Op.run_bind_ok (Storage.run_passing rfl hlist),
    Op.run_bind_ok hloop, Op.run_bind_ok (Storage.run_passing rfl hwrite), Rules.failures_outcomes,
    Rules.removals_outcomes, Memory.countP_listed hperm]
  rfl

end View

namespace Backing

variable {b : Backing} {w : World b.Store} {s : String} {r : Rule} {patch : RulePatch}
  {window : Option Window} {tree : Option Criteria} {isActive : Option Bool}

/-- A change of a rule that the checks let through and the store takes, while the
storage fails for some of the rule's vulnerabilities. -/
theorem update_reconciles (fails : Storage.Failures) (hw : b.view.Ready w)
    (hst : Stamped (b.vulnerabilities w.store))
    (hr : (b.storage.perform (.getRule (.text s))).run w = (.ok (some r), w))
    (hp : patch.Accepted b.storage w r window tree isActive)
    (hwrite : ∃ r', ((b.storage.perform (.updateRule (.text s)
      (Rules.changeOf patch window tree isActive) (some (.int r.version)))).run w).1 =
        .ok (some r'))
    (hj : ∀ x ∈ b.vulnerabilities w.store, x.ruleId = .text s →
      fails .getAssessment x.id = none →
        ∃ t, (tree.getD r.tree).evaluate (b.storage.observed w x) = .ok t) :
    ∃ xs r' w',
      (b.storage.perform (.listVulnerabilitiesForRule (.text s))).run w = (.ok xs, w) ∧
      (Rules.update (b.storage.failing fails) (.text s) patch).run (w, xs.map (·.id)) =
        (.ok
          { rule := r'
            removed := (b.vulnerabilities w.store).countP
              (Rules.removes b.storage w fails (tree.getD r.tree) (.text s))
            errors := xs.filterMap (Rules.failureFor? b.storage w fails (tree.getD r.tree)) },
          (w', [])) ∧
      patch.LeadsTo b.view.column tree w.clock.text r r' ∧
      b.view.Becomes w
        { (b.view.records w.store).dropping
            (Rules.removes b.storage w fails (tree.getD r.tree) (.text s)) with
          rules := (b.view.records w.store).rules.put (.text s) r' } w' := by
  have law := b.lawful
  rw [← b.view_storage] at hr hp hwrite ⊢
  simp only [← b.view_storage] at hj
  rw [← b.records_vulnerabilities] at hst hj ⊢
  obtain ⟨hplain, hget⟩ := View.get?_of_getRule law hw hr
  have htree := ((law.triple_checkedTree patch.tree w).ok hp.tree).2
  obtain ⟨r', hr'⟩ := hwrite
  obtain ⟨u, hrun, -⟩ := law.updateRule (Rules.changeOf patch window tree isActive) hw
    (law.name_text hplain) hget ⟨rfl, rfl, rfl, rfl⟩ htree
  have ht : b.view.takes (Rules.changeOf patch window tree isActive) r.version = .ok () := by
    rw [hrun] at hr'
    cases ht : b.view.takes (Rules.changeOf patch window tree isActive) r.version with
    | ok _ => rfl
    | error e =>
      rw [ht] at hr'
      cases hr'
  obtain ⟨xs, w', hlist, happly, hb⟩ := View.run_apply law hw hst (law.name_text hplain) hget hp ht hj
  refine ⟨xs, _, w', hlist, ?_, View.leadsTo_changed law hp.window hp.isActive w.clock.text, hb⟩
  have hfound : (Rules.get (b.view.storage.failing fails) (.text s)).run (w, xs.map (·.id)) =
      (.ok r, (w, xs.map (·.id))) :=
    Op.run_bind_ok (Storage.run_passing rfl hr)
  simp only [Rules.update, hp.known, List.isEmpty_nil, Bool.not_true, Bool.false_eq_true, if_false,
    Rules.requireKey, Value.key?_text, hp.labels, hp.isActive]
  rw [Op.run_bind_ok (Op.run_ofExcept_ok _ _), Op.run_bind_ok hfound, hp.window,
    Op.run_bind_ok (Op.run_ofExcept_ok _ _)]
  cases window with
  | none => exact happly
  | some win => exact happly

/-! ## A leak that has dried -/

/-- The rule is to ask for no water. -/
def dry : RulePatch where
  tree := some (.object [("join_operator", .text "AND"), ("conditions", .list
    [.object [("observation_type_id", .text "water"), ("value", .text "no")]])])

/-- The assessment cannot be read for one of the vulnerabilities. -/
def unreadable : Storage.Failures := fun operation id =>
  if operation = .getAssessment ∧ id = .text "v" then some .unstated else none

theorem accepted_dry : dry.Accepted Memory.storage leaks (waterRule "leak") none
    (some ⟨.and, [.leaf { typeId := "water", value := .text "no" }]⟩) none :=
  ⟨rfl, rfl, rfl, rfl, by cbv⟩

/-- The one that can be judged is removed, and the other one is reported. -/
theorem update_dry : ∃ r' w',
    (Rules.update (Memory.storage.failing unreadable) (.text "leak") dry).run
        (leaks, [.text "v", .text "w"]) =
      (.ok ⟨r', 1, [⟨.text "v", ⟨.getAssessment, .unstated⟩⟩]⟩, (w', [])) ∧
    dry.LeadsTo memory.view.column
      (some ⟨.and, [.leaf { typeId := "water", value := .text "no" }]⟩)
      "2024-01-02T00:00:00+00:00" (waterRule "leak") r' := by
  have hj : ∀ x ∈ memory.vulnerabilities leaks.store, x.ruleId = .text "leak" →
      unreadable .getAssessment x.id = none → ∃ t,
        Criteria.evaluate (Memory.storage.observed leaks x)
          ⟨.and, [.leaf { typeId := "water", value := .text "no" }]⟩ = .ok t := by
    decide +kernel
  obtain ⟨xs, r', w', hlist, hrun, hto, -⟩ := update_reconciles (s := "leak") unreadable
    ready_leaks stamped_leaks rfl accepted_dry ⟨_, rfl⟩ hj
  have hboth : (Memory.storage.perform (.listVulnerabilitiesForRule (.text "leak"))).run leaks =
      (.ok [.opened "v" "leak" "a" (.int 7) "2024-01-01T00:00:00+00:00",
        .opened "w" "leak" "a" (.int 7) "2024-01-01T00:00:00+00:00"], leaks) := by cbv
  cases hlist.symm.trans hboth
  have hone : (memory.vulnerabilities leaks.store).countP (Rules.removes Memory.storage leaks
      unreadable ⟨.and, [.leaf { typeId := "water", value := .text "no" }]⟩ (.text "leak")) = 1 := by
    decide +kernel
  have hreported : [Vulnerability.opened "v" "leak" "a" (.int 7) "2024-01-01T00:00:00+00:00",
      .opened "w" "leak" "a" (.int 7) "2024-01-01T00:00:00+00:00"].filterMap
        (Rules.failureFor? Memory.storage leaks unreadable
          ⟨.and, [.leaf { typeId := "water", value := .text "no" }]⟩) =
      [⟨.text "v", ⟨.getAssessment, .unstated⟩⟩] := by
    decide +kernel
  refine ⟨r', w', ?_, hto⟩
  rw [← hone, ← hreported]
  exact hrun

end Backing

end PropertyRisk
