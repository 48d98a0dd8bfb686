import PropertyRisk.Engine.RuleTrials
import PropertyRisk.Proofs.Comparable
import PropertyRisk.Proofs.Entries

/-!
# Judging everything that was found

A change of a rule, its preview and a re-evaluation go through a list of
vulnerabilities and judge each on what was observed for it. Where all of them can
be judged, each of the loops comes to an outcome for every vulnerability on its
list, and what is removed is what the tree refutes.
-/

namespace PropertyRisk

open Op (Triple)
open Engine

namespace Op

variable {σ α β : Type}

/-- Items that change nothing are all done in one state. -/
theorem run_mapM_of_run {f : α → Op σ β} {g : α → β} {s : σ} {as : List α}
    (h : ∀ a ∈ as, (f a).run s = (.ok (g a), s)) : (as.mapM f).run s = (.ok (as.map g), s) := by
  induction as with
  | nil => rfl
  | cons a rest ih =>
    have hrest := ih fun b hb => h b (List.mem_cons_of_mem a hb)
    rw [List.mapM_cons, run_bind_ok (h a List.mem_cons_self), run_bind_ok hrest]
    rfl

end Op

namespace Engine

variable {σ : Type} (g : Storage σ)

theorem Vulnerabilities.reexamineAll_eq_each (xs : List Vulnerability) :
    Vulnerabilities.reexamineAll g xs = Op.each (Vulnerabilities.reexamine g) xs := by
  induction xs with
  | nil => rfl
  | cons x rest ih =>
    rw [Vulnerabilities.reexamineAll, ih]
    rfl

/-- What a tree makes of a vulnerability that was found by its rule. -/
def Rules.verdictOn (tree : Criteria) (observations : List Observation) : Rules.Outcome :=
  if tree.refutes observations then .removed else .kept

section

variable {g} {s : σ} {tree : Criteria} {ob : Vulnerability → List Observation}

theorem Rules.preflight_of_accepted {patch : RulePatch} {r : Rule} {window : Option Window}
    {tree? : Option Criteria} {isActive : Option Bool}
    (hp : patch.Accepted g s r window tree? isActive) :
    Rules.preflight patch r = .ok (window, isActive) := by
  simp only [Rules.preflight, hp.window, hp.labels, hp.isActive]
  cases window <;> rfl

theorem Rules.failures_verdicts (xs : List Vulnerability) :
    Rules.failures (xs.map fun x => (x, Rules.verdictOn tree (ob x))) = [] := by
  simp only [Rules.failures, List.filterMap_map, List.filterMap_eq_nil_iff, Rules.verdictOn]
  intro x _
  cases h : tree.refutes (ob x) <;> simp [h]

theorem Rules.removals_verdicts (xs : List Vulnerability) :
    Rules.removals (xs.map fun x => (x, Rules.verdictOn tree (ob x))) =
      xs.countP fun x => tree.refutes (ob x) := by
  rw [Rules.removals, List.countP_map]
  refine List.countP_congr fun x _ => ?_
  cases h : tree.refutes (ob x) <;> simp [Rules.verdictOn, h]

end

/-- What judging a vulnerability again comes to, given its rule if there still is one. -/
def Vulnerabilities.findingOn (rule? : Option Rule) (observations : List Observation) :
    Vulnerabilities.Finding :=
  match rule? with
  | none => .orphaned
  | some rule =>
    if observations.isEmpty then .unjudged
    else if rule.tree.refutes observations then .removed
    else .kept

end Engine

/-- The rule that has found a vulnerability, if it is still there. -/
def Memory.ruleOf? (m : Memory) (x : Vulnerability) : Option Rule :=
  match x.ruleId with
  | .text s => m.rules.get? (.text s)
  | _ => none

namespace View

variable {S : Type} {v : View S} {w w' : World S} {x : Vulnerability} {tree : Criteria} {s : String}

/-- Whether the rule that has found a vulnerability does not trigger on it any more. -/
def refuted (v : View S) (w : World S) (x : Vulnerability) : Bool :=
  ((v.records w.store).ruleOf? x).any fun rule => rule.tree.refutes (v.storage.observed w x)

variable (law : v.Lawful)
include law

/-! ## One vulnerability -/

theorem run_reconcile_judged (h : v.Ready w) (hx : x ∈ (v.records w.store).vulnerabilities.records)
    (hj : ∃ t, tree.evaluate (v.storage.observed w x) = .ok t) :
    ∃ w', (Rules.reconcile v.storage tree x).run w =
        (.ok (Rules.verdictOn tree (v.storage.observed w x)), w') ∧
      v.Becomes w ((v.records w.store).dropping fun y =>
        decide (y = x) && tree.refutes (v.storage.observed w x)) w' := by
  have hobserved := run_observed law h (h.kept.findings x hx).assessmentId
  rw [Rules.reconcile, Op.run_bind_ok (Op.run_attempt_ok hobserved)]
  simp only [run_judged hj]
  cases hr : tree.refutes (v.storage.observed w x) with
  | false => exact ⟨w, by simp [Rules.verdictOn, hr], h.becomes_dropping (by simp)⟩
  | true =>
    obtain ⟨w', hrun, hb⟩ := run_deleteStored law h hx
    refine ⟨w', ?_, by simpa using hb⟩
    rw [if_pos rfl, Rules.discard, Op.run_bind_ok (Op.run_attempt_ok hrun), Rules.verdictOn, hr]
    rfl

theorem run_ruleOf (h : v.Ready w) (hx : x ∈ (v.records w.store).vulnerabilities.records) :
    (v.storage.perform (.getRule x.ruleId)).run w =
      (.ok ((v.records w.store).ruleOf? x), w) := by
  obtain ⟨t, ht, hrule⟩ := (h.kept.findings x hx).ruleId
  rw [Memory.ruleOf?, hrule]
  exact run_getRule_text law h ht

theorem run_reexamine_judged (h : v.Ready w) (hx : x ∈ (v.records w.store).vulnerabilities.records)
    (hj : ∀ r, (v.records w.store).ruleOf? x = some r →
      ∃ t, r.tree.evaluate (v.storage.observed w x) = .ok t) :
    ∃ w', (Vulnerabilities.reexamine v.storage x).run w =
        (.ok (Vulnerabilities.findingOn ((v.records w.store).ruleOf? x) (v.storage.observed w x)),
          w') ∧
      v.Becomes w ((v.records w.store).dropping fun y => decide (y = x) && v.refuted w x) w' := by
  rw [Vulnerabilities.reexamine, Op.run_bind_ok (Op.run_attempt_ok (run_ruleOf law h hx)), refuted]
  cases hr : (v.records w.store).ruleOf? x with
  | none => exact ⟨w, rfl, h.becomes_dropping (by simp)⟩
  | some r =>
    have hobserved := run_observed law h (h.kept.findings x hx).assessmentId
    simp only [Vulnerabilities.rejudge, Option.any_some, Vulnerabilities.findingOn]
    rw [Op.run_bind_ok (Op.run_attempt_ok hobserved)]
    simp only [run_judged (hj r hr)]
    cases hrefutes : r.tree.refutes (v.storage.observed w x) with
    | false => exact ⟨w, by simp, h.becomes_dropping (by simp)⟩
    | true =>
      obtain ⟨w', hrun, hb⟩ := run_deleteStored law h hx
      refine ⟨w', ?_, by simpa using hb⟩
      rw [if_pos rfl, Vulnerabilities.discard, Op.run_bind_ok (Op.run_attempt_ok hrun)]
      simp [(Criteria.refutes_iff.mp hrefutes).1]

/-! ## One after another -/

/-- Each item on a list may go while nothing but the world is the state. -/
theorem run_each {β : Type} {f : Vulnerability → Op (World S) β} {out : Vulnerability → β}
    {gone : Vulnerability → Bool} {xs : List Vulnerability} (h : v.Ready w) (hnd : xs.Nodup)
    (hxs : ∀ x ∈ xs, x ∈ (v.records w.store).vulnerabilities.records)
    (hf : ∀ u, v.Ready u → (v.records u.store).rules = (v.records w.store).rules →
      (∀ y, v.storage.observed u y = v.storage.observed w y) →
      ∀ x ∈ xs, x ∈ (v.records u.store).vulnerabilities.records →
        ∃ u', (f x).run u = (.ok (out x), u') ∧
          v.Becomes u ((v.records u.store).dropping fun y => decide (y = x) && gone x) u') :
    ∃ w', (Op.each f xs).run w = (.ok (xs.map fun x => (x, out x)), w') ∧
      v.Becomes w ((v.records w.store).dropping fun y => decide (y ∈ xs) && gone y) w' := by
  obtain ⟨_, w', hrun, rfl, hb⟩ := run_each_at law (fun u _ s => s = u) h hnd hxs rfl
    fun u hu hrules hobserved x hx hxu _ _ hs => by
      obtain ⟨u', hrun, hb⟩ := hf u hu hrules hobserved x hx hxu
      exact ⟨u', u', hs ▸ hrun, rfl, hb⟩
  exact ⟨w', hrun, hb⟩

theorem run_reconcileAll_judged {xs : List Vulnerability} (h : v.Ready w) (hnd : xs.Nodup)
    (hxs : ∀ x ∈ xs, x ∈ (v.records w.store).vulnerabilities.records)
    (hj : ∀ x ∈ xs, ∃ t, tree.evaluate (v.storage.observed w x) = .ok t) :
    ∃ w', (Rules.reconcileAll v.storage tree xs).run w =
        (.ok (xs.map fun x => (x, Rules.verdictOn tree (v.storage.observed w x))), w') ∧
      v.Becomes w ((v.records w.store).dropping fun y =>
        decide (y ∈ xs) && tree.refutes (v.storage.observed w y)) w' := by
  rw [Rules.reconcileAll_eq_each]
  refine run_each law h hnd hxs fun u hu _ hobserved x hx hxu => ?_
  obtain ⟨u', hrun, hb⟩ := run_reconcile_judged law hu hxu ((hobserved x).symm ▸ hj x hx)
  rw [hobserved] at hrun hb
  exact ⟨u', hrun, hb⟩

/-- What judging a vulnerability again comes to in a world. -/
def findingOf (v : View S) (w : World S) (x : Vulnerability) : Vulnerabilities.Finding :=
  Vulnerabilities.findingOn ((v.records w.store).ruleOf? x) (v.storage.observed w x)

theorem run_reexamineAll_judged {xs : List Vulnerability} (h : v.Ready w) (hnd : xs.Nodup)
    (hxs : ∀ x ∈ xs, x ∈ (v.records w.store).vulnerabilities.records)
    (hj : ∀ x ∈ xs, ∀ r, (v.records w.store).ruleOf? x = some r →
      ∃ t, r.tree.evaluate (v.storage.observed w x) = .ok t) :
    ∃ w', (Vulnerabilities.reexamineAll v.storage xs).run w =
        (.ok (xs.map fun x => (x, v.findingOf w x)), w') ∧
      v.Becomes w ((v.records w.store).dropping fun y => decide (y ∈ xs) && v.refuted w y) w' := by
  rw [Vulnerabilities.reexamineAll_eq_each]
  refine run_each law h hnd hxs fun u hu hrules hobserved x hx hxu => ?_
  have hrule : (v.records u.store).ruleOf? x = (v.records w.store).ruleOf? x := by
    rw [Memory.ruleOf?, Memory.ruleOf?, hrules]
  obtain ⟨u', hrun, hb⟩ := run_reexamine_judged law hu hxu (by
    rw [hobserved, hrule]
    exact hj x hx)
  rw [refuted, hobserved, hrule] at hb
  rw [hobserved, hrule] at hrun
  exact ⟨u', hrun, hb⟩

/-! ## Changing a rule -/

/-- A change that the checks let through, where all that the rule has found can be judged: it is
written if the store takes it. -/
theorem run_update_taken (h : v.Ready w) (hst : (v.records w.store).Stamped) {r : Rule}
    (hs : v.Plain s) (hr : (v.records w.store).rules.get? (.text s) = some r) {patch : RulePatch}
    {window : Option Window} {tree? : Option Criteria} {isActive : Option Bool}
    (hp : patch.Accepted v.storage w r window tree? isActive)
    (hj : ∀ x ∈ (v.records w.store).vulnerabilities.records, x.ruleId = .text s →
      ∃ t, (tree?.getD r.tree).evaluate (v.storage.observed w x) = .ok t) :
    ∃ w', (Rules.update v.storage (.text s) patch).run w =
        ((v.takes (Rules.changeOf patch window tree? isActive) r.version).map fun _ =>
          { rule := r.changed (v.kept (Rules.changeOf patch window tree? isActive)) tree? w.clock.text
            removed := (v.records w.store).vulnerabilities.records.countP fun x =>
              decide (x.ruleId = .text s) &&
                (tree?.getD r.tree).refutes (v.storage.observed w x)
            errors := [] }, w') ∧
      v.Becomes w
        { (v.records w.store).dropping fun x => decide (x.ruleId = .text s) &&
            (tree?.getD r.tree).refutes (v.storage.observed w x) with
          rules := match v.takes (Rules.changeOf patch window tree? isActive) r.version with
            | .ok _ => (v.records w.store).rules.put (.text s)
                (r.changed (v.kept (Rules.changeOf patch window tree? isActive)) tree?
                  w.clock.text)
            | .error _ => (v.records w.store).rules } w' := by
  have hn (operation : Operation) : v.name operation (.text s) = .ok (some s) := law.name_text hs
  obtain ⟨xs, hperm, hlist⟩ := law.listForRule h hst (hn _)
  have hmem := mem_listed hperm
  have hget : (v.storage.perform (.getRule (.text s))).run w = (.ok (some r), w) := by
    rw [run_getRule_text law h hs, hr]
  have hpre := Rules.preflight_of_accepted hp
  rw [Rules.run_update_settle (List.isEmpty_iff.mpr hp.known) (by simp [Rules.requireKey]) hget hpre
    hp.tree hlist, Rules.settle]
  obtain ⟨u, hloop, hb⟩ := run_reconcileAll_judged law h (h.nodup_listed hperm)
    (fun x hx => ((hmem x).mp hx).1) fun x hx => hj x ((hmem x).mp hx).1 ((hmem x).mp hx).2
  rw [Memory.dropping_listed hperm] at hb
  obtain ⟨w', hwrite, hb'⟩ := run_updateRule_dropping law h (hn _) hr
    (Rules.changeOf patch window tree? isActive) ⟨rfl, rfl, rfl, rfl⟩
    ((law.triple_checkedTree patch.tree w).ok hp.tree).2 hb
  refine ⟨w', ?_, hb'⟩
  rw [Op.run_bind_ok hloop, Rules.removals_verdicts, Rules.failures_verdicts,
    Memory.countP_listed hperm, Op.run_bind, hwrite]
  cases v.takes (Rules.changeOf patch window tree? isActive) r.version <;> rfl

/-- A change that the checks let through and the store takes, where all that the rule
has found can be judged. -/
theorem run_update_judged (h : v.Ready w) (hst : (v.records w.store).Stamped) {r : Rule}
    (hs : v.Plain s) (hr : (v.records w.store).rules.get? (.text s) = some r) {patch : RulePatch}
    {window : Option Window} {tree? : Option Criteria} {isActive : Option Bool}
    (hp : patch.Accepted v.storage w r window tree? isActive)
    (ht : v.takes (Rules.changeOf patch window tree? isActive) r.version = .ok ())
    (hj : ∀ x ∈ (v.records w.store).vulnerabilities.records, x.ruleId = .text s →
      ∃ t, (tree?.getD r.tree).evaluate (v.storage.observed w x) = .ok t) :
    ∃ w', (Rules.update v.storage (.text s) patch).run w =
        (.ok
          { rule := r.changed (v.kept (Rules.changeOf patch window tree? isActive)) tree? w.clock.text
            removed := (v.records w.store).vulnerabilities.records.countP fun x =>
              decide (x.ruleId = .text s) &&
                (tree?.getD r.tree).refutes (v.storage.observed w x)
            errors := [] }, w') ∧
      v.Becomes w
        { (v.records w.store).dropping fun x => decide (x.ruleId = .text s) &&
            (tree?.getD r.tree).refutes (v.storage.observed w x) with
          rules := (v.records w.store).rules.put (.text s)
            (r.changed (v.kept (Rules.changeOf patch window tree? isActive)) tree?
              w.clock.text) } w' := by
  obtain ⟨w', hrun, hb⟩ := run_update_taken law h hst hs hr hp hj
  rw [ht] at hrun hb
  exact ⟨w', hrun, hb⟩

/-! ## Trials -/

theorem run_wouldRemove (h : v.Ready w) (hx : x ∈ (v.records w.store).vulnerabilities.records)
    (hj : ∃ t, tree.evaluate (v.storage.observed w x) = .ok t) :
    (Rules.wouldRemove v.storage tree x).run w =
      (.ok (tree.refutes (v.storage.observed w x)), w) := by
  have hobserved := run_observed law h (h.kept.findings x hx).assessmentId
  obtain ⟨t, ht⟩ := hj
  rw [Rules.wouldRemove, Op.run_bind_ok hobserved]
  cases hempty : (v.storage.observed w x).isEmpty with
  | true =>
    rw [List.isEmpty_iff.mp hempty]
    simp [Criteria.refutes, Criteria.evaluate_nil]
  | false =>
    have hjudge : (judge tree (v.storage.observed w x)).run w = (.ok t, w) := by
      rw [judge, ht, Op.run_orElse_ok]
    simp only [Bool.false_eq_true, if_false]
    rw [Op.run_bind_ok hjudge]
    cases t <;> simp [Criteria.refutes, ht, hempty]

/-- A preview counts what the rule has found, and what of it the tree refutes. -/
theorem run_preview (h : v.Ready w) (hst : (v.records w.store).Stamped) {r : Rule} (hs : v.Plain s)
    (hr : (v.records w.store).rules.get? (.text s) = some r) {document : Value}
    (hread : Criteria.read document = .ok tree)
    (hj : ∀ x ∈ (v.records w.store).vulnerabilities.records, x.ruleId = .text s →
      ∃ t, tree.evaluate (v.storage.observed w x) = .ok t) :
    (Rules.preview v.storage (.text s) document).run w =
      (.ok ⟨(v.records w.store).vulnerabilities.records.countP (·.ruleId = .text s),
        (v.records w.store).vulnerabilities.records.countP fun x => decide (x.ruleId = .text s) &&
          tree.refutes (v.storage.observed w x)⟩, w) := by
  obtain ⟨xs, hperm, hlist⟩ := law.listForRule h hst (law.name_text hs)
  have hmem := mem_listed hperm
  have hget : (v.storage.perform (.getRule (.text s))).run w = (.ok (some r), w) := by
    rw [run_getRule_text law h hs, hr]
  have hfound : (Rules.get v.storage (.text s)).run w = (.ok r, w) := Op.run_bind_ok hget
  have hparse : (Op.orElse (.invalid <| .tree ·) (Criteria.read document) : Op (World S) _).run w =
      (.ok tree, w) := by
    rw [hread, Op.run_orElse_ok]
  have hcounted := Op.run_mapM_of_run (f := Rules.wouldRemove v.storage tree) (s := w)
    fun x hx => run_wouldRemove law h ((hmem x).mp hx).1 (hj x ((hmem x).mp hx).1 ((hmem x).mp hx).2)
  rw [Rules.preview, Op.run_bind_ok hfound, Op.run_bind_ok hparse, Op.run_bind_ok hlist,
    Op.run_bind_ok hcounted]
  have haffected : xs.length =
      (v.records w.store).vulnerabilities.records.countP (·.ruleId = .text s) := by
    rw [hperm.length_eq, List.countP_eq_length_filter]
  have hremoved : (xs.map fun x => tree.refutes (v.storage.observed w x)).count true =
      (v.records w.store).vulnerabilities.records.countP fun x => decide (x.ruleId = .text s) &&
        tree.refutes (v.storage.observed w x) := by
    rw [List.count, List.countP_map, Memory.countP_listed hperm]
    exact List.countP_congr fun x _ => by simp
  rw [haffected, hremoved]
  rfl

end View

/-! ## Either store -/

/-- What is listed for a property has what a column makes of its number. -/
theorem Tables.perm_listForProperty {w : World Tables} (h : Tables.Whole w.store) {p : Value}
    {xs : List Vulnerability} (hlist : ((Tables.listForProperty p none).run w).1 = .ok xs) :
    xs.Perm ((Tables.records w.store).vulnerabilities.records.filter
      (·.propertyId.equal (Tables.spot p))) := by
  rw [Tables.listForProperty, Op.run_bind_ok (Tables.run_select h.vulnerabilities),
    Tables.bindNumber_eq, Op.run_bind, Op.run_ofExcept] at hlist
  cases hq : Tables.boundCell .listVulnerabilitiesForProperty (Cell.number p) with
  | error e =>
    rw [hq] at hlist
    cases hlist
  | ok q =>
    rw [hq] at hlist
    cases hlist
    rw [Tables.spot_of_bound hq, Tables.records, Shelf.records_relabel, List.filter_map]
    exact Tables.byDetection_perm _

namespace Backing

variable {b : Backing} {w : World b.Store} {p : Value} {xs : List Vulnerability}

theorem perm_listForProperty : ∀ (b : Backing) {w : World b.Store} {p : Value}
    {xs : List Vulnerability}, b.view.Ready w → Stamped (b.vulnerabilities w.store) →
    (b.storage.perform (.listVulnerabilitiesForProperty p none)).run w = (.ok xs, w) →
    xs.Perm ((b.view.records w.store).vulnerabilities.records.filter
      (·.propertyId.equal (b.spot p)))
  | memory, w, p, xs, h, hst, hlist => by
    obtain ⟨ys, hperm, hrun⟩ := Memory.lawful.listForProperty (p := p) h hst trivial
    cases hrun.symm.trans hlist
    exact hperm
  | tables, w, p, xs, h, _, hlist =>
    Tables.perm_listForProperty h.whole (congrArg Prod.fst hlist)

theorem run_getVulnerability : ∀ (b : Backing) {w : World b.Store} (id : Value), b.view.Ready w →
    (b.storage.perform (.getVulnerability id)).run w =
      (b.view.look .getVulnerability id (b.view.records w.store).vulnerabilities, w)
  | memory, w, id, h => (Memory.run_look (fun m => Memory.find m.vulnerabilities id) w).trans
      (congrArg (·, w) (Memory.find_of_shelved h.kept.vulnerabilities .getVulnerability id))
  | tables, _, _, h => Tables.run_getVulnerability h.whole

/-- Everything that is listed for a property is judged, and just what is refuted goes. -/
theorem run_reevaluate_judged (h : b.view.Ready w) (hst : Stamped (b.vulnerabilities w.store))
    (hlist : (b.storage.perform (.listVulnerabilitiesForProperty p none)).run w = (.ok xs, w))
    (hj : ∀ x ∈ xs, ∀ r, (b.view.records w.store).ruleOf? x = some r →
      ∃ t, r.tree.evaluate (b.view.storage.observed w x) = .ok t) :
    ∃ w', (Vulnerabilities.reevaluate b.storage p).run w =
        (.ok (Vulnerabilities.summary p (xs.map fun x => (x, b.view.findingOf w x))), w') ∧
      b.view.Becomes w ((b.view.records w.store).dropping fun x =>
        x.propertyId.equal (b.spot p) && b.view.refuted w x) w' := by
  have hperm := perm_listForProperty b h hst hlist
  obtain ⟨w', hrun, hb⟩ := View.run_reexamineAll_judged b.lawful h (h.nodup_listed hperm)
    (fun x hx => (List.mem_filter.mp (hperm.mem_iff.mp hx)).1) hj
  rw [Memory.dropping_listed hperm] at hb
  rw [b.view_storage] at hrun
  refine ⟨w', ?_, hb⟩
  rw [Vulnerabilities.reevaluate, Vulnerabilities.listForProperty, Op.run_bind_ok hlist,
    Op.run_bind_ok hrun]
  rfl

/-- A single vulnerability is judged by its rule on what was observed. -/
theorem run_evaluate_judged (h : b.view.Ready w) {x : Vulnerability}
    (hx : x ∈ b.vulnerabilities w.store) {r : Rule}
    (hr : (b.view.records w.store).ruleOf? x = some r) {t : Bool}
    (ht : r.tree.evaluate (b.view.storage.observed w x) = .ok t) :
    (Vulnerabilities.evaluate b.storage x.id).run w = (.ok t, w) := by
  rw [← b.records_vulnerabilities] at hx
  obtain ⟨i, hi, hid, hget⟩ := h.kept.vulnerabilities.get?_of_mem hx
  have hfound : (Vulnerabilities.get b.storage x.id).run w = (.ok x, w) := by
    have hlook := run_getVulnerability b x.id h
    rw [hid, View.look_of_name (b.lawful.name_text hi), hget, ← hid] at hlook
    exact Op.run_bind_ok hlook
  have hrule := View.run_ruleOf b.lawful h hx
  have hobserved := View.run_observed b.lawful h (h.kept.findings x hx).assessmentId
  rw [hr, b.view_storage] at hrule
  rw [b.view_storage] at hobserved ht
  rw [Vulnerabilities.evaluate, Op.run_bind_ok hfound, Op.run_bind_ok hrule]
  simp only
  rw [Op.run_bind_ok hobserved, judge, ht, Op.run_orElse_ok]

end Backing

end PropertyRisk
