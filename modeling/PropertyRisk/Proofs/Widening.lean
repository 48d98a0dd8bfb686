import PropertyRisk.Proofs.Effects
import PropertyRisk.Proofs.Entries
import PropertyRisk.Proofs.Rewriting

/-!
# Widening a rule

`Backing.widening_removes_nothing`: a tree holds wherever it held before, if parts of it are
replaced by parts that hold wherever the old ones did. So a change of a rule to such a tree removes
nothing that the rule has found, as far as all of it triggered before.

Comparisons that overflow do no harm to the second of these. They put an end to the change before
anything is removed: a tree so widened may come to an error, but not to false.
-/

namespace PropertyRisk

open Op (Triple Keeps Quiet)
open Engine

namespace Condition

variable {os : List Observation} {c d : Condition} {cs ds : List Condition}
  {Recorded : List Observation → Prop}

/-- One tree holds on all the lists of observations on which the other does. -/
def Implies (Recorded : List Observation → Prop) (c d : Condition) : Prop :=
  ∀ os, Recorded os → evaluate os c = .ok true → evaluate os d = .ok true

/-- Some parts of a tree, none within another, are replaced by parts that they imply. -/
inductive Widens (Recorded : List Observation → Prop) : Condition → Condition → Prop
  | replaced {c d : Condition} (h : c.Implies Recorded d) : Widens Recorded c d
  | within {join : Join} {cs ds : List Condition} (h : List.Forall₂ (Widens Recorded) cs ds) :
      Widens Recorded (.group join cs) (.group join ds)

theorem Widens.refl (c : Condition) : c.Widens Recorded c := .replaced fun _ _ h => h

theorem Widens.fill (h : c.Widens Recorded d) : ∀ C : Context, (C.fill c).Widens Recorded (C.fill d)
  | .here => h
  | .inside _ before rest after =>
    have hsame (cs : List Condition) : List.Forall₂ (Widens Recorded) cs cs :=
      List.forall₂_same.mpr fun c _ => .refl c
    .within (List.rel_append (hsame before) (.cons (h.fill rest) (hsame after)))

/-! ## What a group comes to -/

theorem anyHolds_eq_false_iff :
    anyHolds os cs = .ok false ↔ ∀ c ∈ cs, evaluate os c = .ok false := by
  induction cs with
  | nil => simp [anyHolds]
  | cons c rest ih =>
    rw [anyHolds, List.forall_mem_cons, ← ih]
    split <;> simp_all

theorem evaluate_or_eq_false_iff :
    evaluate os (.group .or cs) = .ok false ↔ ∀ c ∈ cs, evaluate os c = .ok false := by
  cases cs with
  | nil => simp [evaluate]
  | cons c rest => rw [evaluate, anyHolds_eq_false_iff]

theorem exists_mem_of_anyHolds (h : anyHolds os cs = .ok true) :
    ∃ c ∈ cs, evaluate os c = .ok true := by
  induction cs with
  | nil => simp [anyHolds] at h
  | cons c rest ih =>
    rw [anyHolds] at h
    split at h
    case h_1 =>
      obtain ⟨d, hd, htrue⟩ := ih h
      exact ⟨d, List.mem_cons_of_mem c hd, htrue⟩
    case h_2 => exact ⟨c, List.mem_cons_self, h⟩

/-- A group joined by `or` that holds has a member that does. -/
theorem exists_mem_of_or (h : evaluate os (.group .or cs) = .ok true) :
    ∃ c ∈ cs, evaluate os c = .ok true := by
  cases cs with
  | nil => simp [evaluate] at h
  | cons c rest => exact exists_mem_of_anyHolds h

theorem exists_mem_of_allHold (h : allHold os cs = .ok false) :
    ∃ c ∈ cs, evaluate os c = .ok false := by
  induction cs with
  | nil => simp [allHold] at h
  | cons c rest ih =>
    rw [allHold] at h
    split at h
    case h_1 =>
      obtain ⟨d, hd, hfalse⟩ := ih h
      exact ⟨d, List.mem_cons_of_mem c hd, hfalse⟩
    case h_2 => exact ⟨c, List.mem_cons_self, h⟩

/-- A group joined by `and` that comes to false has a member that does, or none at all. -/
theorem exists_mem_of_and (h : evaluate os (.group .and cs) = .ok false) :
    cs = [] ∨ ∃ c ∈ cs, evaluate os c = .ok false := by
  cases cs with
  | nil => exact .inl rfl
  | cons c rest => exact .inr (exists_mem_of_allHold h)

/-! ## Widened trees -/

theorem exists_related {P : Condition → Condition → Prop} (h : List.Forall₂ P cs ds) :
    (∀ c ∈ cs, ∃ d ∈ ds, P c d) ∧ ∀ d ∈ ds, ∃ c ∈ cs, P c d := by
  induction h with
  | nil => simp
  | cons hcd _ ih =>
    simp only [List.forall_mem_cons, List.exists_mem_cons_iff, hcd, true_or, true_and]
    exact ⟨fun c hc => .inr (ih.1 c hc), fun d hd => .inr (ih.2 d hd)⟩

/-! A member that overflows where it did not before may hide others, but does not make the group
false. So what is followed through a tree is that nothing that held becomes false. -/

mutual

theorem Widens.not_false (hos : Recorded os) : ∀ {c d : Condition}, c.Widens Recorded d →
    evaluate os c = .ok true → evaluate os d ≠ .ok false
  | _, _, .replaced h, hc => by
    rw [h os hos hc]
    exact nofun
  | .group .and cs, .group _ ds, .within h, hc => by
    have hmembers := members_not_false hos h
    obtain ⟨hne, hall⟩ := evaluate_and_iff.mp hc
    intro hfalse
    -- a member that is false now did not hold, but all of them did
    rcases exists_mem_of_and hfalse with rfl | ⟨d, hd, hdf⟩
    · exact hne (List.forall₂_nil_right_iff.mp h)
    · obtain ⟨c, hcm, hcd⟩ := (exists_related hmembers).2 d hd
      exact hcd (hall c hcm) hdf
  | .group .or cs, .group _ ds, .within h, hc => by
    have hmembers := members_not_false hos h
    -- what took the place of the member that held is not false
    obtain ⟨c, hcm, htrue⟩ := exists_mem_of_or hc
    obtain ⟨d, hd, hcd⟩ := (exists_related hmembers).1 c hcm
    exact fun hfalse => hcd htrue (evaluate_or_eq_false_iff.mp hfalse d hd)

theorem members_not_false (hos : Recorded os) : ∀ {cs ds : List Condition},
    List.Forall₂ (Widens Recorded) cs ds →
      List.Forall₂ (fun c d => evaluate os c = .ok true → evaluate os d ≠ .ok false) cs ds
  | [], _, h => by
    cases h
    exact .nil
  | c :: rest, _, h => by
    cases h with
    | cons hcd hrest => exact .cons (hcd.not_false hos) (members_not_false hos hrest)

end

/-- A part of a tree is replaced by one that holds where the old one does. -/
theorem Context.evaluate_fill_mono (C : Context) (hd : (C.fill d).Comparable os)
    (h : evaluate os c = .ok true → evaluate os d = .ok true)
    (hc : evaluate os (C.fill c) = .ok true) : evaluate os (C.fill d) = .ok true := by
  have hwidens : (C.fill c).Widens (os = ·) (C.fill d) := by
    refine Widens.fill (.replaced ?_) C
    rintro _ rfl
    exact h
  obtain ⟨t, ht⟩ := hd.evaluate
  cases t with
  | true => exact ht
  | false => exact absurd ht (hwidens.not_false rfl hc)

end Condition

/-! ## What a rule has found -/

/-- A list of observations that one of the assessments records. -/
def Memory.Observed (m : Memory) (os : List Observation) : Prop :=
  ∃ a ∈ m.assessments.records, a.observations = os

namespace View

variable {S : Type} {v : View S} {w : World S} {x : Vulnerability} {tree tree' : Criteria}

variable (law : v.Lawful)
include law

/-- A vulnerability was found on the observations of an assessment, or on none that are left. -/
theorem observed_recorded (h : v.Ready w) (hx : x ∈ (v.records w.store).vulnerabilities.records) :
    v.storage.observed w x = [] ∨ (v.records w.store).Observed (v.storage.observed w x) := by
  obtain ⟨i, hi, hid⟩ := (h.kept.findings x hx).assessmentId
  have hrun := run_getAssessment_text law h hi
  rw [← hid] at hrun
  rw [Storage.observed, observationsOf, Op.run_bind_ok hrun]
  cases ha : (v.records w.store).assessments.get? (.text i) with
  | none => exact .inl rfl
  | some a => exact .inr ⟨a, Shelf.mem_records_of_get? ha, rfl⟩

/-- What triggered a tree is not refuted by a wider one. -/
theorem not_refutes_of_widens (h : v.Ready w)
    (hx : x ∈ (v.records w.store).vulnerabilities.records)
    (hwidens : tree.toCondition.Widens (v.records w.store).Observed tree'.toCondition)
    (htriggers : tree.evaluate (v.storage.observed w x) = .ok true) :
    tree'.refutes (v.storage.observed w x) = false := by
  rw [← Bool.not_eq_true, Criteria.refutes_iff]
  rintro ⟨hne, hfalse⟩
  have hrecorded := (observed_recorded law h hx).resolve_left hne
  exact hwidens.not_false hrecorded htriggers hfalse

/-- The tree that a change goes by is the rule's own or, if it sets one, a wider one. -/
theorem triple_checked_widens {Recorded : List Observation → Prop} {r : Rule} {patch : RulePatch}
    (w : World S)
    (htree : ∀ document tree, patch.tree = some document → Criteria.read document = .ok tree →
      r.tree.toCondition.Widens Recorded tree.toCondition) :
    Triple (patch.tree.mapM (Rules.checkTree v.storage)) w
      (fun tree? w' => w' = w ∧
        r.tree.toCondition.Widens Recorded (tree?.getD r.tree).toCondition)
      (fun _ w' => w' = w) := by
  cases hp : patch.tree with
  | none => exact Triple.pure ⟨rfl, .refl _⟩
  | some document =>
    refine Triple.map some ((Rules.triple_checkTree law.readsQuietly document w).mono ?_
      fun _ _ h => h)
    rintro tree w' ⟨rfl, hread⟩
    exact ⟨rfl, htree document tree hp hread⟩

/-- What a tree does not refute is kept. Where it cannot be judged everything stays as it is. -/
theorem triple_reconcile_kept (h : v.Ready w)
    (hx : x ∈ (v.records w.store).vulnerabilities.records)
    (hkept : tree.refutes (v.storage.observed w x) = false) :
    Triple (Rules.reconcile v.storage tree x) w (fun out w' => w' = w ∧ out = .kept)
      (fun _ w' => w' = w) := by
  have hobserved := run_observed law h (h.kept.findings x hx).assessmentId
  refine Triple.bind_run (Op.run_attempt_ok hobserved) ?_
  dsimp only
  split
  -- without observations nothing is judged
  case isTrue => exact Triple.pure ⟨rfl, rfl⟩
  case isFalse hne =>
    refine Triple.bind (Q := fun t w' => w' = w ∧ tree.evaluate (v.storage.observed w x) = .ok t)
      (Triple.orElse (fun _ ht => ⟨rfl, ht⟩) fun _ _ => rfl) ?_
    rintro t w' ⟨rfl, ht⟩
    cases t with
    | true => exact Triple.pure ⟨rfl, rfl⟩
    | false =>
      have hrefutes : tree.refutes (v.storage.observed w' x) = true :=
        Criteria.refutes_iff.mpr ⟨fun hempty => hne (List.isEmpty_iff.mpr hempty), ht⟩
      cases hkept.symm.trans hrefutes

theorem triple_reconcileAll_kept {xs : List Vulnerability} (h : v.Ready w)
    (hxs : ∀ x ∈ xs, x ∈ (v.records w.store).vulnerabilities.records)
    (hkept : ∀ x ∈ xs, tree.refutes (v.storage.observed w x) = false) :
    Triple (Rules.reconcileAll v.storage tree xs) w
      (fun outs w' => w' = w ∧ ∀ p ∈ outs, p.2 = .kept) (fun _ w' => w' = w) := by
  induction xs with
  | nil => exact Triple.pure ⟨rfl, nofun⟩
  | cons x rest ih =>
    rw [List.forall_mem_cons] at hxs hkept
    refine (triple_reconcile_kept law h hxs.1 hkept.1).bind ?_
    rintro out _ ⟨rfl, hout⟩
    refine (ih hxs.2 hkept.2).bind ?_
    rintro outs _ ⟨rfl, houts⟩
    exact Triple.pure ⟨rfl, List.forall_mem_cons.mpr ⟨hout, houts⟩⟩

end View

theorem Engine.Rules.removals_of_kept {outs : List (Vulnerability × Outcome)}
    (h : ∀ p ∈ outs, p.2 = .kept) : removals outs = 0 ∧ failures outs = [] := by
  constructor
  · rw [removals, List.countP_eq_zero]
    intro p hp
    simp [h p hp]
  · rw [failures, List.filterMap_eq_nil_iff]
    rintro ⟨x, out⟩ hp
    rw [show out = .kept from h _ hp]

/-! ## The change -/

namespace Backing

variable {b : Backing} {w : World b.Store} {id : Value} {r : Rule} {patch : RulePatch}

/-- A change that gives a rule a wider tree, where all that the rule has found triggers it so
far. -/
theorem triple_apply_widening (hw : b.view.Ready w) {s : String}
    (hn : b.view.name .getRule id = .ok (some s))
    (htree : ∀ document tree, patch.tree = some document → Criteria.read document = .ok tree →
      r.tree.toCondition.Widens (b.view.records w.store).Observed tree.toCondition)
    (htriggers : ∀ x ∈ b.vulnerabilities w.store, x.ruleId = .text s →
      r.tree.evaluate (b.storage.observed w x) = .ok true)
    (window : Option Window) (isActive : Option Bool) :
    Triple (Rules.apply b.storage r id patch window isActive) w
      (fun u w' => b.vulnerabilities w'.store = b.vulnerabilities w.store ∧
        u.removed = 0 ∧ u.errors = [])
      (fun _ w' => b.vulnerabilities w'.store = b.vulnerabilities w.store) := by
  have law := b.lawful
  rw [← b.view_storage] at htriggers ⊢
  simp only [← b.records_vulnerabilities] at htriggers ⊢
  have hchecked := View.triple_checked_widens law w htree
  refine Triple.bind (hchecked.mono (fun _ _ h => h) fun _ _ h => h ▸ rfl) ?_
  rintro tree? w ⟨rfl, hwidens⟩
  have hlist := b.triple_listForRule (w := w) (law.name_congr .listVulnerabilitiesForRule hn)
  rw [← b.view_storage] at hlist
  simp only [← b.records_vulnerabilities] at hlist
  refine Triple.bind (hlist.mono (fun _ _ h => h) fun _ _ h => h ▸ rfl) ?_
  rintro xs w ⟨rfl, hxs⟩
  have hkept (x) (hx : x ∈ xs) :
      (tree?.getD r.tree).refutes (b.view.storage.observed w x) = false :=
    View.not_refutes_of_widens law hw (hxs x hx).1 hwidens (htriggers x (hxs x hx).1 (hxs x hx).2)
  refine Triple.bind ((View.triple_reconcileAll_kept law hw (fun x hx => (hxs x hx).1) hkept).mono
    (fun _ _ h => h) fun _ _ h => h ▸ rfl) ?_
  rintro outs w ⟨rfl, houts⟩
  obtain ⟨hremoved, herrors⟩ := Rules.removals_of_kept houts
  -- only the rule is written then
  have hspares : (Request.updateRule id (Rules.changeOf patch window tree? isActive)
      (some (.int r.version))).Spares fun m => m.vulnerabilities.records := fun _ _ => rfl
  have hwritten := Backing.keeps_beside hspares b (w := w)
  rw [← b.view_storage] at hwritten
  refine Triple.bind (hwritten.mono (fun _ _ h => h.2) fun _ _ h => h.2) ?_
  rintro (_ | r') w' hsame
  · exact Triple.throw hsame
  · exact Triple.pure ⟨hsame, hremoved, herrors⟩

/-- A rule may be given a wider tree without anything that it has found being removed, where all
of that triggers its present tree. -/
theorem triple_update_widening (hw : b.view.Ready w)
    (hr : (b.storage.perform (.getRule id)).run w = (.ok (some r), w))
    (htree : ∀ document tree, patch.tree = some document → Criteria.read document = .ok tree →
      r.tree.toCondition.Widens (b.view.records w.store).Observed tree.toCondition)
    (htriggers : ∀ x ∈ b.vulnerabilities w.store, x.ruleId = r.id →
      r.tree.evaluate (b.storage.observed w x) = .ok true) :
    Triple (Rules.update b.storage id patch) w
      (fun u w' => b.vulnerabilities w'.store = b.vulnerabilities w.store ∧
        u.removed = 0 ∧ u.errors = [])
      (fun _ w' => b.vulnerabilities w'.store = b.vulnerabilities w.store) := by
  have law := b.lawful
  have hlook : b.view.look .getRule id (b.view.records w.store).rules = .ok (some r) := by
    rw [← b.view_storage] at hr
    exact congrArg Prod.fst ((law.getRule id hw).symm.trans hr)
  obtain ⟨s, hn, hget⟩ := View.look_eq_some.mp hlook
  rw [(hw.kept.rules.id_of_get? hget).2] at htriggers
  have happly (window isActive) := triple_apply_widening hw hn htree htriggers window isActive
  unfold Rules.update
  split
  · exact Triple.throw rfl
  refine Triple.bind_ofExcept (fun _ => rfl) fun _ _ => ?_
  refine Triple.bind_run (Op.run_bind_ok hr) (Triple.bind_ofExcept (fun _ => rfl) fun found _ => ?_)
  split
  · exact happly _ _
  · exact happly _ _
  · exact Triple.throw rfl

/-- A tree holds where it held before a part of it was replaced by one that holds where the old
one does. A change of a rule to a tree that differs in such parts only leaves the vulnerabilities
as they are, whatever it ends in. -/
theorem widening_removes_nothing :
    (∀ (C : Condition.Context) (c d : Condition) (os : List Observation),
      (C.fill d).Comparable os → (c.evaluate os = .ok true → d.evaluate os = .ok true) →
        (C.fill c).evaluate os = .ok true → (C.fill d).evaluate os = .ok true) ∧
    ∀ (b : Backing) (w w' : World b.Store) (id : Value) (r : Rule) (patch : RulePatch)
      (result : Except Error RuleUpdate),
      b.view.Ready w → (b.storage.perform (.getRule id)).run w = (.ok (some r), w) →
      (∀ document tree, patch.tree = some document → Criteria.read document = .ok tree →
        r.tree.toCondition.Widens (b.view.records w.store).Observed tree.toCondition) →
      (∀ x ∈ b.vulnerabilities w.store, x.ruleId = r.id →
        r.tree.evaluate (b.storage.observed w x) = .ok true) →
      (Rules.update b.storage id patch).run w = (result, w') →
        b.vulnerabilities w'.store = b.vulnerabilities w.store ∧
          ∀ u, result = .ok u → u.removed = 0 ∧ u.errors = [] := by
  refine ⟨fun C c d os hd h hc => C.evaluate_fill_mono hd h hc, ?_⟩
  intro b w w' id r patch result hw hr htree htriggers hrun
  have hkept := triple_update_widening hw hr htree htriggers
  cases result with
  | error e => exact ⟨hkept.error hrun, nofun⟩
  | ok u =>
    obtain ⟨hsame, hnone⟩ := hkept.ok hrun
    refine ⟨hsame, fun u' hu => ?_⟩
    cases hu
    exact hnone

/-- Traces of water are to be enough. -/
def lenient : RulePatch where
  tree := some (.object [("join_operator", .text "AND"), ("conditions", .list
    [.object [("join_operator", .text "OR"), ("conditions", .list
      [.object [("observation_type_id", .text "water"), ("value", .text "yes")],
       .object [("observation_type_id", .text "water"), ("value", .text "traces")]])]])])

def anyWater : Condition :=
  .group .or [.water, .leaf { typeId := "water", value := .text "traces" }]

theorem water_implies {os : List Observation} (h : Condition.water.evaluate os = .ok true) :
    anyWater.evaluate os = .ok true := by
  rw [anyWater, Condition.evaluate, Condition.anyHolds, h]

/-- What the rule has found is still there when traces of water are enough for it. -/
theorem update_lenient :
    Condition.evaluate [⟨"water", none, .text "yes"⟩] (.group .and [anyWater]) = .ok true ∧
    ∃ u w', (Rules.update Memory.storage (.text "leak") lenient).run leaks = (.ok u, w') ∧
      memory.vulnerabilities w'.store = memory.vulnerabilities leaks.store ∧
      u.removed = 0 ∧ u.errors = [] := by
  constructor
  · exact widening_removes_nothing.1 (.inside .and [] .here []) .water anyWater _
      (Condition.comparable_of_unordered (by decide)) water_implies (by decide)
  · obtain ⟨u, hok⟩ :
        ∃ u, ((Rules.update Memory.storage (.text "leak") lenient).run leaks).1 = .ok u := by
      have hdone : (((Rules.update Memory.storage (.text "leak") lenient).run
          leaks).1.toOption).isSome = true := by cbv
      cases hresult : ((Rules.update Memory.storage (.text "leak") lenient).run leaks).1 with
      | ok u => exact ⟨u, rfl⟩
      | error e => cases hresult ▸ hdone
    refine ⟨u, _, Prod.ext hok rfl, ?_⟩
    have hread (document tree) (hp : lenient.tree = some document)
        (hread : Criteria.read document = .ok tree) :
        tree.toCondition = .group .and [anyWater] := by
      cases hp
      have hlenient : Criteria.read (lenient.tree.getD .null) = .ok ⟨.and, [anyWater]⟩ := by cbv
      cases hread.symm.trans hlenient
      rfl
    have hkept := widening_removes_nothing.2 memory leaks _ (.text "leak") (waterRule "leak")
      lenient _ ready_leaks rfl (fun document tree hp ht => ?_) (by decide +kernel)
      (Prod.ext hok rfl)
    · exact ⟨hkept.1, hkept.2 u rfl⟩
    · rw [hread document tree hp ht]
      exact .within (.cons (.replaced fun _ _ => water_implies) .nil)

end Backing

end PropertyRisk
