import PropertyRisk.Proofs.Agreement
import PropertyRisk.Proofs.Legible
import PropertyRisk.Proofs.Ledgers

/-!
# Worlds that are told the same

Peers are two worlds of one kind of store under one clock that have the same
catalogs, whatever else was done in them. What the checks of a rule say in them is
the same, and so are new rules and assessments but for their ids.
-/

namespace PropertyRisk

open Op (Agree Triple)
open Engine

namespace View

variable {S : Type}

structure Peers (v : View S) (w u : World S) : Prop where
  ready : v.Ready w ∧ v.Ready u
  supplied : v.Supplied w ∧ v.Supplied u
  clock : u.clock = w.clock
  types : (v.records u.store).observationTypes = (v.records w.store).observationTypes
  values : (v.records u.store).observationValues = (v.records w.store).observationValues

/-- A store that answers from its catalogs alone when these are asked for, and from
the draft and the time alone when a rule or an assessment is new. -/
structure Impartial (v : View S) : Prop where
  types : ∀ ids, Agree v.Peers v.Peers (fun _ => True)
    (v.storage.perform (.getObservationTypes ids)) (v.storage.perform (.getObservationTypes ids))
  values : ∀ ids, Agree v.Peers v.Peers (fun _ => True)
    (v.storage.perform (.getObservationValues ids)) (v.storage.perform (.getObservationValues ids))
  rule : ∀ {d}, v.Tree d.tree → ∃ make : String → Except Error Rule, ∀ {w}, v.Ready w →
    v.Supplied w →
      ((v.storage.perform (.createRule d)).run w).1.map Rule.unnamed = make w.clock.text
  assessment : ∀ {d}, v.Noted d.observations → ∃ make : String → Except Error Assessment, ∀ {w},
    v.Ready w → v.Supplied w →
      ((v.storage.perform (.createAssessment d)).run w).1.map Assessment.unnamed =
        make w.clock.text
  /-- What is listed for a property is stored. -/
  listed : ∀ {w} (p), Triple (v.storage.perform (.listVulnerabilitiesForProperty p none)) w
    (fun xs w' => w' = w ∧ ∀ x ∈ xs, x ∈ (v.records w.store).vulnerabilities.records)
    (fun _ w' => w' = w)

end View

/-! ## In memory -/

theorem Memory.impartial : Memory.view.Impartial where
  types ids := by
    refine .of_run fun w u h => ?_
    refine ⟨_, w, u, Memory.run_look (fun m => findAll m.observationTypes ids) w, ?_, h,
      fun _ _ => trivial⟩
    have hrun := Memory.run_look (fun m => findAll m.observationTypes ids) u
    rw [show u.store.observationTypes = w.store.observationTypes from h.types] at hrun
    exact hrun
  values ids := by
    refine .of_run fun w u h => ?_
    refine ⟨_, w, u, Memory.run_look (fun m => findAll m.observationValues ids) w, ?_, h,
      fun _ _ => trivial⟩
    have hrun := Memory.run_look (fun m => findAll m.observationValues ids) u
    rw [show u.store.observationValues = w.store.observationValues from h.values] at hrun
    exact hrun
  rule {d} _ := ⟨fun now => .ok
    { id := .null, name := d.name, description := d.description, tree := d.tree
      effectiveFrom := d.effectiveFrom.orElse (.text now), effectiveTo := d.effectiveTo
      isActive := d.isActive, version := 1, createdAt := .text now, updatedAt := now },
    fun _ _ => rfl⟩
  assessment {d} _ := ⟨fun now => .ok
    ⟨.null, d.propertyId, d.observations, d.assessedAt.orElse (.text now)⟩, fun _ _ => rfl⟩
  listed {w} p := by
    show Triple (look fun m => m.ofProperty p none) w _ _
    rcases hf : w.store.ofProperty p none with e | xs
    · exact Triple.of_run_error ((run_look _ w).trans (by rw [hf])) rfl
    · refine Triple.of_run ((run_look _ w).trans (by rw [hf])) ⟨rfl, fun x hx => ?_⟩
      exact (List.mem_filter.mp ((perm_of_byDetection hf).mem_iff.mp hx)).1

/-! ## In tables -/

theorem Value.ofText?_injective : Function.Injective Value.ofText? := by
  rintro (_ | s) (_ | t) h <;> cases h <;> rfl

theorem ObservationTypeRow.toType_injective : Function.Injective toType := by
  intro a b h
  simp only [toType, ObservationType.mk.injEq, Value.text.injEq, Value.bool.injEq] at h
  obtain ⟨hid, hname, hkind, hdescription, hmultiple⟩ := h
  cases a
  cases b
  simp_all [Value.ofText?_injective.eq_iff]

theorem ObservationValueRow.toValue_injective : Function.Injective toValue := by
  intro a b h
  simp only [toValue, ObservationValue.mk.injEq, Value.text.injEq] at h
  obtain ⟨hid, htype, hvalue, hdescription⟩ := h
  cases a
  cases b
  simp_all [Value.ofText?_injective.eq_iff]

namespace Tables

variable {w u : World Tables}

theorem table_eq {t t' : Table α} {f : α → β} (hf : Function.Injective f)
    (ht : t.state = .whole) (ht' : t'.state = .whole)
    (h : t'.rows.relabel Key.text f = t.rows.relabel Key.text f) : t' = t := by
  have hpair : Function.Injective fun p : String × α => (Key.text p.1, f p.2) := by
    rintro ⟨k, a⟩ ⟨l, b⟩ hp
    exact Prod.ext (text_injective (congrArg Prod.fst hp)) (hf (congrArg Prod.snd hp))
  have hrows : t'.rows = t.rows := List.map_injective_iff.mpr hpair h
  cases t
  cases t'
  simp_all

/-- What is read of two tables that are the same. -/
theorem agree_selectByIds {R : World Tables → World Tables → Prop} {operation : Operation}
    {table : Tables → Table α} (htable : ∀ w u, R w u → table u.store = table w.store)
    (idOf : α → String) (ids : List Value) : Agree R R (fun _ => True)
      (selectByIds operation table idOf ids) (selectByIds operation table idOf ids) := by
  refine .ite (fun _ => .pure trivial) fun _ => ?_
  have hselect : Agree R R (fun _ => True) (select operation table) (select operation table) := by
    refine .of_run fun w u h => ?_
    refine ⟨((select operation table).run w).1, w, u,
      Prod.ext rfl (quiet_select operation table w), Prod.ext ?_ (quiet_select operation table u), h,
      fun _ _ => trivial⟩
    simp only [select, Op.run_bind, World.run_stored, htable w u h, prepare]
    cases (table w.store).allows .everyColumn <;> rfl
  refine hselect.bind fun rows _ => ?_
  refine Agree.bind (P := fun _ => True) (.mapM fun x _ => ?_) fun cells _ => .pure trivial
  rw [bindText_eq]
  exact .ofExcept fun _ _ => trivial

theorem get?_of_unused {rows : Shelf String α} {f : α → β} {s : String}
    (h : Key.text s ∉ (rows.relabel Key.text f).keys) : rows.get? s = none := by
  refine Shelf.get?_eq_none_iff.mpr fun hm => h ?_
  rw [Shelf.keys_relabel]
  exact List.mem_map_of_mem hm

/-! ### New rules -/

/-- What the text columns make of a new rule: its name, its description, and the
ends of its window. -/
def ruleCells (d : RuleDraft) (now : String) :
    Except Error (String × String × String × Option String) := do
  let name ← boundCell .createRule (Cell.text d.name)
  let description ← boundCell .createRule (Cell.text d.description)
  let start ← boundCell .createRule (Cell.text (d.effectiveFrom.orElse (.text now)))
  let stop ← boundCell .createRule (Cell.text d.effectiveTo)
  let name ← requiredCell .createRule name
  let description ← requiredCell .createRule description
  let start ← requiredCell .createRule start
  return (name, description, start, stop)

def newRule (d : RuleDraft) (now : String) (cells : String × String × String × Option String)
    (id : String) : RuleRow where
  id := id
  name := cells.1
  description := cells.2.1
  tree := d.tree.toValue
  effectiveFrom := cells.2.2.1
  effectiveTo := cells.2.2.2
  isActive := d.isActive.holds
  version := 1
  createdAt := now
  updatedAt := now

theorem run_insertRule_of_new (h : Whole w.store) (d : RuleDraft)
    (hnew : w.store.rules.rows.get? (w.idOf (w.issued + 1)) = none) :
    match ruleCells d w.clock.text with
    | .error e => (insertRule d).run w = (.error e, { w with issued := w.issued + 1 })
    | .ok cells => (insertRule d).run w = (.ok (w.idOf (w.issued + 1)), { w with
        store := w.store.withRule (w.idOf (w.issued + 1))
          (newRule d w.clock.text cells (w.idOf (w.issued + 1)))
        issued := w.issued + 1 }) := by
  simp only [insertRule, Op.run_bind, World.run_now, World.run_fresh, World.run_stored,
    prepare_whole h.rules, Op.run_pure, bindText_eq, notNull_eq, Op.run_ofExcept, ruleCells]
  rcases boundCell .createRule (Cell.text d.name) with e | name
  · rfl
  rcases boundCell .createRule (Cell.text d.description) with e | description
  · rfl
  rcases boundCell .createRule (Cell.text (d.effectiveFrom.orElse (.text w.clock.text)))
    with e | start
  · rfl
  rcases boundCell .createRule (Cell.text d.effectiveTo) with e | stop
  · rfl
  simp only [ok_bind]
  rcases requiredCell .createRule name with e | name
  · rfl
  rcases requiredCell .createRule description with e | description
  · rfl
  rcases requiredCell .createRule start with e | start
  · rfl
  simp only [ok_bind, Tables.insert, hnew, Option.isSome_none, Bool.false_eq_true, if_false]
  rfl

theorem answer_createRule (hw : view.Ready w) (hs : view.Supplied w) {d : RuleDraft}
    (hd : d.tree.Readable) :
    ((view.storage.perform (.createRule d)).run w).1.map Rule.unnamed =
      (ruleCells d w.clock.text).map fun cells =>
        (newRule d w.clock.text cells "").record.unnamed := by
  have hwhole : Whole w.store := hw.whole
  have hrun := run_insertRule_of_new hwhole d
    (get?_of_unused fun hm => hs.unused _ (Nat.lt_succ_self _) (.inl hm))
  rcases hcells : ruleCells d w.clock.text with e | cells <;> rw [hcells] at hrun
  · exact congrArg (·.1.map Rule.unnamed) (Op.run_bind_error hrun)
  have hread : (newRule d w.clock.text cells (w.idOf (w.issued + 1))).toRule =
      .ok (newRule d w.clock.text cells (w.idOf (w.issued + 1))).record :=
    RuleRow.toRule_of_read (Criteria.read_toValue hd)
  have hafter := hwhole.withRule (s := w.idOf (w.issued + 1)) hread
  have hanswer : (view.storage.perform (.createRule d)).run w =
      (.ok (newRule d w.clock.text cells (w.idOf (w.issued + 1))).record, { w with
        store := w.store.withRule (w.idOf (w.issued + 1))
          (newRule d w.clock.text cells (w.idOf (w.issued + 1)))
        issued := w.issued + 1 }) := by
    exact (Op.run_bind_ok hrun).trans
      (run_reread (run_getRule_written hafter.toReadsRules (hs.plain _) rfl))
  rw [hanswer]
  rfl

/-! ### New assessments -/

/-- What the columns make of a new assessment: its property and its time. -/
def assessmentCells (d : AssessmentDraft) (now : String) : Except Error (Value × String) := do
  let p ← boundCell .createAssessment (Cell.number d.propertyId)
  let time ← boundCell .createAssessment (Cell.text (d.assessedAt.orElse (.text now)))
  if p = .null then .error (.storage ⟨.createAssessment, .database⟩)
  else return (p, ← requiredCell .createAssessment time)

def newAssessment (d : AssessmentDraft) (cells : Value × String) (id : String) : AssessmentRow where
  id := id
  propertyId := cells.1
  assessedAt := cells.2
  observations := Observation.listToValue d.observations

theorem run_insertAssessment_of_new (h : Whole w.store) (d : AssessmentDraft)
    (hnew : w.store.assessments.rows.get? (w.idOf (w.issued + 1)) = none) :
    match assessmentCells d w.clock.text with
    | .error e => (insertAssessment d).run w = (.error e, { w with issued := w.issued + 1 })
    | .ok cells => (insertAssessment d).run w = (.ok (w.idOf (w.issued + 1)), { w with
        store := w.store.withAssessment (w.idOf (w.issued + 1))
          (newAssessment d cells (w.idOf (w.issued + 1)))
        issued := w.issued + 1 }) := by
  simp only [insertAssessment, Op.run_bind, World.run_now, World.run_fresh, World.run_stored,
    prepare_whole h.assessments, Op.run_pure, bindText_eq, bindNumber_eq, notNull_eq,
    numberNotNull_eq, Op.run_ofExcept, assessmentCells]
  rcases boundCell .createAssessment (Cell.number d.propertyId) with e | p
  · rfl
  rcases boundCell .createAssessment (Cell.text (d.assessedAt.orElse (.text w.clock.text)))
    with e | time
  · rfl
  simp only [ok_bind]
  by_cases hp : p = .null
  · simp only [hp, if_true]
  simp only [hp, if_false]
  rcases requiredCell .createAssessment time with e | time
  · rfl
  simp only [ok_bind, Tables.insert, hnew, Option.isSome_none, Bool.false_eq_true, if_false]
  rfl

theorem answer_createAssessment (hw : view.Ready w) (hs : view.Supplied w) {d : AssessmentDraft}
    (hd : ∀ o ∈ d.observations, o.typeId ≠ "") :
    ((view.storage.perform (.createAssessment d)).run w).1.map Assessment.unnamed =
      (assessmentCells d w.clock.text).map fun cells =>
        (newAssessment d cells "").record.unnamed := by
  have hwhole : Whole w.store := hw.whole
  have hrun := run_insertAssessment_of_new hwhole d
    (get?_of_unused fun hm => hs.unused _ (Nat.lt_succ_self _) (.inr (.inr (.inl hm))))
  rcases hcells : assessmentCells d w.clock.text with e | cells <;> rw [hcells] at hrun
  · exact congrArg (·.1.map Assessment.unnamed) (Op.run_bind_error hrun)
  have hread := (AssessmentRow.toAssessment_of_noted
    (r := newAssessment d cells (w.idOf (w.issued + 1))) rfl hd).1
  have hafter := hwhole.withAssessment (s := w.idOf (w.issued + 1)) hread
  have hanswer : (view.storage.perform (.createAssessment d)).run w =
      (.ok (newAssessment d cells (w.idOf (w.issued + 1))).record, { w with
        store := w.store.withAssessment (w.idOf (w.issued + 1))
          (newAssessment d cells (w.idOf (w.issued + 1)))
        issued := w.issued + 1 }) := by
    exact (Op.run_bind_ok hrun).trans
      (run_reread (run_getAssessment_written hafter (hs.plain _) rfl))
  rw [hanswer]
  rfl

end Tables

theorem Tables.impartial : Tables.view.Impartial where
  types ids := by
    refine Agree.bind (P := fun _ => True) (agree_selectByIds (fun w u h => ?_) _ ids)
      fun _ _ => .pure trivial
    exact table_eq ObservationTypeRow.toType_injective h.ready.1.whole.observationTypes
      h.ready.2.whole.observationTypes h.types
  values ids := by
    refine Agree.bind (P := fun _ => True) (agree_selectByIds (fun w u h => ?_) _ ids)
      fun _ _ => .pure trivial
    exact table_eq ObservationValueRow.toValue_injective h.ready.1.whole.observationValues
      h.ready.2.whole.observationValues h.values
  rule {d} hd := ⟨fun now => (ruleCells d now).map fun cells => (newRule d now cells "").record.unnamed,
    fun hw hs => answer_createRule hw hs hd⟩
  assessment {d} hd :=
    ⟨fun now => (assessmentCells d now).map fun cells => (newAssessment d cells "").record.unnamed,
      fun hw hs => answer_createAssessment hw hs hd⟩
  listed {w} p := by
    show Triple (listForProperty p none) w _ _
    simp only [listForProperty, select, bind_assoc, bindNumber_eq]
    refine Triple.bind_run (World.run_stored w) ?_
    unfold prepare
    split
    case isFalse => exact Triple.throw rfl
    simp only [pure_bind]
    refine Triple.bind_ofExcept (fun _ => rfl) fun q _ => Triple.pure ⟨rfl, fun x hx => ?_⟩
    obtain ⟨row, hrow, rfl⟩ := List.mem_map.mp ((byDetection_perm _).mem_iff.mp hx)
    show _ ∈ (records w.store).vulnerabilities.records
    rw [records, Shelf.records_relabel]
    exact List.mem_map_of_mem (List.mem_filter.mp hrow).1

theorem Backing.impartial : ∀ b : Backing, b.view.Impartial
  | memory => Memory.impartial
  | tables => Tables.impartial

end PropertyRisk
