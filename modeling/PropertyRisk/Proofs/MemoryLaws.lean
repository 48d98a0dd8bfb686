import PropertyRisk.Proofs.Views

/-!
# The store in memory is lawful

`Memory.lawful`: every value is kept as it is. Only a text can be the key of a
record that is kept under its own id, so other values name nothing, unless they
are no keys at all.
-/

namespace PropertyRisk

open Op (Triple Keeps)

/-! ## Detection times -/

theorem Stamped.sublist {xs ys : List Vulnerability} (h : Stamped ys) (hs : ∀ x ∈ xs, x ∈ ys) :
    Stamped xs :=
  fun x hx => h x (hs x hx)

theorem stampAll_of_stamped {xs : List Vulnerability} (h : Stamped xs) :
    ∃ stamped, stampAll xs = .ok stamped ∧ stamped.map (·.2) = xs ∧
      ∀ p ∈ stamped, requireStampValue p.2.detectedAt = .ok p.1 := by
  induction xs with
  | nil => exact ⟨[], rfl, rfl, by simp⟩
  | cons x rest ih =>
    obtain ⟨stamp, hx⟩ := h x List.mem_cons_self
    obtain ⟨stamped, hs, hmap, hread⟩ := ih fun y hy => h y (List.mem_cons_of_mem _ hy)
    refine ⟨(stamp, x) :: stamped, by simp [stampAll, hx, hs], by simp [hmap], ?_⟩
    simpa [hx] using hread

namespace Memory

theorem byDetection_of_stamped {xs : List Vulnerability} (h : PropertyRisk.Stamped xs) :
    ∃ ys, byDetection xs = .ok ys ∧ ys.Perm xs := by
  obtain ⟨stamped, hs, hmap, -⟩ := stampAll_of_stamped h
  refine ⟨(stamped.mergeSort fun a b => a.1.le b.1).map (·.2), by simp [byDetection, hs], ?_⟩
  exact hmap ▸ (List.mergeSort_perm stamped _).map _

/-! ## The view -/

def view : View Memory where
  storage := storage
  records := id
  Whole _ := True
  Plain _ := True
  Settled _ := True
  Tree _ := True
  Noted _ := True
  name _ id :=
    match id.key? with
    | some (.text s) => .ok (some s)
    | some _ => .ok none
    | none => .error (.fault .wrongShape)
  column := id
  flag := id
  takes _ _ := .ok ()

theorem eq_text_of_key? {id : Value} {s : String} (h : id.key? = some (.text s)) : id = .text s := by
  unfold Value.key? at h
  split at h
  all_goals try cases h
  · split at h <;> cases h
  · rfl

theorem eq_text_of_name {operation : Operation} {id : Value} {s : String}
    (h : view.name operation id = .ok (some s)) : id = .text s := by
  simp only [view] at h
  split at h
  · rename_i hk
    cases h
    exact eq_text_of_key? hk
  · cases h
  · cases h

section

variable {α : Type} {idOf : α → Value} {shelf : Shelf Key α}

/-- All keys of a shelf are texts. -/
def TextKeys (shelf : Shelf Key α) : Prop := ∀ p ∈ shelf, ∃ s, p.1 = .text s

theorem TextKeys.of_shelved (h : view.Shelved idOf shelf) : TextKeys shelf := by
  intro p hp
  obtain ⟨s, -, hs, -⟩ := h.own p hp
  exact ⟨s, hs⟩

theorem TextKeys.put (h : TextKeys shelf) (s : String) (a : α) :
    TextKeys (shelf.put (.text s) a) := by
  intro p hp
  have hkey : p.1 ∈ (shelf.put (.text s) a).keys := List.mem_map.mpr ⟨p, hp, rfl⟩
  rcases Shelf.mem_keys_put.mp hkey with hs | hold
  · exact ⟨s, hs⟩
  · obtain ⟨q, hq, he⟩ := List.mem_map.mp hold
    obtain ⟨t, ht⟩ := h q hq
    exact ⟨t, he ▸ ht⟩

theorem TextKeys.erase (h : TextKeys shelf) (key : Key) : TextKeys (shelf.erase key) :=
  fun p hp => h p (Shelf.mem_erase_iff.mp hp).2

theorem TextKeys.get?_of_not_text (h : TextKeys shelf) {key : Key} (hk : ∀ s, key ≠ .text s) :
    shelf.get? key = none := by
  refine Shelf.get?_eq_none_iff.mpr fun hm => ?_
  obtain ⟨p, hp, rfl⟩ := List.mem_map.mp hm
  obtain ⟨s, hs⟩ := h p hp
  exact hk s hs

theorem TextKeys.find (h : TextKeys shelf) (operation : Operation) (id : Value) :
    find shelf id = view.look operation id shelf := by
  unfold Memory.find keyOf View.look
  simp only [view]
  cases hk : id.key? with
  | none => rfl
  | some key =>
    cases key with
    | text s =>
      rw [eq_text_of_key? hk]
      rfl
    | _ => simp [Except.map, h.get?_of_not_text]

theorem TextKeys.without (h : TextKeys shelf) {operation : Operation} {id : Value}
    {found : Option α} (hf : view.look operation id shelf = .ok found) :
    without id shelf = .ok (view.drop operation id shelf) := by
  unfold Memory.without keyOf View.drop
  simp only [View.look, view] at hf ⊢
  cases hk : id.key? with
  | none => simp [hk, Except.map] at hf
  | some key =>
    cases key with
    | text s =>
      rw [eq_text_of_key? hk]
      rfl
    | _ => simp [Shelf.erase_of_get?_none (h.get?_of_not_text _)]

theorem find_of_shelved (h : view.Shelved idOf shelf) (operation : Operation) (id : Value) :
    find shelf id = view.look operation id shelf :=
  (TextKeys.of_shelved h).find operation id

end

/-! ## Runs -/

theorem run_look (f : Memory → Except Error α) (w : World Memory) :
    (look f).run w = (f w.store, w) := by
  show (Op.ofExcept (f w.store)).run w = _
  cases f w.store <;> rfl

theorem perform_eq (r : Request α) :
    view.storage.perform r = (answer .whole (answer .whole .silent)).perform r := rfl

theorem quiet_of_isRead {r : Request α} (h : r.isRead) : Op.Quiet (view.storage.perform r) := by
  intro w
  cases r <;> first
    | exact absurd h Bool.false_ne_true
    | simp only [perform_eq, answer, Op.within_whole, run_look, Op.run_pure, Op.run_bind]
  case listRulesEffectiveAt time =>
    cases effectiveAmong time (Shelf.records w.store.rules) <;> rfl

/-- Nothing but the records changes. -/
theorem becomes {w : World Memory} {m : Memory} :
    view.Becomes w m { w with store := m } :=
  ⟨trivial, rfl, rfl, rfl, Nat.le_refl _⟩

theorem becomes_issued {w : World Memory} {m : Memory} :
    view.Becomes w m { w with store := m, issued := w.issued + 1 } :=
  ⟨trivial, rfl, rfl, rfl, Nat.le_succ _⟩

theorem run_updateRule {w : World Memory} {s : String} {r : Rule} {change : RuleChange}
    {tree : Option Criteria} (hr : w.store.rules.get? (.text s) = some r)
    (hc : change.Proper tree) :
    (updateRule (.text s) change (some (.int r.version))).run w =
      (.ok (some (r.changed change tree w.clock.text)),
        { w with store := { w.store with
            rules := w.store.rules.put (.text s) (r.changed change tree w.clock.text) } }) := by
  have ht : change.tree.mapM TreeSource.read = .ok tree := by
    rw [hc.tree]
    cases tree <;> rfl
  have he : ((some (Value.int r.version)).any (!·.equal (.int r.version))) = false := by
    simp [Value.equal]
  simp only [updateRule, ht, Op.run_bind, Op.run_orElse_ok, World.run_stored, find_text, hr,
    Op.run_ofExcept_ok, he, hc.others, List.isEmpty_nil, Bool.not_true, Bool.false_eq_true,
    if_false, World.run_now, place_text, World.run_save, Op.run_pure]

theorem run_deleteRule {w : World Memory} {id : Value} (h : TextKeys w.store.rules) :
    (deleteRule id).run w = ((view.look .deleteRule id w.store.rules).map Option.isSome,
      { w with store := { w.store with rules := view.drop .deleteRule id w.store.rules } }) := by
  simp only [deleteRule, Op.run_bind, World.run_stored, h.find .deleteRule]
  cases hf : view.look .deleteRule id w.store.rules with
  | ok found =>
    simp only [Op.run_ofExcept_ok, h.without hf, World.run_save, Op.run_pure, Except.map]
  | error e => simp only [Op.run_ofExcept_error, View.drop_of_look_error hf, Except.map]

theorem run_deleteVulnerability {w : World Memory} {id : Value}
    (h : view.Shelved Vulnerability.id w.store.vulnerabilities) :
    (deleteVulnerability id).run w =
      ((view.look .deleteVulnerability id w.store.vulnerabilities).map Option.isSome,
        { w with store := { w.store with
            vulnerabilities := view.drop .deleteVulnerability id w.store.vulnerabilities } }) := by
  simp only [deleteVulnerability, Op.run_bind, World.run_stored,
    find_of_shelved h .deleteVulnerability]
  cases hf : view.look .deleteVulnerability id w.store.vulnerabilities with
  | ok found =>
    simp only [Op.run_ofExcept_ok, (TextKeys.of_shelved h).without hf, World.run_save, Op.run_pure,
      Except.map]
  | error e => simp only [Op.run_ofExcept_error, View.drop_of_look_error hf, Except.map]

theorem same_changed {x : Vulnerability} {change : VulnerabilityChange} {now : String}
    (hc : change.IsWorkflow) : x.Same (x.changed change now) := by
  refine ⟨?_, ?_, ?_, ?_, ?_, fun hx => ?_⟩ <;> simp only [Vulnerability.changed]
  · rw [hc.id]; rfl
  · rw [hc.ruleId]; rfl
  · rw [hc.assessmentId]; rfl
  · rw [hc.propertyId]; rfl
  · rw [hc.detectedAt]; rfl
  · cases hs : change.status with
    | none => exact hx
    | some y => exact hc.status y hs

theorem run_updateVulnerability {w : World Memory} {id : Value} {change : VulnerabilityChange}
    (h : view.Shelved Vulnerability.id w.store.vulnerabilities) (hc : change.others = []) :
    (updateVulnerability id change).run w =
      match view.look .updateVulnerability id w.store.vulnerabilities with
      | .error e => (.error e, w)
      | .ok none => (.ok none, w)
      | .ok (some x) => (.ok (some (x.changed change w.clock.text)), { w with
          store := { w.store with
            vulnerabilities := w.store.vulnerabilities.put (.text id.plain)
              (x.changed change w.clock.text) } }) := by
  simp only [updateVulnerability, Op.run_bind, World.run_stored,
    find_of_shelved h .updateVulnerability]
  rcases hf : view.look .updateVulnerability id w.store.vulnerabilities with _ | _ | x
  · rfl
  · rfl
  · obtain ⟨s, hn, -⟩ := View.look_eq_some.mp hf
    cases eq_text_of_name hn
    simp only [Op.run_ofExcept_ok, hc, List.isEmpty_nil, Bool.not_true, Bool.false_eq_true,
      if_false, Op.run_bind, World.run_now, place_text, World.run_save, Op.run_pure]
    rfl

theorem triple_updateVulnerability {w : World Memory} {id : Value} {change : VulnerabilityChange}
    (h : view.Shelved Vulnerability.id w.store.vulnerabilities) (hc : change.IsWorkflow) :
    Triple (updateVulnerability id change) w
      (fun y? w' => match y? with
        | none => w' = w
        | some y => ∃ s x, w.store.vulnerabilities.get? (.text s) = some x ∧ x.Same y ∧
            view.Becomes w { w.store with
              vulnerabilities := w.store.vulnerabilities.put (.text s) y } w')
      (fun _ w' => w' = w) := by
  rw [Triple, run_updateVulnerability h hc.others]
  rcases hf : view.look .updateVulnerability id w.store.vulnerabilities with _ | _ | x
  · rfl
  · rfl
  · obtain ⟨s, hn, hx⟩ := View.look_eq_some.mp hf
    cases eq_text_of_name hn
    exact ⟨s, x, hx, same_changed hc, becomes⟩

/-- A world that differs from another one in its catalogs at most. -/
def CatalogsOnly (w w' : World Memory) : Prop :=
  ∃ m, m.rules = w.store.rules ∧ m.vulnerabilities = w.store.vulnerabilities ∧
    m.assessments = w.store.assessments ∧ view.Becomes w m w'

theorem keeps_idOr (given : Value) (w : World Memory) :
    Keeps (CatalogsOnly w) (World.idOr given) w := by
  unfold World.idOr
  split
  · exact Triple.pure ⟨w.store, rfl, rfl, rfl, becomes⟩
  · exact Triple.bind (Triple.of_run (World.run_fresh w) ⟨w.store, rfl, rfl, rfl, becomes_issued⟩)
      fun _ _ h => Triple.pure h

/-- File a new record in a catalog. -/
def filed (given : Value) (make : Value → α) (idOf : α → Value) (shelf : Memory → Shelf Key α)
    (set : Memory → Shelf Key α → Memory) : Op (World Memory) α := do
  let t := make (← World.idOr given)
  let m ← World.stored
  World.save (set m (← Op.ofExcept (place (idOf t) t (shelf m))))
  return t

theorem createObservationType_eq (d : ObservationTypeDraft) : createObservationType d =
    filed d.id d.withId ObservationType.id Memory.observationTypes
      fun m s => { m with observationTypes := s } := rfl

theorem createObservationValue_eq (d : ObservationValueDraft) : createObservationValue d =
    filed d.id d.withId ObservationValue.id Memory.observationValues
      fun m s => { m with observationValues := s } := rfl

theorem createMitigationType_eq (d : MitigationTypeDraft) : createMitigationType d =
    filed d.id d.withId MitigationType.id Memory.mitigationTypes
      fun m s => { m with mitigationTypes := s } := rfl

theorem createMitigationValue_eq (d : MitigationValueDraft) : createMitigationValue d =
    filed d.id d.withId MitigationValue.id Memory.mitigationValues
      fun m s => { m with mitigationValues := s } := rfl

/-- A record without an id is filed under the next one. -/
theorem run_filed {make : Value → α} {idOf : α → Value}
    {shelf : Memory → Shelf Key α} {set : Memory → Shelf Key α → Memory} {w : World Memory}
    (hid : idOf (make (.text (w.idOf (w.issued + 1)))) = .text (w.idOf (w.issued + 1))) :
    (filed .null make idOf shelf set).run w =
      (.ok (make (.text (w.idOf (w.issued + 1)))), { w with
        store := set w.store ((shelf w.store).put (.text (w.idOf (w.issued + 1)))
          (make (.text (w.idOf (w.issued + 1)))))
        issued := w.issued + 1 }) := by
  simp only [filed, World.idOr, Value.holds, Bool.false_eq_true, if_false, Op.run_bind,
    World.run_fresh, Op.run_pure, World.run_stored, hid, place_text, Op.run_ofExcept_ok,
    World.run_save]

theorem keeps_filed {given : Value} {make : Value → α} {idOf : α → Value}
    {shelf : Memory → Shelf Key α} {set : Memory → Shelf Key α → Memory}
    (hset : ∀ m s, (set m s).rules = m.rules ∧ (set m s).vulnerabilities = m.vulnerabilities ∧
      (set m s).assessments = m.assessments) (w : World Memory) :
    Keeps (CatalogsOnly w) (filed given make idOf shelf set) w := by
  refine (keeps_idOr given w).bind fun id t ht => ?_
  simp only [Keeps, Triple, Op.run_bind, World.run_stored]
  cases place (idOf (make id)) (make id) (shelf t.store) with
  | error e => exact ht
  | ok s =>
    obtain ⟨m, hr, hv, ha, hb⟩ := ht
    obtain ⟨hr', hv', ha'⟩ := hset t.store s
    have hm : t.store = m := hb.records
    exact ⟨set t.store s, by rw [hr', hm, hr], by rw [hv', hm, hv], by rw [ha', hm, ha],
      trivial, rfl, hb.clock, hb.idOf, hb.issued⟩

theorem keeps_catalogs {r : Request α} {w : World Memory} (h : r.isCatalogWrite) :
    Keeps (CatalogsOnly w) (view.storage.perform r) w := by
  cases r <;> first
    | exact absurd h Bool.false_ne_true
    | simp only [perform_eq, answer, Op.within_whole, createObservationType_eq,
        createObservationValue_eq, createMitigationType_eq, createMitigationValue_eq]
      refine keeps_filed ?_ w
      exact fun _ _ => ⟨rfl, rfl, rfl⟩

end Memory

theorem Memory.lawful : Memory.view.Lawful where
  plain_stamp := trivial
  column_text _ := rfl
  column_null := rfl
  flag_bool := rfl
  tree_of_read _ := trivial
  noted_of_read _ := trivial
  name_text _ := rfl
  text_of_name h := (Value.text.inj (Memory.eq_text_of_name h)).symm
  name_congr _ h := h
  now := rfl
  reads := Memory.quiet_of_isRead
  getRule {w} id hw := by
    simp only [Memory.perform_eq, Memory.answer, Op.within_whole, Memory.run_look]
    exact congrArg (·, w) (Memory.find_of_shelved hw.kept.rules .getRule id)
  getAssessment {w} id hw := by
    simp only [Memory.perform_eq, Memory.answer, Op.within_whole, Memory.run_look]
    exact congrArg (·, w) (Memory.find_of_shelved hw.kept.assessments .getAssessment id)
  listRules {w} _ := ⟨w.store.rules.records, .refl _, rfl⟩
  listRulesEffectiveAt := rfl
  listForRule {w id s} hw hs hn := by
    cases Memory.eq_text_of_name hn
    have hf : w.store.vulnerabilities.records.filter (·.ruleId.equal (.text s)) =
        w.store.vulnerabilities.records.filter (·.ruleId = .text s) := by
      refine List.filter_congr fun x hx => ?_
      obtain ⟨t, -, ht⟩ := (hw.kept.findings x hx).ruleId
      simp [ht]
    obtain ⟨xs, hxs, hp⟩ := Memory.byDetection_of_stamped
      (hs.sublist fun x (hx : x ∈ w.store.vulnerabilities.records.filter (·.ruleId = .text s)) =>
        List.mem_of_mem_filter hx)
    refine ⟨xs, hp, ?_⟩
    simp only [Memory.perform_eq, Memory.answer, Op.within_whole, Memory.run_look, hf, hxs]
  listForProperty {w p} hw hs _ := by
    obtain ⟨xs, hxs, hp⟩ := Memory.byDetection_of_stamped
      (hs.sublist fun x (hx : x ∈ w.store.vulnerabilities.records.filter (·.propertyId.equal p)) =>
        List.mem_of_mem_filter hx)
    refine ⟨xs, hp, ?_⟩
    simp only [Memory.perform_eq, Memory.answer, Op.within_whole, Memory.run_look,
      Memory.ofProperty, hxs]
  createRule {w d} _ _ _ := Triple.of_run rfl ⟨rfl, rfl, rfl, Memory.becomes_issued⟩
  updateRule {w id s r} change tree _ hn hr hc _ := by
    cases Memory.eq_text_of_name hn
    have hk : Memory.view.kept change = change := by
      simp [View.kept, Memory.view]
    exact ⟨_, by rw [hk]; exact Memory.run_updateRule hr hc, by rw [hk]; exact Memory.becomes⟩
  deleteRule _ hw := ⟨_, Memory.run_deleteRule (.of_shelved hw.kept.rules), Memory.becomes⟩
  createVulnerability {w ruleId assessmentId p} _ _ _ _ _ := by
    refine ⟨_, ?_, rfl, Memory.becomes_issued⟩
    simp only [Memory.perform_eq, Memory.answer, Op.within_whole, Memory.createVulnerability,
      Op.run_bind, World.run_now, World.run_fresh, World.run_stored, World.run_save, Op.run_pure,
      Value.orElse_self]
    rfl
  updateVulnerability _ _ hw hc := Memory.triple_updateVulnerability hw.kept.vulnerabilities hc
  deleteVulnerability _ hw :=
    ⟨_, Memory.run_deleteVulnerability hw.kept.vulnerabilities, Memory.becomes⟩
  createAssessment _ _ _ := Triple.of_run rfl ⟨rfl, rfl, trivial, rfl, Memory.becomes_issued⟩
  catalogs _ h := Memory.keeps_catalogs h

end PropertyRisk
