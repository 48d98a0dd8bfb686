import PropertyRisk.Proofs.Mirror

/-!
# Writing to tables and to their mirror

A typed write leaves the columns of its row as it was given, so the row is the
record that the mirror keeps. A new row comes last, a changed one stays where it
was, and the tables stay `Tidy`.
-/

namespace PropertyRisk.Tables

variable {bound : Nat} {w : World Tables} {x : Value} {x? : Option Value} {s : String}

/-! ## Columns -/

@[simp] theorem notNull_some {operation : Operation} (a : α) :
    notNull operation (some a) = pure a := rfl

@[simp] theorem setText_none {operation : Operation} (old : String) :
    setText operation none old = pure old := rfl

theorem setText_map {operation : Operation} (new : Option String) (old : String) :
    setText operation (new.map some) old = pure (new.getD old) := by
  cases new <;> rfl

/-- A text fills its column. -/
theorem column_of_isText (h : x.IsText) : ∃ s, Text.isWhole s = true ∧ x = .text s ∧
    ∀ operation, bindText operation x = pure (some s) := by
  obtain ⟨s, hs, rfl⟩ := h
  exact ⟨s, hs, rfl, fun operation => by rw [bindText, Cell.text_text hs, bound]⟩

theorem column_of_isOptional (h : x.IsOptional) : ∃ s? : Option String,
    (∀ s, s? = some s → Text.isWhole s = true) ∧ x = .ofText? s? ∧
    ∀ operation, bindText operation x = pure s? := by
  rcases h with rfl | h
  · exact ⟨none, nofun, rfl, fun _ => rfl⟩
  · obtain ⟨s, hs, rfl, hbind⟩ := column_of_isText h
    refine ⟨some s, ?_, rfl, hbind⟩
    rintro _ ⟨⟩
    exact hs

theorem columns_of_isText (h : ∀ x, x? = some x → x.IsText) : ∃ new : Option String,
    x? = new.map .text ∧ ∀ operation,
      x?.mapM (fun x => boundCell operation (Cell.text x)) = .ok (new.map some) := by
  cases x? with
  | none => exact ⟨none, rfl, fun _ => rfl⟩
  | some x =>
    obtain ⟨s, hs, rfl⟩ := h x rfl
    refine ⟨some s, rfl, fun operation => ?_⟩
    show some <$> boundCell operation _ = _
    rw [Cell.text_text hs]
    rfl

theorem columns_of_isOptional (h : ∀ x, x? = some x → x.IsOptional) :
    ∃ new : Option (Option String), (∀ s, new = some (some s) → Text.isWhole s = true) ∧
      x? = new.map .ofText? ∧ ∀ operation,
        x?.mapM (fun x => boundCell operation (Cell.text x)) = .ok new := by
  cases x? with
  | none => exact ⟨none, nofun, rfl, fun _ => rfl⟩
  | some x =>
    rcases h x rfl with rfl | ⟨s, hs, rfl⟩
    · exact ⟨some none, nofun, rfl, fun _ => rfl⟩
    · refine ⟨some (some s), ?_, rfl, fun operation => ?_⟩
      · rintro _ ⟨⟩
        exact hs
      · show some <$> boundCell operation _ = _
        rw [Cell.text_text hs]
        rfl

/-- A text that may be absent is kept as it is. -/
theorem column_isOptional (h : x.IsOptional) : view.column x = x := by
  rcases h with rfl | ⟨s, hs, rfl⟩
  · exact Tables.lawful.column_null
  · exact Tables.lawful.column_text hs

theorem bindNumber_of_isWord (h : x.IsWord) {operation : Operation} :
    bindNumber operation x = pure x := by
  obtain ⟨n, hn, rfl⟩ := h
  rw [bindNumber, Cell.number_int hn, bound]

theorem numberNotNull_of_isWord (h : x.IsWord) {operation : Operation} :
    numberNotNull operation x = pure x := by
  obtain ⟨n, -, rfl⟩ := h
  exact if_neg nofun

/-- A time that is not given is the time of writing. -/
theorem isText_orElse (h : x.IsText) (now : Time.Stamp) : (x.orElse (.text now.text)).IsText := by
  unfold Value.orElse
  split
  · exact h
  · exact Value.isText_stamp now

/-! ## Filing -/

namespace Tidy

theorem issue (h : Tidy bound w) : Tidy bound { w with issued := w.issued + 1 } :=
  { h with
    rules := h.rules.mono (Nat.le_succ _)
    vulnerabilities := h.vulnerabilities.mono (Nat.le_succ _)
    assessments := h.assessments.mono (Nat.le_succ _)
    observationTypes := h.observationTypes.mono (Nat.le_succ _)
    observationValues := h.observationValues.mono (Nat.le_succ _)
    mitigationTypes := h.mitigationTypes.mono (Nat.le_succ _)
    mitigationValues := h.mitigationValues.mono (Nat.le_succ _) }

theorem fileRule (h : Tidy bound w) {row : RuleRow} (hid : row.id = w.idOf (w.issued + 1))
    (hnow : row.createdAt = w.clock.text) (hr : row.Typed bound) :
    Tidy bound { w with
      store := w.store.withRule (w.idOf (w.issued + 1)) row, issued := w.issued + 1 } :=
  { h.issue with
    rules := h.rules.put_next h.ids hid
    created := by
      show Dated _ (List.map _ (Shelf.records (Shelf.put _ _ _)))
      rw [h.rules.records_put_next h.ids, List.map_append, List.map_singleton, hnow]
      exact h.created.now h.utc
    ruleRows := fun r hm => (Shelf.mem_records_put hm).elim (fun he => he ▸ hr) (h.ruleRows r) }

theorem fileVulnerability (h : Tidy bound w) {row : VulnerabilityRow}
    (hid : row.id = w.idOf (w.issued + 1)) (hnow : row.detectedAt = w.clock.text)
    (hr : row.Typed) :
    Tidy bound { w with
      store := w.store.withVulnerability (w.idOf (w.issued + 1)) row, issued := w.issued + 1 } :=
  { h.issue with
    vulnerabilities := h.vulnerabilities.put_next h.ids hid
    detected := by
      show Dated _ (List.map _ (Shelf.records (Shelf.put _ _ _)))
      rw [h.vulnerabilities.records_put_next h.ids, List.map_append, List.map_singleton, hnow]
      exact h.detected.now h.utc
    findings := fun r hm => (Shelf.mem_records_put hm).elim (fun he => he ▸ hr) (h.findings r) }

theorem fileAssessment (h : Tidy bound w) {row : AssessmentRow}
    (hid : row.id = w.idOf (w.issued + 1)) (hr : row.Typed) :
    Tidy bound { w with
      store := w.store.withAssessment (w.idOf (w.issued + 1)) row, issued := w.issued + 1 } :=
  { h.issue with
    assessments := h.assessments.put_next h.ids hid
    notes := fun r hm => (Shelf.mem_records_put hm).elim (fun he => he ▸ hr) (h.notes r) }

/-- A rule that has been changed stays where it was. -/
theorem replaceRule (h : Tidy bound w) {row new : RuleRow} (hr : w.store.rules.rows.get? s = some row)
    (hid : new.id = row.id) (hcreated : new.createdAt = row.createdAt)
    (hnew : new.Typed (bound + 1)) :
    Tidy (bound + 1) { w with store := w.store.withRule s new } :=
  { h with
    rules := h.rules.put_old h.ids hr (hid.trans (h.rules.id_of_get? hr))
    created := by
      show Dated _ (List.map _ (Shelf.records (Shelf.put _ _ _)))
      rw [Shelf.map_records_put hr hcreated]
      exact h.created
    ruleRows := fun r hm => (Shelf.mem_records_put hm).elim (fun he => he ▸ hnew) fun hm =>
      (h.ruleRows r hm).mono (Nat.le_succ _) }

theorem replaceVulnerability (h : Tidy bound w) {row new : VulnerabilityRow}
    (hr : w.store.vulnerabilities.rows.get? s = some row) (hid : new.id = row.id)
    (hdetected : new.detectedAt = row.detectedAt) (hnew : new.Typed) :
    Tidy bound { w with store := w.store.withVulnerability s new } :=
  { h with
    vulnerabilities :=
      h.vulnerabilities.put_old h.ids hr (hid.trans (h.vulnerabilities.id_of_get? hr))
    detected := by
      show Dated _ (List.map _ (Shelf.records (Shelf.put _ _ _)))
      rw [Shelf.map_records_put hr hdetected]
      exact h.detected
    findings := fun r hm => (Shelf.mem_records_put hm).elim (fun he => he ▸ hnew) (h.findings r) }

theorem eraseRule (h : Tidy bound w) (s : String) :
    Tidy bound { w with store := { w.store with
      rules := { w.store.rules with rows := w.store.rules.rows.erase s } } } :=
  { h with
    rules := h.rules.erase s
    created := h.created.sublist ((Shelf.erase_sublist.map _).map _)
    ruleRows := fun r hm => h.ruleRows r (Shelf.mem_records_of_erase hm) }

theorem eraseVulnerability (h : Tidy bound w) (s : String) :
    Tidy bound { w with store := { w.store with
      vulnerabilities :=
        { w.store.vulnerabilities with rows := w.store.vulnerabilities.rows.erase s } } } :=
  { h with
    vulnerabilities := h.vulnerabilities.erase s
    detected := h.detected.sublist ((Shelf.erase_sublist.map _).map _)
    findings := fun r hm => h.findings r (Shelf.mem_records_of_erase hm) }

end Tidy

/-! ## Rules -/

variable {id : Value} {w' : World Tables}

theorem alike_of_write {r : Request α} (h : Tidy bound w') (hclock : w'.clock = w.clock)
    (e : Except Error α) (ht : (storage.perform r).run w = (e, w'))
    (hm : (Memory.storage.perform r).run (mirror w) = (e, mirror w'))
    (ha : ∀ a, e = .ok a → r.Answered a) : Alike bound w r :=
  ⟨e, w', ht, hm, hclock, h, ha⟩

/-- The row of a new rule is the rule that the mirror keeps. -/
theorem run_insertRule (h : Tidy bound w) (hb : 1 ≤ bound) {d : RuleDraft} (hd : d.Typed) :
    ∃ row : RuleRow, row.id = w.idOf (w.issued + 1) ∧ row.createdAt = w.clock.text ∧
      row.Typed bound ∧
      (insertRule d).run w = (.ok (w.idOf (w.issued + 1)), { w with
        store := w.store.withRule (w.idOf (w.issued + 1)) row, issued := w.issued + 1 }) ∧
      (Memory.createRule d).run (mirror w) = (.ok row.record, { mirror w with
        store := { records w.store with
          rules := (records w.store).rules.put (.text (w.idOf (w.issued + 1))) row.record }
        issued := w.issued + 1 }) := by
  obtain ⟨name, -, hname, bindName⟩ := column_of_isText hd.name
  obtain ⟨description, -, hdescription, bindDescription⟩ := column_of_isText hd.description
  obtain ⟨start, -, hstart, bindStart⟩ := column_of_isText (isText_orElse hd.effectiveFrom w.clock)
  obtain ⟨stop, -, hstop, bindStop⟩ := column_of_isOptional hd.effectiveTo
  obtain ⟨active, hactive⟩ := hd.isActive
  have hnew := h.rules.get?_next h.ids
  have hread := Criteria.read_toValue hd.readable
  let row : RuleRow :=
    { id := w.idOf (w.issued + 1), name, description, tree := d.tree.toValue
      effectiveFrom := start, effectiveTo := stop, isActive := d.isActive.holds, version := 1
      createdAt := w.clock.text, updatedAt := w.clock.text }
  have htree : row.record.tree = d.tree := by simp [row, RuleRow.record, hread, Except.toOption]
  refine ⟨row, rfl, rfl, ⟨RuleRow.toRule_of_read hread, htree ▸ hd.named, ?_⟩, ?_, ?_⟩
  · exact ⟨Int.zero_le_ofNat 1, Int.ofNat_le.mpr hb⟩
  · simp only [insertRule, Op.run_bind, World.run_now, World.run_fresh, World.run_stored,
      prepare_whole h.rules.state, Op.run_pure, bindName, bindDescription, bindStart, bindStop,
      notNull_some, Tables.insert, hnew, Option.isSome_none, Bool.false_eq_true, if_false,
      World.run_save]
    rfl
  · have hrecord : row.record =
        { id := .text (w.idOf (w.issued + 1)), name := d.name, description := d.description
          tree := d.tree, effectiveFrom := d.effectiveFrom.orElse (.text w.clock.text)
          effectiveTo := d.effectiveTo, isActive := d.isActive, version := 1
          createdAt := .text w.clock.text, updatedAt := w.clock.text } := by
      rw [hname, hdescription, hstart, hstop, hactive, ← htree]
      simp [row, RuleRow.record, hactive, Value.holds]
    rw [hrecord]
    rfl

theorem alike_createRule (h : Tidy bound w) (hb : 1 ≤ bound) {d : RuleDraft} (hd : d.Typed) :
    Alike bound w (.createRule d) := by
  obtain ⟨row, hid, hnow, hrow, hrun, hmemory⟩ := run_insertRule h hb hd
  have htidy := h.fileRule hid hnow hrow
  refine alike_of_write htidy rfl (.ok row.record) ?_ ?_ fun _ _ => ⟨⟩
  · exact (Op.run_bind_ok hrun).trans
      (run_reread (run_getRule_written htidy.whole.toReadsRules (h.plain _) rfl))
  · exact hmemory.trans (by simp only [mirror, records_withRule])

theorem alike_deleteRule (h : Tidy bound w) (hid : id.IsText) : Alike bound w (.deleteRule id) := by
  obtain ⟨s, hs, rfl⟩ := hid
  refine alike_of_write (h.eraseRule s) rfl (.ok (w.store.rules.rows.get? s).isSome) ?_ ?_
    fun _ _ => ⟨⟩
  · show (deleteRule (.text s)).run w = _
    simp only [deleteRule, Op.run_bind, World.run_stored, run_eraseRow h.rules.state, name_text hs,
      Except.map, World.run_save, Op.run_pure]
  · show (Memory.deleteRule (.text s)).run (mirror w) = _
    simp only [Memory.deleteRule, Op.run_bind, World.run_stored, Memory.find_text,
      Memory.without_text, Op.run_ofExcept_ok, World.run_save, Op.run_pure, mirror, records,
      Shelf.get?_relabel text_injective, Shelf.erase_relabel text_injective, Option.isSome_map]

theorem kept_of_typed {change : RuleChange} {tree : Option Criteria} (hc : change.Typed tree) :
    view.kept change = change := by
  have hcolumn {x? : Option Value} (h : ∀ x, x? = some x → x.IsOptional) :
      x?.map view.column = x? := by
    cases x? with
    | none => rfl
    | some x => exact congrArg some (column_isOptional (h x rfl))
  have hflag : change.isActive.map view.flag = change.isActive := by
    cases hx : change.isActive with
    | none => rfl
    | some x =>
      obtain ⟨b, rfl⟩ := hc.isActive x hx
      rfl
  simp only [View.kept, hflag, hcolumn hc.effectiveTo, hcolumn fun x hx => (hc.name x hx).optional,
    hcolumn fun x hx => (hc.description x hx).optional,
    hcolumn fun x hx => (hc.effectiveFrom x hx).optional]

theorem takes_of_typed {change : RuleChange} {tree : Option Criteria} (hc : change.Typed tree)
    {version : Int} (hv : fitsWord version = true) : takes change version = .ok () := by
  obtain ⟨name, -, bindName⟩ := columns_of_isText hc.name
  obtain ⟨description, -, bindDescription⟩ := columns_of_isText hc.description
  obtain ⟨start, -, bindStart⟩ := columns_of_isText hc.effectiveFrom
  obtain ⟨stop, -, -, bindStop⟩ := columns_of_isOptional hc.effectiveTo
  have bindVersion : boundCell .updateRule (Cell.number (.int version)) = .ok (.int version) := by
    rw [Cell.number_int hv, boundCell]
  have hrequired (new : Option String) :
      (new.map some).mapM (requiredCell .updateRule) = .ok new := by
    cases new <;> rfl
  simp only [takes, bindName, bindDescription, bindStart, bindStop, bindVersion, ok_bind, hrequired]
  rfl

/-- A rule that is not there, or not at the version expected, is not changed. -/
theorem run_changeRule_of_stale (h : Tidy bound w) (hs : Text.isWhole s = true)
    {change : RuleChange} {tree : Option Criteria} (hc : change.Typed tree) {version : Int}
    (hv : fitsWord version = true)
    (hstale : ∀ row, w.store.rules.rows.get? s = some row → row.version ≠ version) :
    (changeRule (.text s) change (some (.int version))).run w = (.ok false, w) := by
  have htree : change.tree.mapM TreeSource.read = .ok tree := by
    rw [hc.tree]
    cases tree <;> rfl
  obtain ⟨name, -, bindName⟩ := columns_of_isText hc.name
  obtain ⟨description, -, bindDescription⟩ := columns_of_isText hc.description
  obtain ⟨start, -, bindStart⟩ := columns_of_isText hc.effectiveFrom
  obtain ⟨stop, -, -, bindStop⟩ := columns_of_isOptional hc.effectiveTo
  have hid : boundCell .updateRule (Cell.text (.text s)) = .ok (some s) := name_text hs
  have hexpected : (some (Value.int version)).mapM (bindNumber .updateRule) =
      pure (some (.int version)) := by
    show some <$> bindNumber _ _ = _
    rw [bindNumber, Cell.number_int hv]
    rfl
  simp only [changeRule, htree, Op.run_bind, Op.run_orElse_ok, World.run_stored,
    prepare_whole h.rules.state, Op.run_pure, mapM_bindText_eq, bindText_eq, bindName,
    bindDescription, bindStart, bindStop, hid, hexpected, Op.run_ofExcept, Option.bind_some]
  cases hr : w.store.rules.rows.get? s with
  | none => rfl
  | some row =>
    have hne : ¬version = row.version := fun he => hstale row hr he.symm
    simp [Value.equal, hne]

theorem alike_updateRule_of_stale (h : Tidy bound w) (hs : Text.isWhole s = true)
    {change : RuleChange} {tree : Option Criteria} (hc : change.Typed tree) {version : Int}
    (hv : fitsWord version = true)
    (hstale : ∀ row, w.store.rules.rows.get? s = some row → row.version ≠ version) :
    Alike bound w (.updateRule (.text s) change (some (.int version))) := by
  refine alike_of_read h (.ok none) ?_ ?_ fun _ _ => ⟨⟩
  · exact Op.run_bind_ok (run_changeRule_of_stale h hs hc hv hstale)
  · have htree : change.tree.mapM TreeSource.read = .ok tree := by
      rw [hc.tree]
      cases tree <;> rfl
    show (Memory.updateRule _ _ _).run (mirror w) = _
    simp only [Memory.updateRule, htree, Op.run_bind, Op.run_orElse_ok, World.run_stored,
      Memory.find_text, Op.run_ofExcept_ok, mirror, records, Shelf.get?_relabel text_injective]
    cases hr : w.store.rules.rows.get? s with
    | none => rfl
    | some row =>
      have hne : ¬version = row.version := fun he => hstale row hr he.symm
      simp [Value.equal, hne, RuleRow.record]

theorem alike_updateRule_of_fresh (h : Tidy bound w) (hs : Text.isWhole s = true) {row : RuleRow}
    (hr : w.store.rules.rows.get? s = some row) (hv : fitsWord row.version = true)
    {change : RuleChange} {tree : Option Criteria} (hc : change.Typed tree) :
    Alike (bound + 1) w (.updateRule (.text s) change (some (.int row.version))) := by
  have hrow := h.ruleRows row (Shelf.mem_records_of_get? hr)
  obtain ⟨e, he, -⟩ | ⟨-, new, hnew, hread, hrun⟩ :=
    run_changeRule h.whole (name_text hs) hr hc.toProper hc.readable
  · exact absurd ((takes_of_typed hc hv).symm.trans he) nofun
  rw [kept_of_typed hc] at hnew
  have hid : new.id = row.id := by
    have := congrArg Rule.id hnew
    simp only [Rule.changed, hc.id, Option.getD_none] at this
    exact Value.text.inj this
  have hcreated : new.createdAt = row.createdAt := by
    have := congrArg Rule.createdAt hnew
    simp only [Rule.changed, hc.createdAt, Option.getD_none] at this
    exact Value.text.inj this
  have hversion : new.version = row.version + 1 := congrArg Rule.version hnew
  have hnamed : new.record.tree.Named := by
    rw [hnew]
    cases tree with
    | none => exact hrow.named
    | some c => exact hc.named c rfl
  have htyped : new.Typed (bound + 1) := by
    refine ⟨hread, hnamed, ?_⟩
    have := hrow.version
    omega
  have htidy := h.replaceRule hr hid hcreated htyped
  rw [h.rules.id_of_get? hr] at hrun
  refine alike_of_write htidy rfl (.ok (some new.record)) ?_ ?_ fun _ _ => ⟨⟩
  · exact (Op.run_bind_ok hrun).trans (run_getRule_written htidy.whole.toReadsRules hs rfl)
  · have hget : (mirror w).store.rules.get? (.text s) = some row.record := by
      simp only [mirror, records, Shelf.get?_relabel text_injective, hr, Option.map_some]
    refine (Memory.run_updateRule hget hc.toProper).trans ?_
    simp only [mirror, records_withRule, hnew]

theorem alike_updateRule (h : Tidy bound w) (hid : id.IsText) {change : RuleChange}
    {tree : Option Criteria} (hc : change.Typed tree) {version : Int}
    (hv : fitsWord version = true) :
    Alike (bound + 1) w (.updateRule id change (some (.int version))) := by
  obtain ⟨s, hs, rfl⟩ := hid
  by_cases hfresh : ∃ row, w.store.rules.rows.get? s = some row ∧ row.version = version
  · obtain ⟨row, hr, rfl⟩ := hfresh
    exact alike_updateRule_of_fresh h hs hr hv hc
  · refine alike_updateRule_of_stale (h.mono (Nat.le_succ _)) hs hc hv fun row hr he => ?_
    exact hfresh ⟨row, hr, he⟩

/-! ## Vulnerabilities -/

theorem run_insertVulnerability_typed (h : Tidy bound w) {d : VulnerabilityDraft}
    (hd : d.Typed w.clock.text) :
    ∃ row : VulnerabilityRow, row.id = w.idOf (w.issued + 1) ∧ row.detectedAt = w.clock.text ∧
      row.Typed ∧
      (insertVulnerability d).run w = (.ok (w.idOf (w.issued + 1)), { w with
        store := w.store.withVulnerability (w.idOf (w.issued + 1)) row, issued := w.issued + 1 }) ∧
      (Memory.createVulnerability d).run (mirror w) = (.ok row.toVulnerability, { mirror w with
        store := { records w.store with
          vulnerabilities := (records w.store).vulnerabilities.put
            (.text (w.idOf (w.issued + 1))) row.toVulnerability }
        issued := w.issued + 1 }) := by
  obtain ⟨ruleId, hruleWhole, hruleId, bindRule⟩ := column_of_isText hd.ruleId
  obtain ⟨assessmentId, hassessedWhole, hassessmentId, bindAssessment⟩ :=
    column_of_isText hd.assessmentId
  obtain ⟨status, -, hstatus, bindStatus⟩ := column_of_isText hd.status
  obtain ⟨_, -, ⟨⟩, bindNow⟩ := column_of_isText (Value.isText_stamp w.clock)
  obtain ⟨typeId, htypeWhole, htypeId, bindType⟩ := column_of_isOptional hd.mitigationTypeId
  obtain ⟨valueId, -, hvalueId, bindValue⟩ := column_of_isOptional hd.mitigationValueId
  obtain ⟨description, -, hdescription, bindDescription⟩ :=
    column_of_isOptional hd.mitigationDescription
  obtain ⟨notes, -, hnotes, bindNotes⟩ := column_of_isOptional hd.notes
  have hnew := h.vulnerabilities.get?_next h.ids
  let row : VulnerabilityRow :=
    { id := w.idOf (w.issued + 1), ruleId, assessmentId, propertyId := d.propertyId, status
      detectedAt := w.clock.text, mitigationTypeId := typeId, mitigationValueId := valueId
      mitigationDescription := description, notes, createdAt := w.clock.text
      updatedAt := w.clock.text }
  refine ⟨row, rfl, rfl, ⟨hruleWhole, hassessedWhole, hd.propertyId, htypeWhole⟩, ?_, ?_⟩
  · simp only [insertVulnerability, Op.run_bind, World.run_now, World.run_fresh, World.run_stored,
      prepare_whole h.vulnerabilities.state, Op.run_pure, hd.detectedAt, Value.orElse_self,
      bindRule, bindAssessment, bindStatus, bindNow, bindType, bindValue, bindDescription,
      bindNotes, bindNumber_of_isWord hd.propertyId, numberNotNull_of_isWord hd.propertyId,
      notNull_some, Tables.insert, hnew, Option.isSome_none, Bool.false_eq_true, if_false,
      World.run_save]
    rfl
  · simp only [Memory.createVulnerability, Op.run_bind, World.run_now, World.run_fresh,
      World.run_stored, World.run_save, Op.run_pure, hd.detectedAt, mirror_clock,
      Value.orElse_self, hruleId, hassessmentId, hstatus, htypeId, hvalueId, hdescription, hnotes]
    rfl

theorem alike_createVulnerability (h : Tidy bound w) {d : VulnerabilityDraft}
    (hd : d.Typed w.clock.text) : Alike bound w (.createVulnerability d) := by
  obtain ⟨row, hid, hnow, hrow, hrun, hmemory⟩ := run_insertVulnerability_typed h hd
  have htidy := h.fileVulnerability hid hnow hrow
  refine alike_of_write htidy rfl (.ok row.toVulnerability) ?_ ?_ fun _ _ => ⟨⟩
  · exact (Op.run_bind_ok hrun).trans
      (run_reread (run_getWritten h.whole.vulnerabilities (h.plain _) _ _))
  · exact hmemory.trans (by simp only [mirror, records_withVulnerability])

theorem alike_deleteVulnerability (h : Tidy bound w) (hid : id.IsText) :
    Alike bound w (.deleteVulnerability id) := by
  obtain ⟨s, hs, rfl⟩ := hid
  refine alike_of_write (h.eraseVulnerability s) rfl
    (.ok (w.store.vulnerabilities.rows.get? s).isSome) ?_ ?_ fun _ _ => ⟨⟩
  · show (deleteVulnerability (.text s)).run w = _
    simp only [deleteVulnerability, Op.run_bind, World.run_stored,
      run_eraseRow h.vulnerabilities.state, name_text hs, Except.map, World.run_save, Op.run_pure]
  · show (Memory.deleteVulnerability (.text s)).run (mirror w) = _
    simp only [Memory.deleteVulnerability, Op.run_bind, World.run_stored, Memory.find_text,
      Memory.without_text, Op.run_ofExcept_ok, World.run_save, Op.run_pure, mirror, records,
      Shelf.get?_relabel text_injective, Shelf.erase_relabel text_injective, Option.isSome_map]

/-- A change of the workflow is written to the row as the mirror makes it of the
record. -/
theorem run_changeVulnerability_typed (h : Tidy bound w) (hs : Text.isWhole s = true)
    {change : VulnerabilityChange} (hc : change.Typed) :
    (w.store.vulnerabilities.rows.get? s = none ∧
      (changeVulnerability (.text s) change).run w = (.ok false, w)) ∨
    ∃ row new : VulnerabilityRow, w.store.vulnerabilities.rows.get? s = some row ∧
      new.id = row.id ∧ new.detectedAt = row.detectedAt ∧ new.Typed ∧
      new.toVulnerability = row.toVulnerability.changed change w.clock.text ∧
      (changeVulnerability (.text s) change).run w =
        (.ok true, { w with store := w.store.withVulnerability s new }) := by
  obtain ⟨status, hstatus, bindStatus⟩ := columns_of_isText hc.statusText
  obtain ⟨typeId, htypeWhole, htypeId, bindType⟩ := columns_of_isOptional hc.mitigationTypeId
  obtain ⟨valueId, -, hvalueId, bindValue⟩ := columns_of_isOptional hc.mitigationValueId
  obtain ⟨description, -, hdescription, bindDescription⟩ :=
    columns_of_isOptional hc.mitigationDescription
  obtain ⟨notes, -, hnotes, bindNotes⟩ := columns_of_isOptional hc.notes
  have hupdated : (change.updatedAt.getD (.text w.clock.text)).IsText := by
    cases hu : change.updatedAt with
    | none => exact Value.isText_stamp _
    | some x => exact hc.updatedAt x hu
  obtain ⟨updated, -, hupdatedAt, bindUpdated⟩ := column_of_isText hupdated
  have hid : bindText .updateVulnerability (.text s) = pure (some s) := by
    rw [bindText, Cell.text_text hs, Tables.bound]
  simp only [changeVulnerability, hc.others, List.isEmpty_nil, Bool.not_true, Bool.false_eq_true,
    if_false, Op.run_bind, World.run_now, World.run_stored, prepare_whole h.vulnerabilities.state,
    Op.run_pure, hc.id, hc.ruleId, hc.assessmentId, hc.propertyId, hc.detectedAt, hc.createdAt,
    Option.mapM_none, mapM_bindText_eq, bindStatus, bindType, bindValue, bindDescription, bindNotes,
    bindUpdated, hid, Op.run_ofExcept, Option.bind_some, Option.getD_none]
  cases hr : w.store.vulnerabilities.rows.get? s with
  | none => exact .inl ⟨rfl, rfl⟩
  | some row =>
    have hrow := h.findings row (Shelf.mem_records_of_get? hr)
    have hkey : row.id = s := h.vulnerabilities.id_of_get? hr
    refine .inr ⟨row, { row with
      status := status.getD row.status
      mitigationTypeId := typeId.getD row.mitigationTypeId
      mitigationValueId := valueId.getD row.mitigationValueId
      mitigationDescription := description.getD row.mitigationDescription
      notes := notes.getD row.notes
      updatedAt := updated }, rfl, rfl, rfl, ?_, ?_, ?_⟩
    · refine ⟨hrow.ruleId, hrow.assessmentId, hrow.propertyId, fun t ht => ?_⟩
      cases typeId with
      | none => exact hrow.mitigationTypeId t ht
      | some t? => exact htypeWhole t (congrArg some ht)
    · have htext (new : Option String) (old : String) :
          Value.text (new.getD old) = (new.map .text).getD (.text old) := by cases new <;> rfl
      have htext? (new : Option (Option String)) (old : Option String) :
          Value.ofText? (new.getD old) = (new.map .ofText?).getD (.ofText? old) := by
        cases new <;> rfl
      simp only [VulnerabilityRow.toVulnerability, Vulnerability.changed, hc.id, hc.ruleId,
        hc.assessmentId, hc.propertyId, hc.detectedAt, hc.createdAt, hstatus, htypeId, hvalueId,
        hdescription, hnotes, ← hupdatedAt, htext, htext?, Option.getD_none]
    · simp only [setText_none, setText_map, notNull_some, numberNotNull_of_isWord hrow.propertyId,
        Op.run_bind, Op.run_pure, moveRow, if_true, World.run_save]
      rw [← hkey]
      rfl

theorem alike_updateVulnerability (h : Tidy bound w) (hid : id.IsText)
    {change : VulnerabilityChange} (hc : change.Typed) :
    Alike bound w (.updateVulnerability id change) := by
  obtain ⟨s, hs, rfl⟩ := hid
  obtain ⟨hr, hrun⟩ | ⟨row, new, hr, hid, hdetected, hnew, hchanged, hrun⟩ :=
    run_changeVulnerability_typed h hs hc
  · refine alike_of_read h (.ok none) (Op.run_bind_ok hrun) ?_ fun _ _ => ⟨⟩
    show (Memory.updateVulnerability (.text s) change).run (mirror w) = _
    simp only [Memory.updateVulnerability, Op.run_bind, World.run_stored, Memory.find_text,
      Op.run_ofExcept_ok, mirror, records, Shelf.get?_relabel text_injective, hr, Option.map_none,
      Op.run_pure]
  · have htidy := h.replaceVulnerability hr hid hdetected hnew
    refine alike_of_write htidy rfl (.ok (some new.toVulnerability)) ?_ ?_ fun _ _ => ⟨⟩
    · exact (Op.run_bind_ok hrun).trans (run_getWritten h.whole.vulnerabilities hs _ _)
    · have hget : (records w.store).vulnerabilities.get? (.text s) = some row.toVulnerability := by
        simp only [records, Shelf.get?_relabel text_injective, hr, Option.map_some]
      show (Memory.updateVulnerability (.text s) change).run (mirror w) = _
      simp only [Memory.updateVulnerability, Op.run_bind, World.run_stored, Memory.find_text,
        hget, Op.run_ofExcept_ok, hc.others, List.isEmpty_nil, Bool.not_true,
        Bool.false_eq_true, if_false, World.run_now, Memory.place_text, World.run_save, Op.run_pure,
        ← hchanged, mirror, records_withVulnerability]

/-! ## Assessments -/

theorem run_insertAssessment (h : Tidy bound w) {d : AssessmentDraft} (hd : d.Typed) :
    ∃ row : AssessmentRow, row.id = w.idOf (w.issued + 1) ∧ row.Typed ∧
      (insertAssessment d).run w = (.ok (w.idOf (w.issued + 1)), { w with
        store := w.store.withAssessment (w.idOf (w.issued + 1)) row, issued := w.issued + 1 }) ∧
      (Memory.createAssessment d).run (mirror w) = (.ok row.record, { mirror w with
        store := { records w.store with
          assessments := (records w.store).assessments.put
            (.text (w.idOf (w.issued + 1))) row.record }
        issued := w.issued + 1 }) := by
  obtain ⟨time, -, htime, bindTime⟩ := column_of_isText (isText_orElse hd.assessedAt w.clock)
  have hnew := h.assessments.get?_next h.ids
  let row : AssessmentRow :=
    ⟨w.idOf (w.issued + 1), d.propertyId, time, Observation.listToValue d.observations⟩
  obtain ⟨hread, hos⟩ := AssessmentRow.toAssessment_of_noted (r := row) rfl hd.observations
  refine ⟨row, rfl, ⟨hread, hd.propertyId⟩, ?_, ?_⟩
  · simp only [insertAssessment, Op.run_bind, World.run_now, World.run_fresh, World.run_stored,
      prepare_whole h.assessments.state, Op.run_pure, bindTime, bindNumber_of_isWord hd.propertyId,
      numberNotNull_of_isWord hd.propertyId, notNull_some, Tables.insert, hnew, Option.isSome_none,
      Bool.false_eq_true, if_false, World.run_save]
    rfl
  · have hrecord : row.record = ⟨.text (w.idOf (w.issued + 1)), d.propertyId, d.observations,
        d.assessedAt.orElse (.text w.clock.text)⟩ := by
      rw [htime, ← hos]
      rfl
    rw [hrecord]
    rfl

theorem alike_createAssessment (h : Tidy bound w) {d : AssessmentDraft} (hd : d.Typed) :
    Alike bound w (.createAssessment d) := by
  obtain ⟨row, hid, hrow, hrun, hmemory⟩ := run_insertAssessment h hd
  have htidy := h.fileAssessment hid hrow
  refine alike_of_write htidy rfl (.ok row.record) ?_ ?_ ?_
  · exact (Op.run_bind_ok hrun).trans
      (run_reread (run_getAssessment_written htidy.whole (h.plain _) rfl))
  · exact hmemory.trans (by simp only [mirror, records_withAssessment])
  · rintro a ⟨⟩
    have hget : (w.store.withAssessment (w.idOf (w.issued + 1)) row).assessments.rows.get?
        (w.idOf (w.issued + 1)) = some row := by
      simp [withAssessment, Shelf.get?_put]
    exact htidy.typed_assessment (Shelf.mem_records_of_get? hget)

/-! ## Catalogs -/

theorem alike_createObservationType (h : Tidy bound w) {d : ObservationTypeDraft} (hd : d.Typed) :
    Alike bound w (.createObservationType d) := by
  obtain ⟨_, -, ⟨⟩, bindId⟩ := column_of_isText (Value.isText_of_isWhole (h.plain (w.issued + 1)))
  obtain ⟨name, -, hname, bindName⟩ := column_of_isText hd.name
  obtain ⟨description, -, hdescription, bindDescription⟩ := column_of_isOptional hd.description
  obtain ⟨kind, -, hkind, bindKind⟩ := column_of_isText hd.kind
  obtain ⟨multiple, hmultiple⟩ := hd.multiple
  have hnew := h.observationTypes.get?_next h.ids
  let row : ObservationTypeRow :=
    { id := w.idOf (w.issued + 1), name, description, kind, multiple := d.multiple.holds }
  have hrecord : row.toType = d.withId (.text (w.idOf (w.issued + 1))) := by
    simp [row, ObservationTypeRow.toType, ObservationTypeDraft.withId, hname, hdescription, hkind,
      hmultiple, Value.holds]
  have htidy : Tidy bound { w with
      store := { w.store with observationTypes := { w.store.observationTypes with
        rows := w.store.observationTypes.rows.put row.id row } }
      issued := w.issued + 1 } :=
    { h.issue with observationTypes := h.observationTypes.put_next h.ids rfl }
  refine alike_of_write htidy rfl (.ok row.toType) ?_ ?_ fun _ _ => ⟨⟩
  · show (insertObservationType d).run w = _
    simp only [insertObservationType, World.idOr, hd.id, Value.holds, Bool.false_eq_true, if_false,
      Op.run_bind, World.run_fresh, Op.run_pure, World.run_stored,
      prepare_whole h.observationTypes.state, bindId, bindName, bindDescription, bindKind,
      notNull_some, Tables.insert, hnew, Option.isSome_none, World.run_save, hrecord]
    rfl
  · show (Memory.createObservationType d).run (mirror w) = _
    rw [Memory.createObservationType_eq, hd.id, Memory.run_filed rfl]
    simp only [mirror, records, row, hrecord, ← Shelf.put_relabel text_injective]

theorem alike_createObservationValue (h : Tidy bound w) {d : ObservationValueDraft}
    (hd : d.Typed) : Alike bound w (.createObservationValue d) := by
  obtain ⟨_, -, ⟨⟩, bindId⟩ := column_of_isText (Value.isText_of_isWhole (h.plain (w.issued + 1)))
  obtain ⟨typeId, -, htypeId, bindType⟩ := column_of_isText hd.typeId
  obtain ⟨value, -, hvalue, bindValue⟩ := column_of_isText hd.value
  obtain ⟨description, -, hdescription, bindDescription⟩ := column_of_isOptional hd.description
  have hnew := h.observationValues.get?_next h.ids
  let row : ObservationValueRow := { id := w.idOf (w.issued + 1), typeId, value, description }
  have hrecord : row.toValue = d.withId (.text (w.idOf (w.issued + 1))) := by
    simp [row, ObservationValueRow.toValue, ObservationValueDraft.withId, htypeId, hvalue,
      hdescription]
  have htidy : Tidy bound { w with
      store := { w.store with observationValues := { w.store.observationValues with
        rows := w.store.observationValues.rows.put row.id row } }
      issued := w.issued + 1 } :=
    { h.issue with observationValues := h.observationValues.put_next h.ids rfl }
  refine alike_of_write htidy rfl (.ok row.toValue) ?_ ?_ fun _ _ => ⟨⟩
  · show (insertObservationValue d).run w = _
    simp only [insertObservationValue, World.idOr, hd.id, Value.holds, Bool.false_eq_true, if_false,
      Op.run_bind, World.run_fresh, Op.run_pure, World.run_stored,
      prepare_whole h.observationValues.state, bindId, bindType, bindValue, bindDescription,
      notNull_some, Tables.insert, hnew, Option.isSome_none, World.run_save, hrecord]
    rfl
  · show (Memory.createObservationValue d).run (mirror w) = _
    rw [Memory.createObservationValue_eq, hd.id, Memory.run_filed rfl]
    simp only [mirror, records, row, hrecord, ← Shelf.put_relabel text_injective]

theorem alike_createMitigationType (h : Tidy bound w) {d : MitigationTypeDraft} (hd : d.Typed) :
    Alike bound w (.createMitigationType d) := by
  obtain ⟨_, -, ⟨⟩, bindId⟩ := column_of_isText (Value.isText_of_isWhole (h.plain (w.issued + 1)))
  obtain ⟨name, -, hname, bindName⟩ := column_of_isText hd.name
  obtain ⟨description, -, hdescription, bindDescription⟩ := column_of_isOptional hd.description
  obtain ⟨kind, -, hkind, bindKind⟩ := column_of_isText hd.kind
  obtain ⟨multiple, hmultiple⟩ := hd.multiple
  have hnew := h.mitigationTypes.get?_next h.ids
  let row : MitigationTypeRow :=
    { id := w.idOf (w.issued + 1), name, description, kind, multiple := d.multiple.holds }
  have hrecord : row.toType = d.withId (.text (w.idOf (w.issued + 1))) := by
    simp [row, MitigationTypeRow.toType, MitigationTypeDraft.withId, hname, hdescription, hkind,
      hmultiple, Value.holds]
  have htidy : Tidy bound { w with
      store := { w.store with mitigationTypes := { w.store.mitigationTypes with
        rows := w.store.mitigationTypes.rows.put row.id row } }
      issued := w.issued + 1 } :=
    { h.issue with mitigationTypes := h.mitigationTypes.put_next h.ids rfl }
  refine alike_of_write htidy rfl (.ok row.toType) ?_ ?_ fun _ _ => ⟨⟩
  · have hrun : (insertMitigationType d).run w = (.ok (.text (w.idOf (w.issued + 1))), { w with
        store := { w.store with mitigationTypes := { w.store.mitigationTypes with
          rows := w.store.mitigationTypes.rows.put row.id row } }
        issued := w.issued + 1 }) := by
      simp only [insertMitigationType, World.idOr, hd.id, Value.holds, Bool.false_eq_true, if_false,
        Op.run_bind, World.run_fresh, Op.run_pure, World.run_stored,
        prepare_whole h.mitigationTypes.state, bindId, bindName, bindDescription, bindKind,
        notNull_some, Tables.insert, hnew, Option.isSome_none, World.run_save]
      rfl
    refine (Op.run_bind_ok hrun).trans (run_reread ?_)
    refine (run_getMitigationType htidy.whole.mitigationTypes (h.plain _)).trans ?_
    simp [records, ← Shelf.put_relabel text_injective, Shelf.get?_put, row]
  · show (Memory.createMitigationType d).run (mirror w) = _
    rw [Memory.createMitigationType_eq, hd.id, Memory.run_filed rfl]
    simp only [mirror, records, row, hrecord, ← Shelf.put_relabel text_injective]

theorem alike_createMitigationValue (h : Tidy bound w) {d : MitigationValueDraft} (hd : d.Typed) :
    Alike bound w (.createMitigationValue d) := by
  obtain ⟨_, -, ⟨⟩, bindId⟩ := column_of_isText (Value.isText_of_isWhole (h.plain (w.issued + 1)))
  obtain ⟨typeId, -, htypeId, bindType⟩ := column_of_isText hd.typeId
  obtain ⟨value, -, hvalue, bindValue⟩ := column_of_isText hd.value
  obtain ⟨description, -, hdescription, bindDescription⟩ := column_of_isOptional hd.description
  obtain ⟨category, -, hcategory, bindCategory⟩ := column_of_isText hd.category
  have hnew := h.mitigationValues.get?_next h.ids
  let row : MitigationValueRow :=
    { id := w.idOf (w.issued + 1), typeId, value, description, category }
  have hrecord : row.toValue = d.withId (.text (w.idOf (w.issued + 1))) := by
    simp [row, MitigationValueRow.toValue, MitigationValueDraft.withId, htypeId, hvalue,
      hdescription, hcategory]
  have htidy : Tidy bound { w with
      store := { w.store with mitigationValues := { w.store.mitigationValues with
        rows := w.store.mitigationValues.rows.put row.id row } }
      issued := w.issued + 1 } :=
    { h.issue with mitigationValues := h.mitigationValues.put_next h.ids rfl }
  refine alike_of_write htidy rfl (.ok row.toValue) ?_ ?_ fun _ _ => ⟨⟩
  · show (insertMitigationValue d).run w = _
    simp only [insertMitigationValue, World.idOr, hd.id, Value.holds, Bool.false_eq_true, if_false,
      Op.run_bind, World.run_fresh, Op.run_pure, World.run_stored,
      prepare_whole h.mitigationValues.state, bindId, bindType, bindValue, bindDescription,
      bindCategory, notNull_some, Tables.insert, hnew, Option.isSome_none, World.run_save, hrecord]
    rfl
  · show (Memory.createMitigationValue d).run (mirror w) = _
    rw [Memory.createMitigationValue_eq, hd.id, Memory.run_filed rfl]
    simp only [mirror, records, row, hrecord, ← Shelf.put_relabel text_injective]

end PropertyRisk.Tables
