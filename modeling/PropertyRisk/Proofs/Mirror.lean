import PropertyRisk.Proofs.Filing
import PropertyRisk.Proofs.MemoryLaws
import PropertyRisk.Proofs.TableLaws
import PropertyRisk.Proofs.Typed

/-!
# Tables and their mirror

`Tables.mirror` is the store in memory that holds the records of tables. While
tables are `Tidy`, that is while only typed requests have been made under a
clock that does not go back, both answer a read alike: `Tables.Alike`.
-/

namespace PropertyRisk

open Time (Stamp)

/-! ## Rows -/

/-- A row of a rule that reads, names ids that can be encoded, and has not been
changed more than some number of times. -/
structure RuleRow.Typed (bound : Nat) (r : RuleRow) : Prop where
  reads : r.toRule = .ok r.record
  named : r.record.tree.Named
  version : 0 ≤ r.version ∧ r.version ≤ bound

theorem RuleRow.Typed.mono {bound later : Nat} {r : RuleRow} (h : r.Typed bound)
    (hle : bound ≤ later) : r.Typed later :=
  ⟨h.reads, h.named, h.version.1, Int.le_trans h.version.2 (Int.ofNat_le.mpr hle)⟩

structure VulnerabilityRow.Typed (r : VulnerabilityRow) : Prop where
  ruleId : Text.isWhole r.ruleId = true
  assessmentId : Text.isWhole r.assessmentId = true
  propertyId : r.propertyId.IsWord
  mitigationTypeId : ∀ s, r.mitigationTypeId = some s → Text.isWhole s = true

structure AssessmentRow.Typed (r : AssessmentRow) : Prop where
  reads : r.toAssessment = .ok r.record
  propertyId : r.propertyId.IsWord

namespace Tables

/-! ## Tidy tables -/

/-- Tables that hold what typed requests have left there. -/
structure Tidy (bound : Nat) (w : World Tables) : Prop where
  utc : w.clock.offset = .utc
  ids : StrictMono w.idOf
  plain : ∀ n, Text.isWhole (w.idOf n) = true
  rules : Filed w.idOf w.issued RuleRow.id w.store.rules
  vulnerabilities : Filed w.idOf w.issued VulnerabilityRow.id w.store.vulnerabilities
  assessments : Filed w.idOf w.issued AssessmentRow.id w.store.assessments
  observationTypes : Filed w.idOf w.issued ObservationTypeRow.id w.store.observationTypes
  observationValues : Filed w.idOf w.issued ObservationValueRow.id w.store.observationValues
  mitigationTypes : Filed w.idOf w.issued MitigationTypeRow.id w.store.mitigationTypes
  mitigationValues : Filed w.idOf w.issued MitigationValueRow.id w.store.mitigationValues
  created : Dated w.clock (w.store.rules.rows.records.map RuleRow.createdAt)
  detected : Dated w.clock (w.store.vulnerabilities.rows.records.map VulnerabilityRow.detectedAt)
  ruleRows : ∀ r ∈ w.store.rules.rows.records, r.Typed bound
  findings : ∀ r ∈ w.store.vulnerabilities.rows.records, r.Typed
  notes : ∀ r ∈ w.store.assessments.rows.records, r.Typed

/-- The store in memory that holds what tables hold. -/
def mirror (w : World Tables) : World Memory where
  store := records w.store
  clock := w.clock
  issued := w.issued
  idOf := w.idOf

@[simp] theorem mirror_clock (w : World Tables) : (mirror w).clock = w.clock := rfl

/-- A request is answered alike by tables and by their mirror, and what it leaves
in the tables is tidy, and in the mirror the same. -/
def Alike (bound : Nat) (w : World Tables) (r : Request α) : Prop :=
  ∃ e w', (storage.perform r).run w = (e, w') ∧
    (Memory.storage.perform r).run (mirror w) = (e, mirror w') ∧
    w'.clock = w.clock ∧ Tidy bound w' ∧ ∀ a, e = .ok a → r.Answered a

variable {bound : Nat} {w : World Tables} {id propertyId : Value} {s : String}

namespace Tidy

theorem mono (h : Tidy bound w) {later : Nat} (hle : bound ≤ later) : Tidy later w :=
  { h with ruleRows := fun r hr => (h.ruleRows r hr).mono hle }

theorem whole (h : Tidy bound w) : Whole w.store where
  rules := h.rules.state
  vulnerabilities := h.vulnerabilities.state
  assessments := h.assessments.state
  observationTypes := h.observationTypes.state
  observationValues := h.observationValues.state
  mitigationTypes := h.mitigationTypes.state
  mitigationValues := h.mitigationValues.state
  trees r hr := (h.ruleRows r hr).reads
  notes r hr := (h.notes r hr).reads

theorem isWhole_id (h : Tidy bound w) {f : α → String} {t : Table α}
    (hf : Filed w.idOf w.issued f t) {row : α} (hr : row ∈ t.rows.records) :
    Text.isWhole (f row) = true := by
  obtain ⟨n, -, hn⟩ := hf.exists_issued hr
  exact hn ▸ h.plain n

theorem typed_rule (h : Tidy bound w) (hb : bound < 9223372036854775808) {r : Rule}
    (hr : r ∈ (records w.store).rules.records) : r.Typed := by
  simp only [records, Shelf.records_relabel, List.mem_map] at hr
  obtain ⟨row, hr, rfl⟩ := hr
  have hrow := h.ruleRows row hr
  refine ⟨Value.isText_of_isWhole (h.isWhole_id h.rules hr), hrow.named, ?_⟩
  have hv : 0 ≤ row.record.version ∧ row.record.version ≤ bound := hrow.version
  simp only [fitsWord, decide_eq_true_eq]
  omega

theorem typed_finding (h : Tidy bound w) {r : VulnerabilityRow}
    (hr : r ∈ w.store.vulnerabilities.rows.records) : r.toVulnerability.Typed where
  id := Value.isText_of_isWhole (h.isWhole_id h.vulnerabilities hr)
  ruleId := Value.isText_of_isWhole (h.findings r hr).ruleId
  assessmentId := Value.isText_of_isWhole (h.findings r hr).assessmentId
  mitigationTypeId := by
    have htype := (h.findings r hr).mitigationTypeId
    simp only [VulnerabilityRow.toVulnerability]
    cases ht : r.mitigationTypeId with
    | none => exact .inl rfl
    | some t => exact .inr (Value.isText_of_isWhole (htype t ht))

theorem typed_assessment (h : Tidy bound w) {r : AssessmentRow}
    (hr : r ∈ w.store.assessments.rows.records) : r.record.Typed where
  id := Value.isText_of_isWhole (h.isWhole_id h.assessments hr)
  propertyId := (h.notes r hr).propertyId

theorem stamped (h : Tidy bound w) {rows : List VulnerabilityRow}
    (hs : rows.Sublist w.store.vulnerabilities.rows.records) :
    Stamped (rows.map VulnerabilityRow.toVulnerability) := by
  intro x hx
  obtain ⟨row, hr, rfl⟩ := List.mem_map.mp hx
  obtain ⟨stamps, hstamps, -⟩ := h.detected
  have hm := List.mem_map_of_mem (f := VulnerabilityRow.detectedAt) (hs.subset hr)
  rw [hstamps] at hm
  obtain ⟨stamp, -, ht⟩ := List.mem_map.mp hm
  exact ⟨stamp, (congrArg (requireStampValue <| .text ·) ht.symm).trans (requireStampValue_text _)⟩

end Tidy

/-! ## Reading -/

theorem alike_of_read {r : Request α} (h : Tidy bound w) (e : Except Error α)
    (ht : (storage.perform r).run w = (e, w))
    (hm : (Memory.storage.perform r).run (mirror w) = (e, mirror w))
    (ha : ∀ a, e = .ok a → r.Answered a) : Alike bound w r :=
  ⟨e, w, ht, hm, rfl, h, ha⟩

theorem alike_getRule (h : Tidy bound w) (hb : bound < 9223372036854775808) (hid : id.IsText) :
    Alike bound w (.getRule id) := by
  obtain ⟨s, hs, rfl⟩ := hid
  refine alike_of_read h (.ok ((records w.store).rules.get? (.text s))) ?_ rfl ?_
  · exact (run_getRule h.whole.toReadsRules).trans (by rw [View.look_of_name (name_text hs)])
  · rintro r? hr r rfl
    exact h.typed_rule hb (Shelf.mem_records_of_get? (Except.ok.inj hr))

theorem run_listRules_tidy (h : Tidy bound w) :
    listRules.run w = (.ok (records w.store).rules.records, w) := by
  rw [run_listRules h.whole.toReadsRules]
  have hsorted := sortedByTexts_of_sorted (List.pairwise_map.mp h.created.sorted)
    (h.rules.sorted h.ids)
  rw [hsorted]
  simp only [records, Shelf.records_relabel]

theorem alike_listRules (h : Tidy bound w) (hb : bound < 9223372036854775808) :
    Alike bound w .listRules := by
  refine alike_of_read h (.ok (records w.store).rules.records) (run_listRules_tidy h) rfl ?_
  rintro rs ⟨⟩ r hr
  exact h.typed_rule hb hr

theorem mem_of_effectiveAmong {time : Value} {rs es : List Rule}
    (h : effectiveAmong time rs = .ok es) : ∀ r ∈ es, r ∈ rs := by
  induction rs generalizing es with
  | nil =>
    cases h
    nofun
  | cons r rest ih =>
    unfold effectiveAmong at h
    split at h
    · cases h
    split at h
    · cases h
    · rename_i others ho
      cases h
      intro e he
      split at he
      · rcases List.mem_cons.mp he with rfl | he
        · exact List.mem_cons_self
        · exact List.mem_cons_of_mem _ (ih ho e he)
      · exact List.mem_cons_of_mem _ (ih ho e he)

theorem alike_listRulesEffectiveAt (h : Tidy bound w) (hb : bound < 9223372036854775808)
    (time : Value) : Alike bound w (.listRulesEffectiveAt time) := by
  refine alike_of_read h (effectiveAmong time (records w.store).rules.records) ?_ ?_ ?_
  · exact (Op.run_bind_ok (run_listRules_tidy h)).trans (Op.run_ofExcept _ _)
  · exact Op.run_ofExcept _ _
  · exact fun es he r hr => h.typed_rule hb (mem_of_effectiveAmong he r hr)

theorem alike_getVulnerability (h : Tidy bound w) (hid : id.IsText) :
    Alike bound w (.getVulnerability id) := by
  obtain ⟨s, hs, rfl⟩ := hid
  refine alike_of_read h (.ok ((records w.store).vulnerabilities.get? (.text s))) ?_ rfl ?_
  · exact (run_getVulnerability h.whole).trans (by rw [View.look_of_name (name_text hs)])
  · rintro x? hx x rfl
    have hm := Shelf.mem_records_of_get? (Except.ok.inj hx)
    simp only [records, Shelf.records_relabel, List.mem_map] at hm
    obtain ⟨row, hr, rfl⟩ := hm
    exact h.typed_finding hr

/-- Some of the vulnerabilities, in the order in which they were found. -/
theorem byDetection_tidy (h : Tidy bound w) {rows : List VulnerabilityRow}
    (hs : rows.Sublist w.store.vulnerabilities.rows.records) :
    byDetection rows = rows.map VulnerabilityRow.toVulnerability ∧
      Memory.byDetection (rows.map VulnerabilityRow.toVulnerability) =
        .ok (rows.map VulnerabilityRow.toVulnerability) := by
  constructor
  · rw [byDetection, sortedByTexts_of_sorted ((List.pairwise_map.mp h.detected.sorted).sublist hs)
      ((h.vulnerabilities.sorted h.ids).sublist hs)]
  · refine Memory.byDetection_of_dated (h.detected.sublist (hs.map _)) ?_
    rw [List.map_map, List.map_map]
    rfl

theorem typed_of_sublist (h : Tidy bound w) {rows : List VulnerabilityRow}
    (hs : rows.Sublist w.store.vulnerabilities.rows.records) :
    ∀ x ∈ rows.map VulnerabilityRow.toVulnerability, x.Typed := by
  intro x hx
  obtain ⟨row, hr, rfl⟩ := List.mem_map.mp hx
  exact h.typed_finding (hs.subset hr)

theorem alike_listForRule (h : Tidy bound w) (hid : id.IsText) :
    Alike bound w (.listVulnerabilitiesForRule id) := by
  obtain ⟨s, hs, rfl⟩ := hid
  let rows := w.store.vulnerabilities.rows.records.filter (some s = some ·.ruleId)
  have hsub : rows.Sublist w.store.vulnerabilities.rows.records := List.filter_sublist
  obtain ⟨htables, hmemory⟩ := byDetection_tidy h hsub
  refine alike_of_read h (.ok (rows.map VulnerabilityRow.toVulnerability)) ?_ ?_ ?_
  · exact (run_listForRule h.whole.vulnerabilities (name_text hs)).trans (by rw [htables])
  · refine (Memory.run_look (fun m => Memory.byDetection
      (m.vulnerabilities.records.filter (·.ruleId.equal (.text s)))) _).trans ?_
    have hfilter : (records w.store).vulnerabilities.records.filter (·.ruleId.equal (.text s)) =
        rows.map VulnerabilityRow.toVulnerability := by
      simp only [records, Shelf.records_relabel, List.filter_map]
      refine congrArg _ (List.filter_congr fun row _ => ?_)
      simp [VulnerabilityRow.toVulnerability, eq_comm]
    exact congrArg (·, mirror w) ((congrArg Memory.byDetection hfilter).trans hmemory)
  · rintro xs ⟨⟩
    exact typed_of_sublist h hsub

/-- The store in memory leaves out what came later before it sorts, the tables
afterwards. -/
theorem alike_listForProperty (h : Tidy bound w) (hp : propertyId.IsWord) (until_ : Option Value) :
    Alike bound w (.listVulnerabilitiesForProperty propertyId until_) := by
  obtain ⟨n, hn, rfl⟩ := hp
  let rows := w.store.vulnerabilities.rows.records.filter (·.propertyId.equal (.int n))
  have hsub : rows.Sublist w.store.vulnerabilities.rows.records := List.filter_sublist
  obtain ⟨htables, hmemory⟩ := byDetection_tidy h hsub
  have hfilter : (records w.store).vulnerabilities.records.filter (·.propertyId.equal (.int n)) =
      rows.map VulnerabilityRow.toVulnerability := by
    simp only [records, Shelf.records_relabel, List.filter_map]
    rfl
  have hlook (e : Except Error (List Vulnerability))
      (he : (records w.store).ofProperty (.int n) until_ = e) :
      (Memory.storage.perform (.listVulnerabilitiesForProperty (.int n) until_)).run (mirror w) =
        (e, mirror w) :=
    (Memory.run_look (·.ofProperty (.int n) until_) _).trans (congrArg (·, mirror w) he)
  cases until_ with
  | none =>
    refine alike_of_read h (.ok (rows.map VulnerabilityRow.toVulnerability)) ?_ ?_ ?_
    · exact (run_listForProperty h.whole.vulnerabilities (Cell.number_int hn)).trans (by rw [htables])
    · exact hlook _ ((congrArg Memory.byDetection hfilter).trans hmemory)
    · rintro xs ⟨⟩
      exact typed_of_sublist h hsub
  | some time =>
    obtain ⟨stamped, hstamped, hmap, -⟩ := stampAll_of_stamped (h.stamped hsub)
    have hrun := run_listForProperty_until h.whole.vulnerabilities (Cell.number_int hn) time
    rw [show byDetection _ = _ from htables, hstamped] at hrun
    simp only [Memory.ofProperty, hfilter, hstamped] at hlook
    cases hc : requireStampValue time with
    | error e =>
      rw [hc] at hrun
      simp only [hc] at hlook
      exact alike_of_read h (.error e) hrun (hlook _ rfl) fun _ he => by cases he
    | ok cutoff =>
      rw [hc] at hrun
      simp only [hc] at hlook
      -- what is left was detected in the order in which it is kept
      have hleft : ((stamped.filter (·.1.le cutoff)).map (·.2)).Sublist
          (rows.map VulnerabilityRow.toVulnerability) := hmap ▸ List.filter_sublist.map _
      obtain ⟨kept, hk, heq⟩ := List.sublist_map_iff.mp hleft
      rw [heq] at hlook
      refine alike_of_read h (.ok (kept.map VulnerabilityRow.toVulnerability)) ?_ ?_ ?_
      · exact hrun.trans (congrArg (fun xs => (Except.ok xs, w)) heq)
      · exact hlook _ (byDetection_tidy h (hk.trans hsub)).2
      · rintro xs ⟨⟩
        exact typed_of_sublist h (hk.trans hsub)

theorem alike_getAssessment (h : Tidy bound w) (hid : id.IsText) :
    Alike bound w (.getAssessment id) := by
  obtain ⟨s, hs, rfl⟩ := hid
  refine alike_of_read h (.ok ((records w.store).assessments.get? (.text s))) ?_ rfl ?_
  · exact (run_getAssessment h.whole).trans (by rw [View.look_of_name (name_text hs)])
  · rintro a? ha a rfl
    have hm := Shelf.mem_records_of_get? (Except.ok.inj ha)
    simp only [records, Shelf.records_relabel, List.mem_map] at hm
    obtain ⟨row, hr, rfl⟩ := hm
    exact h.typed_assessment hr

/-! ## Reading catalogs -/

theorem run_listed {operation : Operation} {table : Tables → Table α} (name : α → String)
    (toRecord : α → β) (ht : (table w.store).state = .whole) :
    (do
      let rows ← select operation table
      return (sortedBy name rows).map toRecord : Op (World Tables) (List β)).run w =
      (.ok ((sortedBy name (table w.store).rows.records).map toRecord), w) := by
  simp only [Op.run_bind, run_select ht, Op.run_pure]

theorem alike_listObservationTypes (h : Tidy bound w) : Alike bound w .listObservationTypes := by
  refine alike_of_read h (.ok ((sortedBy ObservationTypeRow.name
    w.store.observationTypes.rows.records).map ObservationTypeRow.toType)) ?_ ?_ fun _ _ => ⟨⟩
  · exact run_listed _ _ h.whole.observationTypes
  · refine (Memory.run_look (fun m => Memory.inOrder _ m.observationTypes.records) _).trans ?_
    refine congrArg (·, mirror w) ?_
    simp only [mirror, records, Shelf.records_relabel]
    exact Memory.inOrder_map fun _ => rfl

theorem alike_listMitigationTypes (h : Tidy bound w) : Alike bound w .listMitigationTypes := by
  refine alike_of_read h (.ok ((sortedBy MitigationTypeRow.name
    w.store.mitigationTypes.rows.records).map MitigationTypeRow.toType)) ?_ ?_ fun _ _ => ⟨⟩
  · exact run_listed _ _ h.whole.mitigationTypes
  · refine (Memory.run_look (fun m => Memory.inOrder _ m.mitigationTypes.records) _).trans ?_
    refine congrArg (·, mirror w) ?_
    simp only [mirror, records, Shelf.records_relabel]
    exact Memory.inOrder_map fun _ => rfl

theorem alike_listMitigationValues (h : Tidy bound w) (hid : id.IsText) :
    Alike bound w (.listMitigationValues id) := by
  obtain ⟨s, hs, rfl⟩ := hid
  let rows := w.store.mitigationValues.rows.records.filter (s = ·.typeId)
  refine alike_of_read h (.ok ((sortedBy MitigationValueRow.value rows).map
    MitigationValueRow.toValue)) ?_ ?_ fun _ _ => ⟨⟩
  · show (listMitigationValues (.text s)).run w = _
    simp only [listMitigationValues, Op.run_bind, run_select h.whole.mitigationValues, bindText_eq,
      Cell.text_text hs, boundCell, Op.run_ofExcept, Op.run_pure, Option.some.injEq]
    rfl
  · refine (Memory.run_look (fun m => Memory.inOrder MitigationValue.value
      (m.mitigationValues.records.filter (·.typeId.equal (.text s)))) _).trans ?_
    have hfilter : (records w.store).mitigationValues.records.filter (·.typeId.equal (.text s)) =
        rows.map MitigationValueRow.toValue := by
      simp only [records, Shelf.records_relabel, List.filter_map]
      refine congrArg _ (List.filter_congr fun row _ => ?_)
      simp [MitigationValueRow.toValue, eq_comm]
    refine congrArg (·, mirror w) ?_
    simp only [mirror, hfilter]
    exact Memory.inOrder_map fun _ => rfl

theorem bindText_texts {operation : Operation} {texts : List String}
    (hs : ∀ s ∈ texts, Text.isWhole s = true) :
    (texts.map Value.text).mapM (bindText operation) = pure (texts.map some) := by
  induction texts with
  | nil => rfl
  | cons s rest ih =>
    rw [List.map_cons, List.mapM_cons, bindText_eq, Cell.text_text (hs s List.mem_cons_self),
      ih fun t ht => hs t (List.mem_cons_of_mem _ ht)]
    rfl

theorem run_selectByIds {operation : Operation} {table : Tables → Table α} {idOf : α → String}
    {supply : Nat → String} {issued : Nat} {texts : List String} (hids : StrictMono supply)
    (ht : Filed supply issued idOf (table w.store)) (hs : ∀ s ∈ texts, Text.isWhole s = true)
    (hasked : texts.Pairwise (· < ·)) :
    (selectByIds operation table idOf (texts.map .text)).run w =
      (.ok (texts.filterMap (table w.store).rows.get?), w) := by
  unfold selectByIds
  split
  · rename_i hnone
    cases texts with
    | nil => rfl
    | cons => cases hnone
  · have hcontains (row : α) : (texts.map some).contains (some (idOf row)) =
        texts.contains (idOf row) := by
      simp
    simp only [Op.run_bind, run_select ht.state, bindText_texts hs, Op.run_pure, hcontains,
      sortedBy_filter hids ht hasked]

theorem findAll_relabel {f : α → β} {shelf : Shelf String α} (texts : List String) :
    Memory.findAll (shelf.relabel Key.text f) (texts.map .text) =
      .ok ((texts.filterMap shelf.get?).map f) := by
  induction texts with
  | nil => rfl
  | cons s rest ih =>
    simp only [List.map_cons, Memory.findAll, Memory.find_text, ih,
      Shelf.get?_relabel text_injective, List.filterMap_cons]
    cases shelf.get? s <;> rfl

theorem alike_getObservationTypes (h : Tidy bound w) {ids : List Value} (hi : AskedInOrder ids) :
    Alike bound w (.getObservationTypes ids) := by
  obtain ⟨texts, rfl, hasked, hwhole⟩ := hi
  refine alike_of_read h (.ok ((texts.filterMap w.store.observationTypes.rows.get?).map
    ObservationTypeRow.toType)) ?_ ?_ fun _ _ => ⟨⟩
  · exact Op.run_bind_ok (run_selectByIds h.ids h.observationTypes hwhole hasked)
  · refine (Memory.run_look (fun m => Memory.findAll m.observationTypes _) _).trans ?_
    exact congrArg (·, mirror w) (findAll_relabel texts)

theorem alike_getObservationValues (h : Tidy bound w) {ids : List Value} (hi : AskedInOrder ids) :
    Alike bound w (.getObservationValues ids) := by
  obtain ⟨texts, rfl, hasked, hwhole⟩ := hi
  refine alike_of_read h (.ok ((texts.filterMap w.store.observationValues.rows.get?).map
    ObservationValueRow.toValue)) ?_ ?_ fun _ _ => ⟨⟩
  · exact Op.run_bind_ok (run_selectByIds h.ids h.observationValues hwhole hasked)
  · refine (Memory.run_look (fun m => Memory.findAll m.observationValues _) _).trans ?_
    exact congrArg (·, mirror w) (findAll_relabel texts)

theorem run_getMitigationType (ht : w.store.mitigationTypes.state = .whole)
    (hs : Text.isWhole s = true) : (getMitigationType (.text s)).run w =
      (.ok ((records w.store).mitigationTypes.get? (.text s)), w) := by
  simp only [getMitigationType, Op.run_bind, run_selectOne ht, name_text hs, Except.map,
    Op.run_pure, records, Shelf.get?_relabel text_injective, Option.bind_some]

theorem alike_getMitigationType (h : Tidy bound w) (hid : id.IsText) :
    Alike bound w (.getMitigationType id) := by
  obtain ⟨s, hs, rfl⟩ := hid
  refine alike_of_read h (.ok ((records w.store).mitigationTypes.get? (.text s))) ?_ rfl ?_
  · exact run_getMitigationType h.whole.mitigationTypes hs
  · rintro t? ht t rfl
    have hm := Shelf.mem_records_of_get? (Except.ok.inj ht)
    simp only [records, Shelf.records_relabel, List.mem_map] at hm
    obtain ⟨row, hr, rfl⟩ := hm
    exact Value.isText_of_isWhole (h.isWhole_id h.mitigationTypes hr)

theorem alike_ping (h : Tidy bound w) : Alike bound w .ping := by
  refine alike_of_read h (.ok true) ?_ rfl fun _ _ => ⟨⟩
  show ((do return (← World.stored).rules.allows .everyColumn : Op (World Tables) Bool)).run w = _
  simp only [Op.run_bind, World.run_stored, Op.run_pure, Table.allows, h.rules.state]

end Tables

end PropertyRisk
