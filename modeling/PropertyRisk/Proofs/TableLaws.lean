import PropertyRisk.Proofs.Cells
import PropertyRisk.Proofs.Documents
import PropertyRisk.Proofs.Views
import PropertyRisk.Store.Tables

/-!
# The store in tables is lawful

`Tables.lawful`: a text that can be encoded is kept as it is, and so is a number
that a column has made once. Every row can be read as the record that was
written, because trees and observations read back from their documents.
-/

namespace PropertyRisk

open Op (Triple Keeps)

/-! ## Records of rows -/

/-- The rule of a row whose tree reads. -/
def RuleRow.record (r : RuleRow) : Rule where
  id := .text r.id
  name := .text r.name
  description := .text r.description
  tree := (Criteria.read r.tree).toOption.getD default
  effectiveFrom := .text r.effectiveFrom
  effectiveTo := .ofText? r.effectiveTo
  isActive := .bool r.isActive
  version := r.version
  createdAt := .text r.createdAt
  updatedAt := r.updatedAt

/-- The observations of a document that lists them. -/
def notedIn : Value → List Observation
  | .list items => (readObservations items).toOption.getD []
  | _ => []

def AssessmentRow.record (r : AssessmentRow) : Assessment :=
  ⟨.text r.id, r.propertyId, notedIn r.observations, .text r.assessedAt⟩

theorem RuleRow.toRule_of_read {r : RuleRow} {tree : Criteria}
    (h : Criteria.read r.tree = .ok tree) : r.toRule = .ok r.record := by
  simp [toRule, record, h, Except.toOption]

theorem RuleRow.read_of_toRule {r : RuleRow} (h : r.toRule = .ok r.record) :
    Criteria.read r.tree = .ok r.record.tree := by
  unfold toRule at h
  split at h
  · cases h
  · rename_i tree ht
    simp [record, ht, Except.toOption]

theorem AssessmentRow.toAssessment_of_noted {r : AssessmentRow} {os : List Observation}
    (hr : r.observations = Observation.listToValue os) (h : ∀ o ∈ os, o.typeId ≠ "") :
    r.toAssessment = .ok r.record ∧ r.record.observations = os := by
  have hos := readObservations_toValue h
  simp [toAssessment, record, notedIn, hr, Observation.listToValue, hos, Except.toOption]

namespace Tables

/-- The records that the tables hold. -/
def records (t : Tables) : Memory where
  rules := t.rules.rows.relabel .text RuleRow.record
  vulnerabilities := t.vulnerabilities.rows.relabel .text VulnerabilityRow.toVulnerability
  assessments := t.assessments.rows.relabel .text AssessmentRow.record
  observationTypes := t.observationTypes.rows.relabel .text ObservationTypeRow.toType
  observationValues := t.observationValues.rows.relabel .text ObservationValueRow.toValue
  mitigationTypes := t.mitigationTypes.rows.relabel .text MitigationTypeRow.toType
  mitigationValues := t.mitigationValues.rows.relabel .text MitigationValueRow.toValue

/-- The table of rules is there, and every tree in it reads. -/
structure ReadsRules (t : Tables) : Prop where
  rules : t.rules.state = .whole
  trees : ∀ r ∈ t.rules.rows.records, r.toRule = .ok r.record

/-- All tables are there, and every document in them reads. -/
structure Whole (t : Tables) : Prop extends ReadsRules t where
  vulnerabilities : t.vulnerabilities.state = .whole
  assessments : t.assessments.state = .whole
  observationTypes : t.observationTypes.state = .whole
  observationValues : t.observationValues.state = .whole
  mitigationTypes : t.mitigationTypes.state = .whole
  mitigationValues : t.mitigationValues.state = .whole
  notes : ∀ r ∈ t.assessments.rows.records, r.toAssessment = .ok r.record

/-! ## Cells -/

/-- What a statement makes of a refusal. -/
def boundCell (operation : Operation) : Except Cell.Refusal α → Except Error α
  | .ok a => .ok a
  | .error .listOrObject => .error (.storage ⟨operation, .database⟩)
  | .error .tooLarge => .error (.fault .tooLarge)
  | .error .unencodable => .error (.fault .unencodable)

def requiredCell (operation : Operation) : Option α → Except Error α
  | some a => .ok a
  | none => .error (.storage ⟨operation, .database⟩)

theorem bindText_eq (operation : Operation) (x : Value) :
    bindText operation x = Op.ofExcept (boundCell operation (Cell.text x)) := by
  unfold bindText bound boundCell
  rcases Cell.text x with (_ | _ | _) | _ <;> rfl

theorem boundCell_text (operation : Operation) (s : String) :
    boundCell operation (Cell.text (.text s)) =
      if Text.isWhole s then .ok (some s) else .error (.fault .unencodable) := by
  simp only [Cell.text, Cell.ofText]
  split <;> rfl

theorem bindNumber_eq (operation : Operation) (x : Value) :
    bindNumber operation x = Op.ofExcept (boundCell operation (Cell.number x)) := by
  unfold bindNumber bound boundCell
  rcases Cell.number x with (_ | _ | _) | _ <;> rfl

theorem notNull_eq (operation : Operation) (cell : Option α) :
    notNull operation cell = Op.ofExcept (requiredCell operation cell) := by
  cases cell <;> rfl

theorem boundCell_eq_ok {operation : Operation} {r : Except Cell.Refusal α} {a : α} :
    boundCell operation r = .ok a ↔ r = .ok a := by
  rcases r with (_ | _ | _) | _ <;> simp [boundCell]

theorem requiredCell_eq_ok {operation : Operation} {cell : Option α} {a : α} :
    requiredCell operation cell = .ok a ↔ cell = some a := by
  cases cell <;> simp [requiredCell]

theorem prepare_whole {operation : Operation} {touch : Touch} {t : Table α}
    (h : t.state = .whole) : prepare operation touch t = pure () := by
  simp [prepare, Table.allows, h]

/-! ## The view -/

/-- Whether a change of a rule is taken: its columns take what it sets, and the
version can be compared. -/
def takes (change : RuleChange) (version : Int) : Except Error Unit := do
  let text (x : Value) := boundCell .updateRule (Cell.text x)
  let name ← change.name.mapM text
  let description ← change.description.mapM text
  let effectiveFrom ← change.effectiveFrom.mapM text
  let _ ← change.effectiveTo.mapM text
  let _ ← boundCell .updateRule (Cell.number (.int version))
  let _ ← name.mapM (requiredCell .updateRule)
  let _ ← description.mapM (requiredCell .updateRule)
  let _ ← effectiveFrom.mapM (requiredCell .updateRule)
  return ()

def view : View Tables where
  storage := storage
  records := records
  Whole := Whole
  Plain s := Text.isWhole s = true
  Settled p := Cell.number p = .ok p ∧ p ≠ .null
  Tree := Criteria.Readable
  Noted os := ∀ o ∈ os, o.typeId ≠ ""
  name operation id := boundCell operation (Cell.text id)
  column x :=
    match Cell.text x with
    | .ok cell => .ofText? cell
    | .error _ => .null
  flag x := .bool x.holds
  takes := takes

/-- What writing a change to a rule comes to: the changed rule, or nothing where another
version is expected. The columns are bound first, then the version is compared, and
then the columns are looked at that take no null. -/
def revised (change : RuleChange) (expected : Option Value) (now : String) (r : Rule) :
    Except Error (Option Rule) := do
  let text (x : Value) := boundCell .updateRule (Cell.text x)
  let tree ← (change.tree.mapM TreeSource.read).mapError (.invalid <| .tree ·)
  let name ← change.name.mapM text
  let description ← change.description.mapM text
  let effectiveFrom ← change.effectiveFrom.mapM text
  let _ ← change.effectiveTo.mapM text
  let expected ← expected.mapM fun x => boundCell .updateRule (Cell.number x)
  if expected.any (!·.equal (.int r.version)) then .ok none
  else do
    let _ ← name.mapM (requiredCell .updateRule)
    let _ ← description.mapM (requiredCell .updateRule)
    let _ ← effectiveFrom.mapM (requiredCell .updateRule)
    .ok (some (r.changed { view.kept change with id := none, createdAt := none } tree now))

/-- What a text column makes of a value, if it takes it. -/
def tag (x : Value) : Value :=
  match Cell.text x with
  | .ok cell => .ofText? cell
  | .error _ => x

/-- What a number column makes of a value, if it takes it. -/
def spot (x : Value) : Value :=
  match Cell.number x with
  | .ok p => p
  | .error _ => x

theorem tag_text (s : String) : tag (.text s) = .text s := by
  unfold tag Cell.text Cell.ofText
  by_cases h : Text.isWhole s <;> simp [h, Value.ofText?]

theorem accepted_of_boundCell {operation : Operation} {r : Except Cell.Refusal α} {e : Error}
    (h : boundCell operation r = .error e) : e.isRejection = false := by
  rcases r with (_ | _ | _) | _ <;> cases h <;> rfl

theorem accepted_of_requiredCell {operation : Operation} {cell : Option α} {e : Error}
    (h : requiredCell operation cell = .error e) : e.isRejection = false := by
  cases cell <;> cases h
  rfl

theorem tag_of_boundCell {operation : Operation} {x : Value} {cell : Option String}
    (h : boundCell operation (Cell.text x) = .ok cell) : tag x = .ofText? cell := by
  simp [tag, boundCell_eq_ok.mp h]

/-- A text that is bound and must be there. -/
theorem tag_of_bound {operation : Operation} {x : Value} {cell : Option String} {s : String}
    (h : boundCell operation (Cell.text x) = .ok cell)
    (hs : requiredCell operation cell = .ok s) : tag x = .text s := by
  cases requiredCell_eq_ok.mp hs
  exact tag_of_boundCell h

/-! ## Reading -/

theorem text_injective : Function.Injective Key.text := fun _ _ h => Key.text.inj h

theorem quiet_bindText (operation : Operation) (x : Value) : Op.Quiet (bindText operation x) :=
  bindText_eq operation x ▸ .ofExcept _

theorem quiet_bindNumber (operation : Operation) (x : Value) : Op.Quiet (bindNumber operation x) :=
  bindNumber_eq operation x ▸ .ofExcept _

theorem quiet_prepare (operation : Operation) (touch : Touch) (t : Table α) :
    Op.Quiet (prepare operation touch t) :=
  .ite (.pure ()) (.throw _)

theorem quiet_select (operation : Operation) (table : Tables → Table α) :
    Op.Quiet (select operation table) :=
  World.quiet_stored.bind fun _ => (quiet_prepare _ _ _).bind fun _ => .pure _

theorem quiet_selectOne (operation : Operation) (table : Tables → Table α) (id : Value) :
    Op.Quiet (selectOne operation table id) :=
  World.quiet_stored.bind fun _ => (quiet_prepare _ _ _).bind fun _ =>
    (quiet_bindText _ _).bind fun _ => .pure _

theorem quiet_selectByIds (operation : Operation) (table : Tables → Table α) (idOf : α → String)
    (ids : List Value) : Op.Quiet (selectByIds operation table idOf ids) :=
  .ite (.pure []) <| (quiet_select _ _).bind fun _ =>
    (Op.Quiet.mapM (quiet_bindText operation) ids).bind fun _ => .pure _

theorem quiet_listRules : Op.Quiet listRules :=
  (quiet_select _ _).bind fun _ => .mapM (fun _ => .ofExcept _) _

theorem quiet_listForProperty (propertyId : Value) (until_ : Option Value) :
    Op.Quiet (listForProperty propertyId until_) := by
  refine (quiet_select _ _).bind fun rows => (quiet_bindNumber _ _).bind fun p => ?_
  cases until_ with
  | none => exact .pure _
  | some time => exact (Op.Quiet.ofExcept _).bind fun _ => (Op.Quiet.ofExcept _).bind fun _ => .pure _

theorem quiet_getRule (id : Value) : Op.Quiet (getRule id) := by
  refine (quiet_selectOne _ _ _).bind fun row? => ?_
  cases row? with
  | none => exact .pure none
  | some row => exact (Op.Quiet.ofExcept _).bind fun _ => .pure _

theorem quiet_getAssessment (id : Value) : Op.Quiet (getAssessment id) := by
  refine (quiet_selectOne _ _ _).bind fun row? => ?_
  cases row? with
  | none => exact .pure none
  | some row => exact (Op.Quiet.ofExcept _).bind fun _ => .pure _

theorem quiet_of_isRead {r : Request α} (h : r.isRead) : Op.Quiet (view.storage.perform r) := by
  cases r <;> first
    | exact absurd h Bool.false_ne_true
    | skip
  case getRule id => exact quiet_getRule id
  case listRules => exact quiet_listRules
  case listRulesEffectiveAt time => exact quiet_listRules.bind fun _ => .ofExcept _
  case getVulnerability id => exact (quiet_selectOne _ _ _).bind fun _ => .pure _
  case listVulnerabilitiesForRule id =>
    exact (quiet_select _ _).bind fun _ => (quiet_bindText _ _).bind fun _ => .pure _
  case listVulnerabilitiesForProperty p until_ => exact quiet_listForProperty p until_
  case getAssessment id => exact quiet_getAssessment id
  case listObservationTypes => exact (quiet_select _ _).bind fun _ => .pure _
  case getObservationTypes ids => exact (quiet_selectByIds _ _ _ _).bind fun _ => .pure _
  case getObservationValues ids => exact (quiet_selectByIds _ _ _ _).bind fun _ => .pure _
  case getMitigationType id => exact (quiet_selectOne _ _ _).bind fun _ => .pure _
  case listMitigationTypes => exact (quiet_select _ _).bind fun _ => .pure _
  case listMitigationValues id =>
    exact (quiet_select _ _).bind fun _ => (quiet_bindText _ _).bind fun _ => .pure _
  case ping => exact fun _ => rfl

/-! ## Looking up and listing -/

variable {w : World Tables}

theorem run_selectOne {operation : Operation} {table : Tables → Table α} {id : Value}
    (h : (table w.store).state = .whole) : (selectOne operation table id).run w =
      ((view.name operation id).map (·.bind (table w.store).rows.get?), w) := by
  simp only [selectOne, Op.run_bind, World.run_stored, prepare_whole h, Op.run_pure, bindText_eq,
    Op.run_ofExcept]
  show _ = ((boundCell operation (Cell.text id)).map _, w)
  rcases boundCell operation (Cell.text id) with _ | _ <;> rfl

theorem run_select {operation : Operation} {table : Tables → Table α}
    (h : (table w.store).state = .whole) :
    (select operation table).run w = (.ok (table w.store).rows.records, w) := by
  simp only [select, Op.run_bind, World.run_stored, prepare_whole h, Op.run_pure]

theorem look_relabel {operation : Operation} {id : Value} {f : α → β} {shelf : Shelf String α} :
    view.look operation id (shelf.relabel Key.text f) =
      (view.name operation id).map (·.bind fun s => (shelf.get? s).map f) := by
  simp only [View.look, Shelf.get?_relabel text_injective]

theorem drop_relabel {operation : Operation} {id : Value} {f : α → β} {shelf : Shelf String α} :
    view.drop operation id (shelf.relabel Key.text f) =
      match view.name operation id with
      | .ok (some s) => (shelf.erase s).relabel Key.text f
      | _ => shelf.relabel Key.text f := by
  unfold View.drop
  rcases view.name operation id with e | _ | s
  · rfl
  · rfl
  · exact Shelf.erase_relabel text_injective

theorem run_getRule (h : ReadsRules w.store) {id : Value} :
    (getRule id).run w = (view.look .getRule id (records w.store).rules, w) := by
  simp only [getRule, Op.run_bind, run_selectOne h.rules, records, look_relabel]
  rcases view.name .getRule id with _ | _ | s
  · rfl
  · rfl
  · cases hr : w.store.rules.rows.get? s with
    | none => simp [Except.map, hr]
    | some row =>
      have ht := h.trees row (Shelf.mem_records_of_get? hr)
      simp only [Except.map, hr, Option.bind_some, Option.map_some, Op.run_bind, readRule, ht,
        Op.run_ofExcept_ok, Op.run_pure]

theorem run_getAssessment (h : Whole w.store) {id : Value} :
    (getAssessment id).run w = (view.look .getAssessment id (records w.store).assessments, w) := by
  simp only [getAssessment, Op.run_bind, run_selectOne h.assessments, records, look_relabel]
  rcases view.name .getAssessment id with _ | _ | s
  · rfl
  · rfl
  · cases hr : w.store.assessments.rows.get? s with
    | none => simp [Except.map, hr]
    | some row =>
      have ht := h.notes row (Shelf.mem_records_of_get? hr)
      simp only [Except.map, hr, Option.bind_some, Option.map_some, Op.run_bind, ht,
        Op.run_ofExcept_ok, Op.run_pure]

theorem run_getVulnerability (h : Whole w.store) {id : Value} :
    (getVulnerability id).run w =
      (view.look .getVulnerability id (records w.store).vulnerabilities, w) := by
  simp only [getVulnerability, Op.run_bind, run_selectOne h.vulnerabilities, records, look_relabel]
  rcases view.name .getVulnerability id with _ | _ | s <;> rfl

theorem run_readRules {rows : List RuleRow} (h : ∀ r ∈ rows, r.toRule = .ok r.record) :
    (rows.mapM readRule).run w = (.ok (rows.map RuleRow.record), w) := by
  induction rows with
  | nil => rfl
  | cons row rest ih =>
    rw [List.mapM_cons, Op.run_bind, readRule, h row List.mem_cons_self, Op.run_ofExcept_ok]
    simp only [Op.run_bind, ih fun r hr => h r (List.mem_cons_of_mem _ hr), Op.run_pure,
      List.map_cons]

theorem run_listRules (h : ReadsRules w.store) : listRules.run w =
    (.ok ((sortedByTexts RuleRow.createdAt RuleRow.id w.store.rules.rows.records).map
      RuleRow.record), w) := by
  have hrows : ∀ r ∈ sortedByTexts RuleRow.createdAt RuleRow.id w.store.rules.rows.records,
      r.toRule = .ok r.record := fun r hr => h.trees r ((List.mergeSort_perm _ _).mem_iff.mp hr)
  simp only [listRules, Op.run_bind, run_select h.rules, run_readRules hrows]

theorem byDetection_perm (rows : List VulnerabilityRow) :
    (byDetection rows).Perm (rows.map VulnerabilityRow.toVulnerability) :=
  (List.mergeSort_perm _ _).map _

theorem run_listForRule (h : w.store.vulnerabilities.state = .whole) {id : Value}
    {key : Option String} (hkey : view.name .listVulnerabilitiesForRule id = .ok key) :
    (listForRule id).run w =
      (.ok (byDetection (w.store.vulnerabilities.rows.records.filter (key = some ·.ruleId))), w) := by
  have hkey' : boundCell .listVulnerabilitiesForRule (Cell.text id) = .ok key := hkey
  simp only [listForRule, Op.run_bind, run_select h, bindText_eq, hkey', Op.run_ofExcept,
    Op.run_pure]

theorem run_listForProperty (h : w.store.vulnerabilities.state = .whole) {p q : Value}
    (hp : Cell.number p = .ok q) : (listForProperty p none).run w =
      (.ok (byDetection (w.store.vulnerabilities.rows.records.filter (·.propertyId.equal q))),
        w) := by
  simp only [listForProperty, Op.run_bind, run_select h, bindNumber_eq, hp, boundCell,
    Op.run_ofExcept, Op.run_pure]

theorem run_listForProperty_until (h : w.store.vulnerabilities.state = .whole) {p q : Value}
    (hp : Cell.number p = .ok q) (time : Value) : (listForProperty p (some time)).run w =
      ((do
        let cutoff ← requireStampValue time
        let stamped ← stampAll (byDetection
          (w.store.vulnerabilities.rows.records.filter (·.propertyId.equal q)))
        return (stamped.filter (·.1.le cutoff)).map (·.2)), w) := by
  simp only [listForProperty, Op.run_bind, run_select h, bindNumber_eq, hp, boundCell,
    Op.run_ofExcept, Op.run_pure]
  rcases requireStampValue time with e | cutoff
  · rfl
  · rcases stampAll (byDetection (w.store.vulnerabilities.rows.records.filter
      (·.propertyId.equal q))) with e | stamped <;> rfl

/-! ## Writing -/

theorem becomes {t : Tables} (h : Whole t) : view.Becomes w (records t) { w with store := t } :=
  ⟨h, rfl, rfl, rfl, Nat.le_refl _⟩

theorem becomes_issued {t : Tables} (h : Whole t) :
    view.Becomes w (records t) { w with store := t, issued := w.issued + 1 } :=
  ⟨h, rfl, rfl, rfl, Nat.le_succ _⟩

/-- The tables with a row under an id. -/
def withRule (t : Tables) (s : String) (row : RuleRow) : Tables :=
  { t with rules := { t.rules with rows := t.rules.rows.put s row } }

def withVulnerability (t : Tables) (s : String) (row : VulnerabilityRow) : Tables :=
  { t with vulnerabilities := { t.vulnerabilities with rows := t.vulnerabilities.rows.put s row } }

def withAssessment (t : Tables) (s : String) (row : AssessmentRow) : Tables :=
  { t with assessments := { t.assessments with rows := t.assessments.rows.put s row } }

variable {t : Tables} {s : String}

theorem ReadsRules.withRule (h : ReadsRules t) {row : RuleRow} (hr : row.toRule = .ok row.record) :
    ReadsRules (t.withRule s row) where
  rules := h.rules
  trees r hm := (Shelf.mem_records_put hm).elim (fun he => he ▸ hr) (h.trees r)

theorem Whole.withRule (h : Whole t) {row : RuleRow} (hr : row.toRule = .ok row.record) :
    Whole (t.withRule s row) :=
  { h with toReadsRules := h.toReadsRules.withRule hr }

theorem Whole.withVulnerability (h : Whole t) {row : VulnerabilityRow} :
    Whole (t.withVulnerability s row) :=
  { h with }

theorem Whole.withAssessment (h : Whole t) {row : AssessmentRow}
    (hr : row.toAssessment = .ok row.record) : Whole (t.withAssessment s row) :=
  { h with
    notes := fun r hm => (Shelf.mem_records_put hm).elim (fun he => he ▸ hr) (h.notes r) }

theorem records_withRule {row : RuleRow} : records (t.withRule s row) =
    { records t with rules := (records t).rules.put (.text s) row.record } := by
  simp only [records, Tables.withRule, Shelf.put_relabel text_injective]

theorem records_withVulnerability {row : VulnerabilityRow} :
    records (t.withVulnerability s row) =
      { records t with
        vulnerabilities := (records t).vulnerabilities.put (.text s) row.toVulnerability } := by
  simp only [records, Tables.withVulnerability, Shelf.put_relabel text_injective]

theorem records_withAssessment {row : AssessmentRow} : records (t.withAssessment s row) =
    { records t with assessments := (records t).assessments.put (.text s) row.record } := by
  simp only [records, Tables.withAssessment, Shelf.put_relabel text_injective]

theorem triple_insertRule (h : ReadsRules w.store) {d : RuleDraft} (hd : d.tree.Readable) :
    Triple (insertRule d) w
      (fun id w' => id = w.idOf (w.issued + 1) ∧ ∃ row : RuleRow,
        row.toRule = .ok row.record ∧
        row.record = d.stored tag view.flag (w.idOf (w.issued + 1)) w.clock.text ∧
        w' = { w with store := w.store.withRule id row, issued := w.issued + 1 })
      (fun e w' => e.isRejection = false ∧ w' = { w with issued := w.issued + 1 }) := by
  have hcell {α : Type} {cell : Except Cell.Refusal α} (e : Error)
      (he : boundCell .createRule cell = .error e) :
      e.isRejection = false ∧ ({ w with issued := w.issued + 1 } : World Tables) =
        { w with issued := w.issued + 1 } := ⟨accepted_of_boundCell he, rfl⟩
  have hneeded {α : Type} {cell : Option α} (e : Error)
      (he : requiredCell .createRule cell = .error e) :
      e.isRejection = false ∧ ({ w with issued := w.issued + 1 } : World Tables) =
        { w with issued := w.issued + 1 } := ⟨accepted_of_requiredCell he, rfl⟩
  refine Triple.bind_run (World.run_now w) <| Triple.bind_run (World.run_fresh w) <|
    Triple.bind_run (World.run_stored _) ?_
  rw [prepare_whole h.rules]
  simp only [pure_bind, bindText_eq, notNull_eq]
  refine Triple.bind_check hcell fun name? hname? => ?_
  refine Triple.bind_check hcell fun description? hdescription? => ?_
  refine Triple.bind_check hcell fun start? hstart? => ?_
  refine Triple.bind_check hcell fun stop hstop => ?_
  refine Triple.bind_check hneeded fun name hname => ?_
  refine Triple.bind_check hneeded fun description hdescription => ?_
  refine Triple.bind_check hneeded fun start hstart => ?_
  have hread := Criteria.read_toValue hd
  unfold Tables.insert
  split
  · exact Triple.of_run_error rfl ⟨rfl, rfl⟩
  · refine Triple.of_run rfl ⟨rfl, _, RuleRow.toRule_of_read hread, ?_, rfl⟩
    simp only [RuleRow.record, RuleDraft.stored, hread, Except.toOption, Option.getD_some,
      tag_of_bound hname? hname, tag_of_bound hdescription? hdescription,
      tag_of_bound hstart? hstart, tag_of_boundCell hstop]
    rfl

theorem text_of_name {operation : Operation} {s t : String}
    (h : view.name operation (.text s) = .ok (some t)) : t = s := by
  have ht : Cell.text (.text s) = .ok (some t) := boundCell_eq_ok.mp h
  simp only [Cell.text, Cell.ofText] at ht
  split at ht <;> cases ht
  rfl

theorem name_text {operation : Operation} (h : Text.isWhole s = true) :
    view.name operation (.text s) = .ok (some s) := by
  show boundCell operation (Cell.text (.text s)) = _
  rw [Cell.text_text h, boundCell]

/-- A rule that has just been written is read back from its row. -/
theorem run_getRule_written {row : RuleRow} (h : ReadsRules w.store) (hs : Text.isWhole s = true)
    (hw : w.store = t.withRule s row) : (getRule (.text s)).run w = (.ok (some row.record), w) := by
  rw [run_getRule h, View.look_of_name (name_text hs), hw, records_withRule]
  simp [Shelf.get?_put]

theorem run_getAssessment_written {row : AssessmentRow} (h : Whole w.store)
    (hs : Text.isWhole s = true) (hw : w.store = t.withAssessment s row) :
    (getAssessment (.text s)).run w = (.ok (some row.record), w) := by
  rw [run_getAssessment h, View.look_of_name (name_text hs), hw, records_withAssessment]
  simp [Shelf.get?_put]

theorem run_reread {self : Storage (World Tables)} {r : Request (Option α)} {a : α}
    (h : (self.perform r).run w = (.ok (some a), w)) : (reread self r).run w = (.ok a, w) := by
  simp only [reread, Op.run_bind, h, Op.run_pure]

theorem triple_createRule (h : ReadsRules w.store)
    (hs : Text.isWhole (w.idOf (w.issued + 1)) = true) {d : RuleDraft} (hd : d.tree.Readable) :
    Triple (view.storage.perform (.createRule d)) w
      (fun r w' => r = d.stored tag view.flag (w.idOf (w.issued + 1)) w.clock.text ∧
        w'.issued = w.issued + 1 ∧ ReadsRules w'.store ∧
        view.RulesBecome w ((records w.store).rules.put (.text (w.idOf (w.issued + 1))) r) w')
      (fun e w' => e.isRejection = false ∧ w' = { w with issued := w.issued + 1 }) := by
  refine (triple_insertRule h hd).bind ?_
  rintro id w' ⟨rfl, row, hr, hrow, rfl⟩
  have hw := h.withRule (s := w.idOf (w.issued + 1)) hr
  exact Triple.of_run (run_reread (run_getRule_written hw hs rfl))
    ⟨hrow, rfl, hw, ⟨rfl, rfl, Nat.le_succ _⟩, records_withRule, fun hwhole => hwhole.withRule hr⟩

theorem triple_insertAssessment (h : Whole w.store) {d : AssessmentDraft}
    (hd : ∀ o ∈ d.observations, o.typeId ≠ "") :
    Triple (insertAssessment d) w
      (fun id w' => id = w.idOf (w.issued + 1) ∧ ∃ row : AssessmentRow, row.id = id ∧
        row.toAssessment = .ok row.record ∧ row.record.observations = d.observations ∧
        row.record.assessedAt = tag (d.assessedAt.orElse (.text w.clock.text)) ∧
        view.Settled row.propertyId ∧
        w' = { w with store := w.store.withAssessment id row, issued := w.issued + 1 })
      (fun e w' => e.isRejection = false ∧ view.Becomes w (records w.store) w') := by
  have hsame := becomes_issued (w := w) h
  have hcell {α : Type} {cell : Except Cell.Refusal α} (e : Error)
      (he : boundCell .createAssessment cell = .error e) := And.intro (accepted_of_boundCell he) hsame
  refine Triple.bind_run (World.run_fresh w) <| Triple.bind_run (World.run_now _) <|
    Triple.bind_run (World.run_stored _) ?_
  rw [prepare_whole h.assessments]
  simp only [pure_bind, bindText_eq, bindNumber_eq, notNull_eq]
  refine Triple.bind_check hcell fun p hp => ?_
  refine Triple.bind_check hcell fun time? htime? => ?_
  unfold numberNotNull
  split
  · exact Triple.throw ⟨rfl, hsame⟩
  · rename_i hnull
    rw [pure_bind]
    refine Triple.bind_check (fun _ he => ⟨accepted_of_requiredCell he, hsame⟩) fun time htime => ?_
    unfold Tables.insert
    split
    · exact Triple.of_run_error rfl ⟨rfl, hsame⟩
    · obtain ⟨hread, hos⟩ := AssessmentRow.toAssessment_of_noted
        (r := ⟨w.idOf (w.issued + 1), p, time, Observation.listToValue d.observations⟩) rfl hd
      exact Triple.of_run rfl ⟨rfl, _, rfl, hread, hos, (tag_of_bound htime? htime).symm,
        ⟨Cell.number_of_number (boundCell_eq_ok.mp hp), hnull⟩, rfl⟩

theorem triple_createAssessment (h : Whole w.store)
    (hs : Text.isWhole (w.idOf (w.issued + 1)) = true) {d : AssessmentDraft}
    (hd : ∀ o ∈ d.observations, o.typeId ≠ "") :
    Triple (view.storage.perform (.createAssessment d)) w
      (fun a w' => a.id = .text (w.idOf (w.issued + 1)) ∧ a.observations = d.observations ∧
        a.assessedAt = tag (d.assessedAt.orElse (.text w.clock.text)) ∧
        view.Settled a.propertyId ∧ w'.issued = w.issued + 1 ∧
        view.Becomes w { records w.store with
          assessments := (records w.store).assessments.put
            (.text (w.idOf (w.issued + 1))) a } w')
      (fun e w' => e.isRejection = false ∧ view.Becomes w (records w.store) w') := by
  refine (triple_insertAssessment h hd).bind ?_
  rintro id w' ⟨rfl, row, hid, hr, hos, htime, hp, rfl⟩
  have hw := h.withAssessment (s := w.idOf (w.issued + 1)) hr
  exact Triple.of_run (run_reread (run_getAssessment_written hw hs rfl))
    ⟨congrArg Value.text hid, hos, htime, hp, rfl, records_withAssessment ▸ becomes_issued hw⟩

/-- The row of a vulnerability as it is opened. -/
def openedRow (id ruleId assessmentId : String) (p : Value) (now : String) : VulnerabilityRow where
  id := id
  ruleId := ruleId
  assessmentId := assessmentId
  propertyId := p
  status := Status.opened.name
  detectedAt := now
  mitigationTypeId := none
  mitigationValueId := none
  mitigationDescription := none
  notes := none
  createdAt := now
  updatedAt := now

theorem run_insertVulnerability (h : w.store.vulnerabilities.state = .whole)
    {ruleId assessmentId : String} {p : Value}
    (hr : Text.isWhole ruleId = true) (ha : Text.isWhole assessmentId = true)
    (hp : view.Settled p)
    (hnew : w.store.vulnerabilities.rows.get? (w.idOf (w.issued + 1)) = none) :
    (insertVulnerability { ruleId := .text ruleId
                           assessmentId := .text assessmentId
                           propertyId := p
                           detectedAt := .text w.clock.text }).run w =
      (.ok (w.idOf (w.issued + 1)), { w with
        store := w.store.withVulnerability (w.idOf (w.issued + 1))
          (openedRow (w.idOf (w.issued + 1)) ruleId assessmentId p w.clock.text)
        issued := w.issued + 1 }) := by
  have hnull : numberNotNull .createVulnerability p = pure p := if_neg hp.2
  have hstatus : Text.isWhole Status.opened.name = true := by decide
  have hnone : Cell.text .null = .ok none := rfl
  simp only [insertVulnerability, Op.run_bind, World.run_now, World.run_fresh, World.run_stored,
    prepare_whole h, Op.run_pure, bindText_eq, bindNumber_eq, notNull_eq, Value.orElse_self,
    Cell.text_text hr, Cell.text_text ha, Cell.text_text hstatus,
    Cell.text_text (Time.isWhole_text _), hp.1, hnone, boundCell, requiredCell,
    Op.run_ofExcept, hnull, Tables.insert, hnew, Option.isSome_none, Bool.false_eq_true, if_false,
    World.run_save]
  rfl

/-- A vulnerability that was written is there. -/
theorem run_getWritten (h : w.store.vulnerabilities.state = .whole) (hs : Text.isWhole s = true)
    (row : VulnerabilityRow) (n : Nat) :
    (getVulnerability (.text s)).run
        { w with store := w.store.withVulnerability s row, issued := n } =
      (.ok (some row.toVulnerability),
        { w with store := w.store.withVulnerability s row, issued := n }) := by
  have hstate : (w.store.withVulnerability s row).vulnerabilities.state = .whole := h
  have hrow : (w.store.withVulnerability s row).vulnerabilities.rows.get? s = some row := by
    simp [withVulnerability, Shelf.get?_put]
  simp only [getVulnerability, Op.run_bind, World.run_stored, selectOne, prepare_whole hstate,
    Op.run_pure, bindText_eq, Cell.text_text hs, boundCell, Op.run_ofExcept, Option.bind_some, hrow,
    Option.map_some]

theorem run_create_of_insert {d : VulnerabilityDraft} {v : Vulnerability} {u : World Tables}
    (hinsert : (insertVulnerability d).run w = (.ok s, u))
    (hget : (getVulnerability (.text s)).run u = (.ok (some v), u)) :
    (view.storage.perform (.createVulnerability d)).run w = (.ok v, u) :=
  (Op.run_bind_ok hinsert).trans (run_reread hget)

theorem run_createVulnerability (h : w.store.vulnerabilities.state = .whole)
    (hs : Text.isWhole (w.idOf (w.issued + 1)) = true) {ruleId assessmentId : String} {p : Value}
    (hr : Text.isWhole ruleId = true) (ha : Text.isWhole assessmentId = true)
    (hp : view.Settled p)
    (hnew : w.store.vulnerabilities.rows.get? (w.idOf (w.issued + 1)) = none) :
    (view.storage.perform (.createVulnerability { ruleId := .text ruleId
                                                  assessmentId := .text assessmentId
                                                  propertyId := p
                                                  detectedAt := .text w.clock.text })).run w =
      (.ok (.opened (w.idOf (w.issued + 1)) ruleId assessmentId p w.clock.text), { w with
        store := w.store.withVulnerability (w.idOf (w.issued + 1))
          (openedRow (w.idOf (w.issued + 1)) ruleId assessmentId p w.clock.text)
        issued := w.issued + 1 }) := by
  exact run_create_of_insert (run_insertVulnerability h hr ha hp hnew) (run_getWritten h hs _ _)

/-! ## Deleting -/

theorem run_eraseRow {operation : Operation} {t : Table α} {id : Value} (h : t.state = .whole) :
    (eraseRow operation t id).run w =
      ((view.name operation id).map fun s? =>
        match s? with
        | none => (t, false)
        | some s => ({ t with rows := t.rows.erase s }, (t.rows.get? s).isSome), w) := by
  simp only [eraseRow, Op.run_bind, prepare_whole h, Op.run_pure, bindText_eq, Op.run_ofExcept]
  show _ = ((boundCell operation (Cell.text id)).map _, w)
  rcases boundCell operation (Cell.text id) with _ | _ | s <;> rfl

theorem ReadsRules.erase_rule (h : ReadsRules t) :
    ReadsRules { t with rules := { t.rules with rows := t.rules.rows.erase s } } where
  rules := h.rules
  trees r hm := h.trees r (Shelf.mem_records_of_erase hm)

theorem Whole.erase_rule (h : Whole t) :
    Whole { t with rules := { t.rules with rows := t.rules.rows.erase s } } :=
  { h with toReadsRules := h.toReadsRules.erase_rule }

theorem Whole.erase_vulnerability (h : Whole t) :
    Whole { t with vulnerabilities :=
      { t.vulnerabilities with rows := t.vulnerabilities.rows.erase s } } :=
  { h with }

theorem run_deleteRule (h : ReadsRules w.store) (id : Value) : ∃ w',
    (view.storage.perform (.deleteRule id)).run w =
        ((view.look .deleteRule id (records w.store).rules).map Option.isSome, w') ∧
      ReadsRules w'.store ∧
      view.RulesBecome w (view.drop .deleteRule id (records w.store).rules) w' := by
  have hrun : (view.storage.perform (.deleteRule id)).run w = (deleteRule id).run w := rfl
  simp only [hrun, deleteRule, Op.run_bind, World.run_stored, run_eraseRow h.rules, records,
    look_relabel, drop_relabel]
  rcases view.name .deleteRule id with _ | _ | s
  · exact ⟨w, rfl, h, .refl w, rfl, fun hw => hw⟩
  · exact ⟨w, rfl, h, .refl w, rfl, fun hw => hw⟩
  · refine ⟨{ w with store := { w.store with rules :=
      { w.store.rules with rows := w.store.rules.rows.erase s } } }, by simp [Except.map], ?_⟩
    exact ⟨h.erase_rule, ⟨rfl, rfl, Nat.le_refl _⟩, rfl, fun hw => hw.erase_rule⟩

theorem run_deleteVulnerability (h : Whole w.store) (id : Value) : ∃ w',
    (view.storage.perform (.deleteVulnerability id)).run w =
        ((view.look .deleteVulnerability id (records w.store).vulnerabilities).map
          Option.isSome, w') ∧
      view.Becomes w { records w.store with
        vulnerabilities := view.drop .deleteVulnerability id (records w.store).vulnerabilities }
        w' := by
  have hrun : (view.storage.perform (.deleteVulnerability id)).run w =
      (deleteVulnerability id).run w := rfl
  simp only [hrun, deleteVulnerability, Op.run_bind, World.run_stored,
    run_eraseRow h.vulnerabilities, records, look_relabel, drop_relabel]
  rcases view.name .deleteVulnerability id with _ | _ | s
  · exact ⟨w, rfl, becomes h⟩
  · exact ⟨w, rfl, becomes h⟩
  · exact ⟨_, by simp [Except.map], becomes h.erase_vulnerability⟩

/-! ## Changing -/

theorem mapM_bindText_eq (operation : Operation) (x? : Option Value) :
    x?.mapM (bindText operation) =
      Op.ofExcept (x?.mapM fun x => boundCell operation (Cell.text x)) := by
  cases x? with
  | none => rfl
  | some x =>
    show some <$> bindText operation x = Op.ofExcept (some <$> boundCell operation (Cell.text x))
    rw [bindText_eq]
    cases boundCell operation (Cell.text x) <;> rfl

theorem mapM_bindNumber_eq (operation : Operation) (x? : Option Value) :
    x?.mapM (bindNumber operation) =
      Op.ofExcept (x?.mapM fun x => boundCell operation (Cell.number x)) := by
  cases x? with
  | none => rfl
  | some x =>
    show some <$> bindNumber operation x = Op.ofExcept (some <$> boundCell operation (Cell.number x))
    rw [bindNumber_eq]
    cases boundCell operation (Cell.number x) <;> rfl

theorem setText_eq (operation : Operation) (new : Option (Option String)) (old : String) :
    setText operation new old =
      Op.ofExcept ((new.mapM (requiredCell operation)).map (·.getD old)) := by
  rcases new with _ | _ | s <;> rfl

/-- A text that a change sets, or the old one. -/
theorem column_of_set {x? : Option Value} {new : Option (Option String)} {set : Option String}
    (h : x?.mapM (fun x => boundCell .updateRule (Cell.text x)) = .ok new)
    (hs : new.mapM (requiredCell .updateRule) = .ok set) (old : String) :
    Value.text (set.getD old) = (x?.map view.column).getD (.text old) := by
  cases x? with
  | none =>
    cases h
    cases hs
    rfl
  | some x =>
    change some <$> boundCell .updateRule (Cell.text x) = _ at h
    rcases hb : boundCell .updateRule (Cell.text x) with e | cell
    · simp [hb] at h
    · rw [hb] at h
      cases h
      cases cell with
      | none => cases hs
      | some s =>
        cases hs
        simp [view, boundCell_eq_ok.mp hb, Value.ofText?]

/-- A text that a change sets or takes away, or the old one. -/
theorem column_of_new {x? : Option Value} {new : Option (Option String)}
    (h : x?.mapM (fun x => boundCell .updateRule (Cell.text x)) = .ok new) (old : Option String) :
    Value.ofText? (new.getD old) = (x?.map view.column).getD (.ofText? old) := by
  cases x? with
  | none =>
    cases h
    rfl
  | some x =>
    change some <$> boundCell .updateRule (Cell.text x) = _ at h
    rcases hb : boundCell .updateRule (Cell.text x) with e | cell
    · simp [hb] at h
    · rw [hb] at h
      cases h
      simp [view, boundCell_eq_ok.mp hb]

/-- A change that is written to a row is written to its record. -/
theorem run_changeRule_cases (h : ReadsRules w.store) {id : Value} {row : RuleRow} {change : RuleChange}
    (expected : Option Value) (hn : view.name .updateRule id = .ok (some s))
    (hr : w.store.rules.rows.get? s = some row)
    (ht : ∀ c, change.tree.mapM TreeSource.read = .ok (some c) → c.Readable) :
    (∃ e, revised change expected w.clock.text row.record = .error e ∧
      (changeRule id change expected).run w = (.error e, w)) ∨
    (revised change expected w.clock.text row.record = .ok none ∧
      (changeRule id change expected).run w = (.ok false, w)) ∨
    ∃ new : RuleRow, revised change expected w.clock.text row.record = .ok (some new.record) ∧
      new.id = row.id ∧ new.toRule = .ok new.record ∧
      (changeRule id change expected).run w =
        (.ok true, { w with store := w.store.withRule row.id new }) := by
  have hid : bindText .updateRule id = pure (some s) := by
    rw [bindText_eq]
    exact congrArg Op.ofExcept hn
  have hversion : row.record.version = row.version := rfl
  simp only [changeRule, revised, hversion]
  rcases htree : change.tree.mapM TreeSource.read with problems | tree
  · exact .inl ⟨_, rfl, rfl⟩
  simp only [Op.run_bind, Op.run_orElse_ok, World.run_stored, prepare_whole h.rules, Op.run_pure,
    mapM_bindText_eq, hid, mapM_bindNumber_eq, Op.run_ofExcept, setText_eq, Except.mapError, ok_bind]
  -- the columns are bound in order, the version expected comes last
  rcases hname : change.name.mapM fun x => boundCell .updateRule (Cell.text x) with e | name
  · exact .inl ⟨e, rfl, rfl⟩
  rcases hdesc : change.description.mapM fun x => boundCell .updateRule (Cell.text x) with e | desc
  · exact .inl ⟨e, rfl, rfl⟩
  rcases hfrom : change.effectiveFrom.mapM fun x => boundCell .updateRule (Cell.text x)
    with e | start
  · exact .inl ⟨e, rfl, rfl⟩
  rcases hto : change.effectiveTo.mapM fun x => boundCell .updateRule (Cell.text x) with e | stop
  · exact .inl ⟨e, rfl, rfl⟩
  rcases hexp : expected.mapM fun x => boundCell .updateRule (Cell.number x) with e | version
  · exact .inl ⟨e, rfl, rfl⟩
  simp only [ok_bind, Option.bind_some, hr]
  cases hstale : version.any (!·.equal (.int row.version)) with
  | true => exact .inr (.inl ⟨rfl, rfl⟩)
  | false =>
    -- those that take no null are looked at once there is a row to change
    simp only [Bool.false_eq_true, if_false, Op.run_bind, Op.run_ofExcept]
    rcases hname' : name.mapM (requiredCell .updateRule) with e | newName
    · exact .inl ⟨e, rfl, rfl⟩
    rcases hdesc' : desc.mapM (requiredCell .updateRule) with e | newDesc
    · exact .inl ⟨e, rfl, rfl⟩
    rcases hfrom' : start.mapM (requiredCell .updateRule) with e | newStart
    · exact .inl ⟨e, rfl, rfl⟩
    have hdoc : Criteria.read ((tree.map Criteria.toValue).getD row.tree) =
        .ok (tree.getD row.record.tree) := by
      cases tree with
      | none => exact RuleRow.read_of_toRule (h.trees row (Shelf.mem_records_of_get? hr))
      | some c => exact Criteria.read_toValue (ht c htree)
    have hflag : Value.bool ((change.isActive.map Value.holds).getD row.isActive) =
        (change.isActive.map view.flag).getD (.bool row.isActive) := by
      cases change.isActive <;> rfl
    refine .inr (.inr ⟨_, ?record, ?id, ?row, rfl⟩)
    case id => rfl
    case row => exact RuleRow.toRule_of_read hdoc
    case record =>
      simp only [ok_bind, RuleRow.record, Rule.changed, View.kept, hdoc, Except.toOption,
        Option.getD_some, column_of_set hname hname', column_of_set hdesc hdesc',
        column_of_set hfrom hfrom', column_of_new hto, hflag, Option.getD_none]

/-- A change that leaves a rule where it is, written at its own version. -/
theorem revised_of_proper {change : RuleChange} {tree : Option Criteria} (hc : change.Proper tree)
    (now : String) (r : Rule) : revised change (some (.int r.version)) now r =
      (takes change r.version).map fun _ => some (r.changed (view.kept change) tree now) := by
  have htree : change.tree.mapM TreeSource.read = .ok tree := by
    rw [hc.tree]
    cases tree <;> rfl
  have hkept : { view.kept change with id := none, createdAt := none } = view.kept change := by
    simp only [View.kept, hc.id, hc.createdAt]
  have hexp : (some (Value.int r.version)).mapM (fun x => boundCell .updateRule (Cell.number x)) =
      (boundCell .updateRule (Cell.number (.int r.version))).map some := by
    show some <$> boundCell .updateRule (Cell.number (.int r.version)) = _
    rcases boundCell .updateRule (Cell.number (.int r.version)) with _ | _ <;> rfl
  simp only [revised, takes, htree, hkept, hexp, Except.mapError, ok_bind]
  rcases change.name.mapM fun x => boundCell .updateRule (Cell.text x) with _ | name
  · rfl
  rcases change.description.mapM fun x => boundCell .updateRule (Cell.text x) with _ | desc
  · rfl
  rcases change.effectiveFrom.mapM fun x => boundCell .updateRule (Cell.text x) with _ | start
  · rfl
  rcases change.effectiveTo.mapM fun x => boundCell .updateRule (Cell.text x) with _ | _
  · rfl
  rcases hver : boundCell .updateRule (Cell.number (.int r.version)) with _ | version
  · rfl
  have hsame : version.equal (.int r.version) = true := by
    have hb := boundCell_eq_ok.mp hver
    simp only [Cell.number] at hb
    split at hb <;> cases hb
    simp [Value.equal]
  simp only [ok_bind, Except.map, Option.any_some, hsame, Bool.not_true, Bool.false_eq_true, if_false]
  rcases name.mapM (requiredCell .updateRule) with _ | _
  · rfl
  rcases desc.mapM (requiredCell .updateRule) with _ | _
  · rfl
  rcases start.mapM (requiredCell .updateRule) with _ | _ <;> rfl

theorem run_changeRule (h : Whole w.store) {id : Value} {row : RuleRow} {change : RuleChange}
    {tree : Option Criteria} (hn : view.name .updateRule id = .ok (some s))
    (hr : w.store.rules.rows.get? s = some row) (hc : change.Proper tree)
    (ht : ∀ c, tree = some c → c.Readable) :
    (∃ e, takes change row.version = .error e ∧
      (changeRule id change (some (.int row.version))).run w = (.error e, w)) ∨
    (takes change row.version = .ok () ∧ ∃ new : RuleRow,
      new.record = row.record.changed (view.kept change) tree w.clock.text ∧
      new.toRule = .ok new.record ∧
      (changeRule id change (some (.int row.version))).run w =
        (.ok true, { w with store := w.store.withRule row.id new })) := by
  have hread : change.tree.mapM TreeSource.read = .ok tree := by
    rw [hc.tree]
    cases tree <;> rfl
  have hrevised : revised change (some (.int row.version)) w.clock.text row.record =
      (takes change row.version).map fun _ =>
        some (row.record.changed (view.kept change) tree w.clock.text) :=
    revised_of_proper hc w.clock.text row.record
  have hcases := run_changeRule_cases h.toReadsRules (some (.int row.version)) hn hr
    fun c he => ht c (Except.ok.inj (hread.symm.trans he))
  rw [hrevised] at hcases
  cases htakes : takes change row.version with
  | error e =>
    rw [htakes] at hcases
    rcases hcases with ⟨e', he, hrun⟩ | ⟨he, -⟩ | ⟨new, he, -⟩ <;> cases he
    exact .inl ⟨e, rfl, hrun⟩
  | ok u =>
    rw [htakes] at hcases
    rcases hcases with ⟨e', he, -⟩ | ⟨he, -⟩ | ⟨new, he, -, hnew, hrun⟩
    · cases he
    · cases he
    · exact .inr ⟨rfl, new, (Option.some.inj (Except.ok.inj he)).symm, hnew, hrun⟩

/-- A row is under its own id. -/
theorem id_of_shelved {f : α → β} {idOf : β → Value} {shelf : Shelf String α} {row : α}
    (h : view.Shelved idOf (shelf.relabel Key.text f)) (hr : shelf.get? s = some row) :
    idOf (f row) = .text s ∧ Text.isWhole s = true := by
  have hm : (Key.text s, f row) ∈ shelf.relabel Key.text f :=
    List.mem_map.mpr ⟨(s, row), Shelf.mem_of_get? hr, rfl⟩
  obtain ⟨t, hp, hk, hid⟩ := h.own _ hm
  cases hk
  exact ⟨hid, hp⟩

theorem name_congr {operation other : Operation} {id : Value}
    (h : view.name operation id = .ok (some s)) : view.name other id = .ok (some s) :=
  boundCell_eq_ok.mpr (boundCell_eq_ok.mp h)

theorem run_updateRule (h : Whole w.store)
    (hshelved : view.Shelved Rule.id (records w.store).rules) {id : Value} {r : Rule}
    {change : RuleChange} {tree : Option Criteria} (hn : view.name .updateRule id = .ok (some s))
    (hr : (records w.store).rules.get? (.text s) = some r) (hc : change.Proper tree)
    (ht : ∀ c, tree = some c → c.Readable) :
    ∃ w', (view.storage.perform (.updateRule id change (some (.int r.version)))).run w =
        ((takes change r.version).map fun _ =>
          some (r.changed (view.kept change) tree w.clock.text), w') ∧
      view.Becomes w { records w.store with
        rules := match takes change r.version with
          | .ok _ => (records w.store).rules.put (.text s)
              (r.changed (view.kept change) tree w.clock.text)
          | .error _ => (records w.store).rules } w' := by
  change view.Shelved Rule.id (w.store.rules.rows.relabel Key.text RuleRow.record) at hshelved
  simp only [records, Shelf.get?_relabel text_injective, Option.map_eq_some_iff] at hr
  obtain ⟨row, hr, rfl⟩ := hr
  have hid : row.id = s := Value.text.inj (id_of_shelved hshelved hr).1
  have hperform (b : Bool) (t : World Tables) (hb : (changeRule id change
      (some (.int row.version))).run w = (.ok b, t)) :
      (view.storage.perform (.updateRule id change (some (.int row.record.version)))).run w =
        (if b then getRule id else pure none : Op _ _).run t :=
    Op.run_bind_ok hb
  rcases run_changeRule h hn hr hc ht with ⟨e, he, hrun⟩ | ⟨hok, new, hnew, hread, hrun⟩
  · have htakes : takes change row.record.version = .error e := he
    rw [htakes]
    exact ⟨w, Op.run_bind_error hrun, becomes h⟩
  · have htakes : takes change row.record.version = .ok () := hok
    have hw := h.withRule (s := row.id) hread
    rw [htakes, ← hnew]
    refine ⟨{ w with store := w.store.withRule row.id new }, ?_, ?_⟩
    · rw [hperform true _ hrun, if_pos rfl, run_getRule hw.toReadsRules,
        View.look_of_name (name_congr hn), records_withRule, hid]
      simp [Shelf.get?_put, Except.map]
    · rw [← hid]
      exact records_withRule ▸ becomes hw

/-- A text that a change sets is kept as its column has it. -/
theorem tag_of_set {operation : Operation} {x? : Option Value} {new : Option (Option String)}
    {set : Option String} (h : x?.mapM (fun x => boundCell operation (Cell.text x)) = .ok new)
    (hs : new.mapM (requiredCell operation) = .ok set) (old : String) :
    Value.text (set.getD old) = (x?.map tag).getD (.text old) := by
  cases x? with
  | none =>
    cases h
    cases hs
    rfl
  | some x =>
    change some <$> boundCell operation (Cell.text x) = _ at h
    rcases hb : boundCell operation (Cell.text x) with e | cell
    · simp [hb] at h
    · rw [hb] at h
      cases h
      cases cell with
      | none => cases hs
      | some s =>
        cases hs
        exact (tag_of_bound hb rfl).symm

theorem accepted_of_mapM_boundCell {operation : Operation} {x? : Option Value} {e : Error}
    (h : x?.mapM (fun x => boundCell operation (Cell.text x)) = .error e) :
    e.isRejection = false := by
  cases x? with
  | none => cases h
  | some x =>
    change some <$> boundCell operation (Cell.text x) = _ at h
    rcases hb : boundCell operation (Cell.text x) with e' | cell <;> rw [hb] at h <;> cases h
    exact accepted_of_boundCell hb

theorem accepted_of_setText {operation : Operation} {new : Option (Option String)} {old : String}
    {e : Error} (h : (new.mapM (requiredCell operation)).map (·.getD old) = .error e) :
    e.isRejection = false := by
  rcases new with _ | _ | s <;> cases h
  rfl

theorem set_of_setText {operation : Operation} {new : Option (Option String)} {old s : String}
    (h : (new.mapM (requiredCell operation)).map (·.getD old) = .ok s) :
    ∃ set, new.mapM (requiredCell operation) = .ok set ∧ s = set.getD old := by
  rcases hm : new.mapM (requiredCell operation) with e | set <;> rw [hm] at h <;> cases h
  exact ⟨set, rfl, rfl⟩

/-- A change of a vulnerability that is not made leaves everything as it was. -/
theorem triple_changeVulnerability {id : Value} {change : VulnerabilityChange}
    (hc : change.IsWorkflow) :
    Triple (changeVulnerability id change) w
      (fun b w' => match b with
        | false => w' = w
        | true => ∃ s row, view.name .updateVulnerability id = .ok (some s) ∧
            w.store.vulnerabilities.rows.get? s = some row ∧ ∃ new : VulnerabilityRow,
              row.toVulnerability.Same new.toVulnerability ∧
              new.toVulnerability.status =
                (change.status.map tag).getD row.toVulnerability.status ∧
              (change.createdAt = none → new.createdAt = row.createdAt) ∧
              w' = { w with store := w.store.withVulnerability row.id new })
      (fun e w' => e.isRejection = false ∧ w' = w) := by
  unfold changeVulnerability
  simp only [hc.others, List.isEmpty_nil, Bool.not_true, Bool.false_eq_true, if_false]
  refine Triple.bind_run (World.run_now w) <| Triple.bind_run (World.run_stored _) ?_
  unfold prepare
  split
  case isFalse => exact Triple.throw ⟨rfl, rfl⟩
  simp only [pure_bind, hc.id, hc.ruleId, hc.assessmentId, hc.propertyId, hc.detectedAt,
    Option.mapM_none, mapM_bindText_eq, bindText_eq, notNull_eq, setText_eq, Option.getD_none]
  -- all the values are bound before the row is looked for
  refine Triple.bind_check (fun _ he => ⟨accepted_of_mapM_boundCell he, rfl⟩) fun status hstatus => ?_
  refine Triple.bind_check (fun _ he => ⟨accepted_of_mapM_boundCell he, rfl⟩) fun typeId _ => ?_
  refine Triple.bind_check (fun _ he => ⟨accepted_of_mapM_boundCell he, rfl⟩) fun valueId _ => ?_
  refine Triple.bind_check (fun _ he => ⟨accepted_of_mapM_boundCell he, rfl⟩) fun words _ => ?_
  refine Triple.bind_check (fun _ he => ⟨accepted_of_mapM_boundCell he, rfl⟩) fun notes _ => ?_
  refine Triple.bind_check (fun _ he => ⟨accepted_of_mapM_boundCell he, rfl⟩) fun created? hmade => ?_
  refine Triple.bind_check (fun _ he => ⟨accepted_of_boundCell he, rfl⟩) fun updatedAt _ => ?_
  refine Triple.bind_check (fun _ he => ⟨accepted_of_boundCell he, rfl⟩) fun s? hs => ?_
  split
  · exact Triple.pure rfl
  · rename_i row hrow
    obtain ⟨s, rfl, hrow⟩ := Option.bind_eq_some_iff.mp hrow
    have hkeep (a : String) : (Op.ofExcept (Except.map (fun x => x.getD a) (pure none)) :
        Op (World Tables) String) = pure a := rfl
    have hmove (new : VulnerabilityRow) :
        moveRow .updateVulnerability w.store.vulnerabilities row.id row.id new =
          pure { w.store.vulnerabilities with
            rows := w.store.vulnerabilities.rows.put row.id new } := if_pos rfl
    simp only [hkeep, pure_bind, hmove]
    unfold numberNotNull
    split
    · exact Triple.throw ⟨rfl, rfl⟩
    · rw [pure_bind]
      refine Triple.bind_check (fun _ he => ⟨accepted_of_setText he, rfl⟩) fun status hset => ?_
      refine Triple.bind_check (fun _ he => ⟨accepted_of_setText he, rfl⟩) fun createdAt hcreated => ?_
      refine Triple.bind_check (fun _ he => ⟨accepted_of_requiredCell he, rfl⟩) fun updatedAt _ => ?_
      refine Triple.of_run rfl ⟨s, row, hs, hrow, _, ?_, ?_, fun hnone => ?_, rfl⟩
      · exact ⟨rfl, rfl, rfl, rfl, rfl, fun _ => ⟨_, rfl⟩⟩
      · obtain ⟨set, hnew, rfl⟩ := set_of_setText hset
        exact tag_of_set hstatus hnew _
      · rw [hnone] at hmade
        cases hmade
        cases hcreated
        rfl

theorem triple_updateVulnerability (h : Whole w.store)
    (hshelved : view.Shelved Vulnerability.id (records w.store).vulnerabilities) {id : Value}
    {change : VulnerabilityChange} (hc : change.IsWorkflow) :
    Triple (view.storage.perform (.updateVulnerability id change)) w
      (fun y? w' => match y? with
        | none => w' = w
        | some y => ∃ s x, (records w.store).vulnerabilities.get? (.text s) = some x ∧
            x.Same y ∧ view.Becomes w { records w.store with
              vulnerabilities := (records w.store).vulnerabilities.put (.text s) y } w')
      (fun _ w' => w' = w) := by
  refine ((triple_changeVulnerability hc).mono (fun _ _ h => h) fun _ _ he => he.2).bind ?_
  rintro (_ | _) w' hw'
  · exact Triple.pure hw'
  · obtain ⟨s, row, hs, hrow, new, hsame, -, -, rfl⟩ := hw'
    have hid : row.id = s := Value.text.inj (id_of_shelved hshelved hrow).1
    have hw : Whole (w.store.withVulnerability row.id new) := h.withVulnerability
    have hget : (records w.store).vulnerabilities.get? (.text s) = some row.toVulnerability := by
      simp only [records, Shelf.get?_relabel text_injective, hrow, Option.map_some]
    refine Triple.of_run (a := some new.toVulnerability)
      (t := { w with store := w.store.withVulnerability row.id new }) ?_
      ⟨s, row.toVulnerability, hget, hsame, ?_⟩
    · show (getVulnerability id).run _ = _
      rw [run_getVulnerability hw, View.look_of_name (name_congr hs), records_withVulnerability, hid]
      simp [Shelf.get?_put]
    · rw [← hid]
      exact records_withVulnerability ▸ becomes hw

/-! ## Catalogs -/

/-- A world that differs from another one in its catalogs at most. -/
def CatalogsOnly (w w' : World Tables) : Prop :=
  ∃ m, m.rules = (records w.store).rules ∧ m.vulnerabilities = (records w.store).vulnerabilities ∧
    m.assessments = (records w.store).assessments ∧ view.Becomes w m w'

theorem triple_idOr (h : Whole w.store) (given : Value) :
    Triple (World.idOr given) w
      (fun _ t => t.store = w.store ∧ view.Becomes w (records w.store) t)
      (fun _ => CatalogsOnly w) := by
  unfold World.idOr
  split
  · exact Triple.pure ⟨rfl, becomes h⟩
  · exact Triple.bind_run (World.run_fresh w) (Triple.pure ⟨rfl, becomes_issued h⟩)

/-- The end of every statement that files a record in a catalog. -/
theorem keeps_filed {t : World Tables} (ht : CatalogsOnly w t) {operation : Operation}
    {table : Table α} {id : String} {row : α} {set : Table α → Tables} {a : β}
    (hset : ∀ new : Table α, new.state = table.state → Whole (set new) ∧
      (records (set new)).rules = (records w.store).rules ∧
      (records (set new)).vulnerabilities = (records w.store).vulnerabilities ∧
      (records (set new)).assessments = (records w.store).assessments) :
    Keeps (CatalogsOnly w) (do
      let new ← Tables.insert operation table id row
      World.save (set new)
      return a) t := by
  unfold Tables.insert
  split
  · exact Triple.of_run_error rfl ht
  · obtain ⟨m, -, -, -, hb⟩ := ht
    obtain ⟨hw, hr, hv, ha⟩ := hset { table with rows := table.rows.put id row } rfl
    exact Triple.of_run rfl ⟨_, hr, hv, ha, hw, rfl, hb.clock, hb.idOf, hb.issued⟩

theorem keeps_insertObservationType (h : Whole w.store) (d : ObservationTypeDraft) :
    Keeps (CatalogsOnly w) (insertObservationType d) w := by
  refine (triple_idOr h d.id).bind fun given t ⟨hs, hb⟩ => ?_
  have ht : CatalogsOnly w t := ⟨_, rfl, rfl, rfl, hb⟩
  refine Triple.bind_run (World.run_stored t) ?_
  rw [hs, prepare_whole h.observationTypes]
  simp only [pure_bind, bindText_eq, notNull_eq]
  refine Triple.bind_ofExcept (fun _ => ht) fun id _ => ?_
  refine Triple.bind_ofExcept (fun _ => ht) fun name _ => ?_
  refine Triple.bind_ofExcept (fun _ => ht) fun description _ => ?_
  refine Triple.bind_ofExcept (fun _ => ht) fun kind _ => ?_
  refine Triple.bind_ofExcept (fun _ => ht) fun id _ => ?_
  refine Triple.bind_ofExcept (fun _ => ht) fun name _ => ?_
  refine Triple.bind_ofExcept (fun _ => ht) fun kind _ => ?_
  refine keeps_filed ht fun new hn => ⟨?_, rfl, rfl, rfl⟩
  exact { h with observationTypes := hn.trans h.observationTypes }

theorem keeps_insertObservationValue (h : Whole w.store) (d : ObservationValueDraft) :
    Keeps (CatalogsOnly w) (insertObservationValue d) w := by
  refine (triple_idOr h d.id).bind fun given t ⟨hs, hb⟩ => ?_
  have ht : CatalogsOnly w t := ⟨_, rfl, rfl, rfl, hb⟩
  refine Triple.bind_run (World.run_stored t) ?_
  rw [hs, prepare_whole h.observationValues]
  simp only [pure_bind, bindText_eq, notNull_eq]
  refine Triple.bind_ofExcept (fun _ => ht) fun id _ => ?_
  refine Triple.bind_ofExcept (fun _ => ht) fun typeId _ => ?_
  refine Triple.bind_ofExcept (fun _ => ht) fun value _ => ?_
  refine Triple.bind_ofExcept (fun _ => ht) fun description _ => ?_
  refine Triple.bind_ofExcept (fun _ => ht) fun id _ => ?_
  refine Triple.bind_ofExcept (fun _ => ht) fun typeId _ => ?_
  refine Triple.bind_ofExcept (fun _ => ht) fun value _ => ?_
  refine keeps_filed ht fun new hn => ⟨?_, rfl, rfl, rfl⟩
  exact { h with observationValues := hn.trans h.observationValues }

theorem keeps_insertMitigationType (h : Whole w.store) (d : MitigationTypeDraft) :
    Keeps (CatalogsOnly w) (insertMitigationType d) w := by
  refine (triple_idOr h d.id).bind fun given t ⟨hs, hb⟩ => ?_
  have ht : CatalogsOnly w t := ⟨_, rfl, rfl, rfl, hb⟩
  refine Triple.bind_run (World.run_stored t) ?_
  rw [hs, prepare_whole h.mitigationTypes]
  simp only [pure_bind, bindText_eq, notNull_eq]
  refine Triple.bind_ofExcept (fun _ => ht) fun id _ => ?_
  refine Triple.bind_ofExcept (fun _ => ht) fun name _ => ?_
  refine Triple.bind_ofExcept (fun _ => ht) fun description _ => ?_
  refine Triple.bind_ofExcept (fun _ => ht) fun kind _ => ?_
  refine Triple.bind_ofExcept (fun _ => ht) fun id _ => ?_
  refine Triple.bind_ofExcept (fun _ => ht) fun name _ => ?_
  refine Triple.bind_ofExcept (fun _ => ht) fun kind _ => ?_
  refine keeps_filed ht fun new hn => ⟨?_, rfl, rfl, rfl⟩
  exact { h with mitigationTypes := hn.trans h.mitigationTypes }

theorem keeps_insertMitigationValue (h : Whole w.store) (d : MitigationValueDraft) :
    Keeps (CatalogsOnly w) (insertMitigationValue d) w := by
  refine (triple_idOr h d.id).bind fun given t ⟨hs, hb⟩ => ?_
  have ht : CatalogsOnly w t := ⟨_, rfl, rfl, rfl, hb⟩
  refine Triple.bind_run (World.run_stored t) ?_
  rw [hs, prepare_whole h.mitigationValues]
  simp only [pure_bind, bindText_eq, notNull_eq]
  refine Triple.bind_ofExcept (fun _ => ht) fun id _ => ?_
  refine Triple.bind_ofExcept (fun _ => ht) fun typeId _ => ?_
  refine Triple.bind_ofExcept (fun _ => ht) fun value _ => ?_
  refine Triple.bind_ofExcept (fun _ => ht) fun description _ => ?_
  refine Triple.bind_ofExcept (fun _ => ht) fun category _ => ?_
  refine Triple.bind_ofExcept (fun _ => ht) fun id _ => ?_
  refine Triple.bind_ofExcept (fun _ => ht) fun typeId _ => ?_
  refine Triple.bind_ofExcept (fun _ => ht) fun value _ => ?_
  refine Triple.bind_ofExcept (fun _ => ht) fun category _ => ?_
  refine keeps_filed ht fun new hn => ⟨?_, rfl, rfl, rfl⟩
  exact { h with mitigationValues := hn.trans h.mitigationValues }

theorem keeps_catalogs (h : Whole w.store) {r : Request α} (hr : r.isCatalogWrite) :
    Keeps (CatalogsOnly w) (view.storage.perform r) w := by
  cases r <;> first
    | exact absurd hr Bool.false_ne_true
    | skip
  case createObservationType d => exact keeps_insertObservationType h d
  case createObservationValue d => exact keeps_insertObservationValue h d
  case createMitigationType d =>
    refine (keeps_insertMitigationType h d).bind fun id t ht => ?_
    have hq : Op.Quiet (getMitigationType id) :=
      (quiet_selectOne _ _ _).bind fun _ => .pure _
    refine Op.Quiet.keeps (Op.Quiet.bind hq fun found => ?_) ht
    cases found with
    | none => exact .throw _
    | some type => exact .pure type
  case createMitigationValue d => exact keeps_insertMitigationValue h d

end Tables

theorem Tables.lawful : Tables.view.Lawful where
  plain_stamp := Time.isWhole_text _
  column_text h := by simp [Tables.view, Cell.text_text h, Value.ofText?]
  column_null := rfl
  flag_bool := rfl
  tree_of_read := Criteria.readable_of_read
  noted_of_read := Engine.typeId_ne_of_readObservationList
  name_text h := Tables.name_text h
  text_of_name h := Tables.text_of_name h
  name_congr _ h := Tables.name_congr h
  now := rfl
  reads := Tables.quiet_of_isRead
  getRule _ hw := Tables.run_getRule hw.whole.toReadsRules
  getAssessment _ hw := Tables.run_getAssessment hw.whole
  listRules {w} hw := by
    refine ⟨_, ?_, Tables.run_listRules hw.whole.toReadsRules⟩
    show List.Perm _ (Shelf.records (Shelf.relabel _ _ _))
    rw [Shelf.records_relabel]
    exact (List.mergeSort_perm _ _).map _
  listRulesEffectiveAt := rfl
  listForRule {w id s} hw _ hn := by
    refine ⟨_, ?_, Tables.run_listForRule hw.whole.vulnerabilities hn⟩
    show List.Perm _ ((Shelf.records (Shelf.relabel _ _ _)).filter _)
    rw [Shelf.records_relabel, List.filter_map]
    refine (Tables.byDetection_perm _).trans (.of_eq ?_)
    congr 1
    refine List.filter_congr fun row _ => ?_
    simp [VulnerabilityRow.toVulnerability, eq_comm]
  listForProperty {w p} hw _ hp := by
    refine ⟨_, ?_, Tables.run_listForProperty hw.whole.vulnerabilities hp.1⟩
    show List.Perm _ ((Shelf.records (Shelf.relabel _ _ _)).filter _)
    rw [Shelf.records_relabel, List.filter_map]
    exact Tables.byDetection_perm _
  createRule hw hs hd := by
    refine (Tables.triple_createRule hw.whole.toReadsRules (hs.plain _) hd).mono ?_ ?_
    · rintro r w' ⟨rfl, hissued, -, hb⟩
      exact ⟨rfl, rfl, hissued, hb.becomes hw.whole⟩
    · rintro e w' ⟨-, rfl⟩
      exact Tables.becomes_issued hw.whole
  updateRule _ _ hw hn hr hc ht := Tables.run_updateRule hw.whole hw.kept.rules hn hr hc ht
  deleteRule _ hw :=
    let ⟨w', hrun, _, hb⟩ := Tables.run_deleteRule hw.whole.toReadsRules _
    ⟨w', hrun, hb.becomes hw.whole⟩
  createVulnerability {w ruleId assessmentId p} hw hs hr ha hp := by
    have hnew : w.store.vulnerabilities.rows.get? (w.idOf (w.issued + 1)) = none := by
      refine Shelf.get?_eq_none_iff.mpr fun hm => hs.unused _ (Nat.lt_succ_self _) (.inr (.inl ?_))
      show _ ∈ Shelf.keys (Shelf.relabel _ _ _)
      rw [Shelf.keys_relabel]
      exact List.mem_map.mpr ⟨_, hm, rfl⟩
    refine ⟨_, Tables.run_createVulnerability hw.whole.vulnerabilities (hs.plain _) hr ha hp hnew,
      rfl, ?_⟩
    let row := Tables.openedRow (w.idOf (w.issued + 1)) ruleId assessmentId p w.clock.text
    have hwhole : Tables.Whole (w.store.withVulnerability (w.idOf (w.issued + 1)) row) :=
      hw.whole.withVulnerability
    have hb := Tables.becomes_issued (w := w) hwhole
    rwa [Tables.records_withVulnerability] at hb
  updateVulnerability _ _ hw hc :=
    Tables.triple_updateVulnerability hw.whole hw.kept.vulnerabilities hc
  deleteVulnerability _ hw := Tables.run_deleteVulnerability hw.whole _
  createAssessment hw hs hd := (Tables.triple_createAssessment hw.whole (hs.plain _) hd).mono
    (fun _ _ ⟨hid, hos, _, hp, hissued, hb⟩ => ⟨hid, hos, hp, hissued, hb⟩) fun _ _ he => he.2
  catalogs hw hr := Tables.keeps_catalogs hw.whole hr

end PropertyRisk
