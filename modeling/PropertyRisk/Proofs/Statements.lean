import PropertyRisk.Proofs.Triple
import PropertyRisk.Store.Tables

/-!
# Statements

A statement in the database looks and binds first and writes at its end, so one that fails
has written nothing. `Preliminary` is a step that leaves the store as it is, `Atomic` a
statement made of such steps and a write at the end. The failures of either bear the name of
one operation.
-/

namespace PropertyRisk

open Op (Triple)

/-- An error with the store as it was; a failure of the storage is one of `operation`. -/
def Refused (operation : Operation) (s : S) (e : Error) (w : World S) : Prop :=
  w.store = s ∧ ∀ failure, e = .storage failure → failure.operation = operation

/-- A step of an operation that leaves the store as it is. -/
def Preliminary (operation : Operation) (x : Op (World S) α) : Prop :=
  ∀ w, Triple x w (fun _ t => t.store = w.store) (Refused operation w.store)

/-- An operation that has written nothing if it fails. -/
def Atomic (operation : Operation) (x : Op (World S) α) : Prop :=
  ∀ w, Triple x w (fun _ _ => True) (Refused operation w.store)

namespace Preliminary

variable {operation : Operation} {x : Op (World S) α} {f : α → Op (World S) β}

theorem pure (a : α) : Preliminary operation (pure a : Op (World S) α) := fun _ => Triple.pure rfl

theorem fail (h : ∀ failure, e = .storage failure → failure.operation = operation) :
    Preliminary operation (throw e : Op (World S) α) :=
  fun _ => Triple.throw ⟨rfl, h⟩

theorem bind (hx : Preliminary operation x) (hf : ∀ a, Preliminary operation (f a)) :
    Preliminary operation (x >>= f) := by
  intro w
  refine (hx w).bind fun a t ht => ?_
  have h := hf a t
  rwa [ht] at h

theorem now : Preliminary operation (World.now : Op (World S) String) :=
  fun w => Triple.of_run (World.run_now w) rfl

theorem fresh : Preliminary operation (World.fresh : Op (World S) String) :=
  fun w => Triple.of_run (World.run_fresh w) rfl

theorem stored : Preliminary operation (World.stored : Op (World S) S) :=
  fun w => Triple.of_run (World.run_stored w) rfl

theorem idOr (given : Value) : Preliminary operation (World.idOr given : Op (World S) Value) := by
  unfold World.idOr
  split
  · exact pure _
  · exact fresh.bind fun _ => pure _

theorem orElse {wrap : ε → Error} (h : ∀ e failure, wrap e ≠ .storage failure)
    (r : Except ε α) : Preliminary operation (Op.orElse wrap r : Op (World S) α) := by
  cases r with
  | ok a => exact pure a
  | error e => exact fail fun _ he => absurd he (h e _)

theorem refuse : Preliminary operation (Tables.refuse operation : Op (World Tables) α) :=
  fail fun _ he => by cases he; rfl

theorem prepare (touch : Touch) (t : Table α) :
    Preliminary operation (Tables.prepare operation touch t) := by
  unfold Tables.prepare
  split
  · exact pure ()
  · exact refuse

theorem bound (cell : Except Cell.Refusal α) : Preliminary operation (Tables.bound operation cell) := by
  unfold Tables.bound
  split
  · exact pure _
  · exact refuse
  · exact fail nofun
  · exact fail nofun

theorem bindText (v : Value) : Preliminary operation (Tables.bindText operation v) := bound _

theorem bindNumber (v : Value) : Preliminary operation (Tables.bindNumber operation v) := bound _

theorem notNull (cell : Option α) : Preliminary operation (Tables.notNull operation cell) := by
  cases cell
  · exact refuse
  · exact pure _

theorem numberNotNull (v : Value) : Preliminary operation (Tables.numberNotNull operation v) := by
  unfold Tables.numberNotNull
  split
  · exact refuse
  · exact pure v

theorem setText (new : Option (Option String)) (old : String) :
    Preliminary operation (Tables.setText operation new old) := by
  cases new
  · exact pure old
  · exact notNull _

theorem insert (t : Table α) (id : String) (row : α) :
    Preliminary operation (Tables.insert operation t id row) := by
  unfold Tables.insert
  split
  · exact refuse
  · exact pure _

theorem moveRow (t : Table α) (old new : String) (row : α) :
    Preliminary operation (Tables.moveRow operation t old new row) := by
  unfold Tables.moveRow
  split
  · exact pure _
  · exact insert _ _ _

theorem eraseRow (t : Table α) (id : Value) :
    Preliminary operation (Tables.eraseRow operation t id) :=
  (prepare _ _).bind fun _ => (bindText id).bind fun found => by cases found <;> exact pure _

theorem ofExcept {r : Except Error α} (h : ∀ failure, r ≠ .error (.storage failure)) :
    Preliminary operation (Op.ofExcept r : Op (World S) α) := by
  cases r with
  | ok a => exact pure a
  | error e => exact fail fun failure he => absurd (he ▸ rfl) (h failure)

theorem selectOne (table : Tables → Table α) (id : Value) :
    Preliminary operation (Tables.selectOne operation table id) :=
  stored.bind fun _ => (prepare _ _).bind fun _ => (bindText id).bind fun _ => pure _

/-- A column that a change may set or not. -/
theorem set {f : Value → Op (World S) β} (hf : ∀ v, Preliminary operation (f v)) :
    ∀ v? : Option Value, Preliminary operation (v?.mapM f)
  | none => pure none
  | some v => (hf v).bind fun _ => pure _

end Preliminary

namespace Atomic

variable {operation : Operation} {x : Op (World S) α} {f : α → Op (World S) β}

theorem of_preliminary (hx : Preliminary operation x) : Atomic operation x :=
  fun w => (hx w).mono (fun _ _ _ => trivial) fun _ _ h => h

theorem bind (hx : Preliminary operation x) (hf : ∀ a, Atomic operation (f a)) :
    Atomic operation (x >>= f) := by
  intro w
  refine (hx w).bind fun a t ht => ?_
  have h := hf a t
  rwa [ht] at h

/-- What a statement does at its end: it writes. -/
theorem save (s : S) (a : α) : Atomic operation (do World.save s; return a : Op (World S) α) :=
  fun _ => Triple.of_run rfl trivial

end Atomic

/-! ## The statements of the store -/

namespace Tables

theorem atomic_insertRule (d : RuleDraft) : Atomic .createRule (insertRule d) :=
  .bind .now fun _ => .bind .fresh fun _ => .bind .stored fun _ => .bind (.prepare _ _) fun _ =>
  .bind (.bindText _) fun _ => .bind (.bindText _) fun _ => .bind (.bindText _) fun _ =>
  .bind (.bindText _) fun _ => .bind (.notNull _) fun _ => .bind (.notNull _) fun _ =>
  .bind (.notNull _) fun _ => .bind (.insert _ _ _) fun _ => .save _ _

theorem atomic_changeRule (id : Value) (change : RuleChange) (expected : Option Value) :
    Atomic .updateRule (changeRule id change expected) :=
  -- a rule that is not there, or of another version, is answered without a write
  .bind (.orElse nofun _) fun _ => .bind .stored fun s => .bind (.prepare _ _) fun _ =>
  .bind (.set .bindText _) fun _ => .bind (.set .bindText _) fun _ =>
  .bind (.set .bindText _) fun _ => .bind (.set .bindText _) fun _ =>
  .bind (.bindText id) fun id => .bind (.set .bindNumber _) fun _ => by
    split
    · exact .of_preliminary (.pure _)
    split
    · exact .of_preliminary (.pure _)
    · exact .bind (.setText _ _) fun _ => .bind (.setText _ _) fun _ => .bind (.setText _ _) fun _ =>
        .bind .now fun _ => .save _ _

theorem atomic_deleteRule (id : Value) : Atomic .deleteRule (deleteRule id) :=
  .bind .stored fun _ => .bind (.eraseRow _ _) fun _ => .save _ _

theorem atomic_insertVulnerability (d : VulnerabilityDraft) :
    Atomic .createVulnerability (insertVulnerability d) :=
  .bind .now fun _ => .bind .fresh fun _ => .bind .stored fun _ => .bind (.prepare _ _) fun _ =>
  .bind (.bindText _) fun _ => .bind (.bindText _) fun _ => .bind (.bindNumber _) fun _ =>
  .bind (.bindText _) fun _ => .bind (.bindText _) fun _ => .bind (.bindText _) fun _ =>
  .bind (.bindText _) fun _ => .bind (.bindText _) fun _ => .bind (.bindText _) fun _ =>
  .bind (.notNull _) fun _ => .bind (.notNull _) fun _ => .bind (.numberNotNull _) fun _ =>
  .bind (.notNull _) fun _ => .bind (.notNull _) fun _ => .bind (.insert _ _ _) fun _ => .save _ _

theorem atomic_changeVulnerability (id : Value) (change : VulnerabilityChange) :
    Atomic .updateVulnerability (changeVulnerability id change) := by
  unfold changeVulnerability
  simp only
  split
  · exact .of_preliminary .refuse
  exact .bind .now fun _ => .bind .stored fun s => .bind (.prepare _ _) fun _ =>
    .bind (.set .bindText _) fun _ => .bind (.set .bindText _) fun _ =>
    .bind (.set .bindText _) fun _ => .bind (.set .bindNumber _) fun _ =>
    .bind (.set .bindText _) fun _ => .bind (.set .bindText _) fun _ =>
    .bind (.set .bindText _) fun _ => .bind (.set .bindText _) fun _ =>
    .bind (.set .bindText _) fun _ => .bind (.set .bindText _) fun _ =>
    .bind (.set .bindText _) fun _ => .bind (.bindText _) fun _ => .bind (.bindText id) fun id => by
      split
      · exact .of_preliminary (.pure _)
      · exact .bind (.setText _ _) fun _ => .bind (.setText _ _) fun _ =>
          .bind (.setText _ _) fun _ => .bind (.numberNotNull _) fun _ =>
          .bind (.setText _ _) fun _ => .bind (.setText _ _) fun _ =>
          .bind (.setText _ _) fun _ => .bind (.notNull _) fun _ =>
          .bind (.moveRow _ _ _ _) fun _ => .save _ _

theorem atomic_deleteVulnerability (id : Value) :
    Atomic .deleteVulnerability (deleteVulnerability id) :=
  .bind .stored fun _ => .bind (.eraseRow _ _) fun _ => .save _ _

theorem atomic_insertAssessment (d : AssessmentDraft) :
    Atomic .createAssessment (insertAssessment d) :=
  .bind .fresh fun _ => .bind .now fun _ => .bind .stored fun _ => .bind (.prepare _ _) fun _ =>
  .bind (.bindNumber _) fun _ => .bind (.bindText _) fun _ => .bind (.numberNotNull _) fun _ =>
  .bind (.notNull _) fun _ => .bind (.insert _ _ _) fun _ => .save _ _

theorem atomic_insertObservationType (d : ObservationTypeDraft) :
    Atomic .createObservationType (insertObservationType d) :=
  .bind (.idOr _) fun _ => .bind .stored fun _ => .bind (.prepare _ _) fun _ =>
  .bind (.bindText _) fun _ => .bind (.bindText _) fun _ => .bind (.bindText _) fun _ =>
  .bind (.bindText _) fun _ => .bind (.notNull _) fun _ => .bind (.notNull _) fun _ =>
  .bind (.notNull _) fun _ => .bind (.insert _ _ _) fun _ => .save _ _

theorem atomic_insertObservationValue (d : ObservationValueDraft) :
    Atomic .createObservationValue (insertObservationValue d) :=
  .bind (.idOr _) fun _ => .bind .stored fun _ => .bind (.prepare _ _) fun _ =>
  .bind (.bindText _) fun _ => .bind (.bindText _) fun _ => .bind (.bindText _) fun _ =>
  .bind (.bindText _) fun _ => .bind (.notNull _) fun _ => .bind (.notNull _) fun _ =>
  .bind (.notNull _) fun _ => .bind (.insert _ _ _) fun _ => .save _ _

theorem atomic_insertMitigationType (d : MitigationTypeDraft) :
    Atomic .createMitigationType (insertMitigationType d) :=
  .bind (.idOr _) fun _ => .bind .stored fun _ => .bind (.prepare _ _) fun _ =>
  .bind (.bindText _) fun _ => .bind (.bindText _) fun _ => .bind (.bindText _) fun _ =>
  .bind (.bindText _) fun _ => .bind (.notNull _) fun _ => .bind (.notNull _) fun _ =>
  .bind (.notNull _) fun _ => .bind (.insert _ _ _) fun _ => .save _ _

theorem atomic_insertMitigationValue (d : MitigationValueDraft) :
    Atomic .createMitigationValue (insertMitigationValue d) :=
  .bind (.idOr _) fun _ => .bind .stored fun _ => .bind (.prepare _ _) fun _ =>
  .bind (.bindText _) fun _ => .bind (.bindText _) fun _ => .bind (.bindText _) fun _ =>
  .bind (.bindText _) fun _ => .bind (.bindText _) fun _ => .bind (.notNull _) fun _ =>
  .bind (.notNull _) fun _ => .bind (.notNull _) fun _ => .bind (.notNull _) fun _ =>
  .bind (.insert _ _ _) fun _ => .save _ _

/-! ### Looking up a record -/

theorem preliminary_getRule (id : Value) : Preliminary .getRule (getRule id) := by
  refine (Preliminary.selectOne _ id).bind fun row? => ?_
  cases row? with
  | none => exact .pure none
  | some row =>
    -- a text that cannot be read back is an error, but none of the storage
    refine Preliminary.bind (.ofExcept fun failure h => ?_) fun _ => .pure _
    unfold RuleRow.toRule at h
    split at h <;> cases h

theorem preliminary_getVulnerability (id : Value) :
    Preliminary .getVulnerability (getVulnerability id) :=
  (Preliminary.selectOne _ id).bind fun _ => .pure _

/-- Where not all items pass, some item does not. -/
theorem exists_of_mapM_eq_error {f : α → Except ε β} {as : List α} {e : ε}
    (h : as.mapM f = .error e) : ∃ a, f a = .error e := by
  induction as with
  | nil => cases h
  | cons a rest ih =>
    rw [List.mapM_cons] at h
    rcases ha : f a with e' | b
    · rw [ha, error_bind] at h
      cases h
      exact ⟨a, ha⟩
    · rcases hrest : rest.mapM f with e' | bs
      · rw [ha, ok_bind, hrest, error_bind] at h
        exact ih (hrest.trans h)
      · rw [ha, ok_bind, hrest] at h
        cases h

theorem preliminary_getAssessment (id : Value) : Preliminary .getAssessment (getAssessment id) := by
  refine (Preliminary.selectOne _ id).bind fun row? => ?_
  cases row? with
  | none => exact .pure none
  | some row =>
    refine Preliminary.bind (.ofExcept fun failure h => ?_) fun _ => .pure _
    unfold AssessmentRow.toAssessment at h
    split at h
    · split at h
      · cases h
        obtain ⟨v, hv⟩ := exists_of_mapM_eq_error ‹_›
        split at hv <;> cases hv
      · cases h
    · cases h

theorem preliminary_getMitigationType (id : Value) :
    Preliminary .getMitigationType (getMitigationType id) :=
  (Preliminary.selectOne _ id).bind fun _ => .pure _

end Tables

end PropertyRisk
