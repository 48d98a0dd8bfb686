import PropertyRisk.Proofs.Upkeep

/-!
# What requests leave alone

A request writes records of one kind at most. `Backing.keeps_beside`: what does not depend
on the records of this kind stays the same, whatever the request ends in and whatever else
is wrong with the store.
-/

namespace PropertyRisk

open Op (Triple Keeps Quiet)

/-- A later state of a world that agrees with it in what `keep` makes of the store. -/
def World.Beside (keep : S → β) (w w' : World S) : Prop :=
  w.Follows w' ∧ keep w'.store = keep w.store

namespace World.Beside

variable {keep : S → β} {w t : World S}

theorem refl (keep : S → β) (w : World S) : w.Beside keep w := ⟨.refl w, rfl⟩

theorem issued : w.Beside keep { w with issued := w.issued + 1 } :=
  ⟨⟨rfl, rfl, Nat.le_succ _⟩, rfl⟩

theorem save (h : w.Beside keep t) {s : S} (hs : keep s = keep w.store) :
    w.Beside keep { t with store := s } :=
  ⟨⟨h.1.clock, h.1.idOf, h.1.issued⟩, hs⟩

end World.Beside

/-- `keep` does not depend on the records that a request writes. -/
def Request.Spares (keep : Memory → β) : Request α → Prop
  | createRule _ | updateRule .. | deleteRule _ => ∀ m rules, keep { m with rules } = keep m
  | createVulnerability _ | updateVulnerability .. | deleteVulnerability _ =>
    ∀ m vulnerabilities, keep { m with vulnerabilities } = keep m
  | createAssessment _ => ∀ m assessments, keep { m with assessments } = keep m
  | createObservationType _ => ∀ m observationTypes, keep { m with observationTypes } = keep m
  | createObservationValue _ => ∀ m observationValues, keep { m with observationValues } = keep m
  | createMitigationType _ => ∀ m mitigationTypes, keep { m with mitigationTypes } = keep m
  | createMitigationValue _ => ∀ m mitigationValues, keep { m with mitigationValues } = keep m
  | _ => True

/-! ## In memory -/

namespace Memory

variable {keep : Memory → β} {w : World Memory}

section

variable (hk : ∀ m rules, keep { m with rules } = keep m)
include hk

theorem beside_updateRule (id : Value) (change : RuleChange) (expected : Option Value) :
    Keeps (w.Beside keep) (updateRule id change expected) w := by
  have h := World.Beside.refl keep w
  refine Triple.bind (Triple.orElse (Q := fun _ w' => w' = w) (fun _ _ => rfl) fun _ _ => h) ?_
  rintro tree w' rfl
  refine Triple.bind_run (World.run_stored w') (Triple.bind_ofExcept (fun _ => h) fun found _ => ?_)
  cases found with
  | none => exact Triple.pure h
  | some current =>
    simp only
    split
    · exact Triple.pure h
    split
    · exact Triple.throw h
    refine Triple.bind_run (World.run_now w') (Triple.bind_ofExcept (fun _ => h) fun rules _ => ?_)
    exact Triple.of_run rfl (h.save (hk _ _))

theorem beside_deleteRule (id : Value) : Keeps (w.Beside keep) (deleteRule id) w := by
  have h := World.Beside.refl keep w
  refine Triple.bind_run (World.run_stored w) (Triple.bind_ofExcept (fun _ => h) fun found _ => ?_)
  refine Triple.bind_ofExcept (fun _ => h) fun rules _ => ?_
  exact Triple.of_run rfl (h.save (hk _ _))

end

section

variable (hk : ∀ m vulnerabilities, keep { m with vulnerabilities } = keep m)
include hk

theorem beside_updateVulnerability (id : Value) (change : VulnerabilityChange) :
    Keeps (w.Beside keep) (updateVulnerability id change) w := by
  have h := World.Beside.refl keep w
  refine Triple.bind_run (World.run_stored w) (Triple.bind_ofExcept (fun _ => h) fun found _ => ?_)
  cases found with
  | none => exact Triple.pure h
  | some current =>
    simp only
    split
    · exact Triple.throw h
    refine Triple.bind_run (World.run_now w) (Triple.bind_ofExcept (fun _ => h) fun found _ => ?_)
    exact Triple.of_run rfl (h.save (hk _ _))

theorem beside_deleteVulnerability (id : Value) :
    Keeps (w.Beside keep) (deleteVulnerability id) w := by
  have h := World.Beside.refl keep w
  refine Triple.bind_run (World.run_stored w) (Triple.bind_ofExcept (fun _ => h) fun found _ => ?_)
  refine Triple.bind_ofExcept (fun _ => h) fun rest _ => ?_
  exact Triple.of_run rfl (h.save (hk _ _))

end

theorem beside_filed {given : Value} {make : Value → α} {idOf : α → Value}
    {shelf : Memory → Shelf Key α} {set : Memory → Shelf Key α → Memory}
    (hset : ∀ m s, keep (set m s) = keep m) :
    Keeps (w.Beside keep) (filed given make idOf shelf set) w := by
  refine Keeps.bind (x := World.idOr given) (I := w.Beside keep) ?_ fun id t h => ?_
  · unfold World.idOr
    split
    · exact Triple.pure (.refl keep w)
    · exact Triple.bind_run (World.run_fresh w) (Triple.pure .issued)
  · refine Triple.bind_run (World.run_stored t) (Triple.bind_ofExcept (fun _ => h) fun s _ => ?_)
    exact Triple.of_run rfl (h.save ((hset _ _).trans h.2))

theorem keeps_beside {r : Request α} (h : r.Spares keep) :
    Keeps (w.Beside keep) (view.storage.perform r) w := by
  cases r with
  | createRule d => exact Keeps.of_run rfl ⟨⟨rfl, rfl, Nat.le_succ _⟩, h _ _⟩
  | updateRule id change expected => exact beside_updateRule h id change expected
  | deleteRule id => exact beside_deleteRule h id
  | createVulnerability d => exact Keeps.of_run rfl ⟨⟨rfl, rfl, Nat.le_succ _⟩, h _ _⟩
  | updateVulnerability id change => exact beside_updateVulnerability h id change
  | deleteVulnerability id => exact beside_deleteVulnerability h id
  | createAssessment d => exact Keeps.of_run rfl ⟨⟨rfl, rfl, Nat.le_succ _⟩, h _ _⟩
  | createObservationType | createObservationValue | createMitigationType | createMitigationValue =>
    exact beside_filed h
  | _ => exact (quiet_of_isRead rfl).keeps (.refl keep w)

end Memory

/-! ## In tables -/

namespace Tables

variable {keep : Tables → β} {w t : World Tables}

/-- `keep` does not depend on the rows that a request writes. -/
def Spares (keep : Tables → β) : Request α → Prop
  | .createRule _ | .updateRule .. | .deleteRule _ =>
    ∀ t rows, keep { t with rules := { t.rules with rows } } = keep t
  | .createVulnerability _ | .updateVulnerability .. | .deleteVulnerability _ =>
    ∀ t rows, keep { t with vulnerabilities := { t.vulnerabilities with rows } } = keep t
  | .createAssessment _ => ∀ t rows, keep { t with assessments := { t.assessments with rows } } = keep t
  | .createObservationType _ =>
    ∀ t rows, keep { t with observationTypes := { t.observationTypes with rows } } = keep t
  | .createObservationValue _ =>
    ∀ t rows, keep { t with observationValues := { t.observationValues with rows } } = keep t
  | .createMitigationType _ =>
    ∀ t rows, keep { t with mitigationTypes := { t.mitigationTypes with rows } } = keep t
  | .createMitigationValue _ =>
    ∀ t rows, keep { t with mitigationValues := { t.mitigationValues with rows } } = keep t
  | _ => True

/-- What does not depend on some records does not depend on their rows. -/
theorem spares_records {keep : Memory → β} {r : Request α} (h : r.Spares keep) :
    Spares (fun t => keep (records t)) r := by
  cases r <;> first
    | exact fun t _ => h (records t) _
    | exact trivial

theorem quiet_reread {self : Storage τ} {r : Request (Option α)} (h : Quiet (self.perform r)) :
    Quiet (reread self r) := by
  refine h.bind fun found => ?_
  cases found
  · exact .throw _
  · exact .pure _

theorem numberNotNull_eq (operation : Operation) (x : Value) : numberNotNull operation x =
    Op.ofExcept (if x = .null then .error (.storage ⟨operation, .database⟩) else .ok x) := by
  unfold numberNotNull
  split <;> rfl

/-- The end of every statement that adds a row. -/
theorem beside_added (h : w.Beside keep t) {operation : Operation} {table : Table α} {id : String}
    {row : α} {set : Table α → Tables} {a : γ}
    (hset : ∀ rows, keep (set { table with rows }) = keep w.store) :
    Keeps (w.Beside keep) (do
      let new ← Tables.insert operation table id row
      World.save (set new)
      return a) t := by
  unfold Tables.insert
  split
  · exact Triple.of_run_error rfl h
  · exact Triple.of_run rfl (h.save (hset _))

/-- The end of every statement that takes a row away. -/
theorem beside_erased (operation : Operation) {table : Table α} {id : Value}
    (set : Table α → Tables) (hset : ∀ rows, keep (set { table with rows }) = keep w.store) :
    Keeps (w.Beside keep) (do
      let (table, found) ← eraseRow operation table id
      World.save (set table)
      return found) w := by
  have h := World.Beside.refl keep w
  unfold eraseRow
  rw [bind_assoc]
  refine Keeps.bind ((quiet_prepare _ _ _).keeps h) fun _ t h => ?_
  simp only [bindText_eq, bind_assoc]
  refine Triple.bind_ofExcept (fun _ => h) fun id? _ => ?_
  cases id? with
  | none => exact Triple.of_run rfl (h.save (hset table.rows))
  | some s => exact Triple.of_run rfl (h.save (hset _))

/-! ### Rules -/

section

variable (hk : ∀ t rows, keep { t with rules := { t.rules with rows } } = keep t)
include hk

theorem beside_insertRule (d : RuleDraft) : Keeps (w.Beside keep) (insertRule d) w := by
  refine Triple.bind_run (World.run_now w) <| Triple.bind_run (World.run_fresh w) <|
    Triple.bind_run (World.run_stored _) ?_
  refine Keeps.bind ((quiet_prepare _ _ _).keeps World.Beside.issued) fun _ t h => ?_
  simp only [bindText_eq, notNull_eq]
  iterate 7 refine Triple.bind_ofExcept (fun _ => h) fun _ _ => ?_
  exact beside_added h fun _ => hk _ _

theorem beside_changeRule (id : Value) (change : RuleChange) (expected : Option Value) :
    Keeps (w.Beside keep) (changeRule id change expected) w := by
  have h := World.Beside.refl keep w
  refine Triple.bind (Triple.orElse (Q := fun _ w' => w' = w) (fun _ _ => rfl) fun _ _ => h) ?_
  rintro tree w' rfl
  refine Triple.bind_run (World.run_stored w') ?_
  refine Keeps.bind ((quiet_prepare _ _ _).keeps h) fun _ t h => ?_
  simp only [bindText_eq, mapM_bindText_eq, mapM_bindNumber_eq, setText_eq]
  iterate 6 refine Triple.bind_ofExcept (fun _ => h) fun _ _ => ?_
  split
  · exact Triple.pure h
  split
  · exact Triple.pure h
  iterate 3 refine Triple.bind_ofExcept (fun _ => h) fun _ _ => ?_
  refine Triple.bind_run (World.run_now t) ?_
  exact Triple.of_run rfl (h.save (hk _ _))

theorem beside_deleteRule (id : Value) : Keeps (w.Beside keep) (deleteRule id) w :=
  Triple.bind_run (World.run_stored w)
    (beside_erased .deleteRule (fun rules => { w.store with rules }) fun _ => hk _ _)

end

/-! ### Vulnerabilities -/

section

variable (hk : ∀ t rows, keep { t with vulnerabilities := { t.vulnerabilities with rows } } = keep t)
include hk

theorem beside_insertVulnerability (d : VulnerabilityDraft) :
    Keeps (w.Beside keep) (insertVulnerability d) w := by
  refine Triple.bind_run (World.run_now w) <| Triple.bind_run (World.run_fresh w) <|
    Triple.bind_run (World.run_stored _) ?_
  refine Keeps.bind ((quiet_prepare _ _ _).keeps World.Beside.issued) fun _ t h => ?_
  simp only [bindText_eq, bindNumber_eq, notNull_eq, numberNotNull_eq]
  iterate 14 refine Triple.bind_ofExcept (fun _ => h) fun _ _ => ?_
  exact beside_added h fun _ => hk _ _

theorem beside_changeVulnerability (id : Value) (change : VulnerabilityChange) :
    Keeps (w.Beside keep) (changeVulnerability id change) w := by
  have h := World.Beside.refl keep w
  unfold changeVulnerability
  simp only
  split
  · exact Triple.throw h
  refine Triple.bind_run (World.run_now w) <| Triple.bind_run (World.run_stored w) ?_
  refine Keeps.bind ((quiet_prepare _ _ _).keeps h) fun _ t h => ?_
  simp only [bindText_eq, mapM_bindText_eq, mapM_bindNumber_eq, setText_eq, notNull_eq,
    numberNotNull_eq]
  iterate 13 refine Triple.bind_ofExcept (fun _ => h) fun _ _ => ?_
  split
  · exact Triple.pure h
  iterate 8 refine Triple.bind_ofExcept (fun _ => h) fun _ _ => ?_
  -- the row stays where it was, or it is inserted anew
  unfold moveRow
  split
  · exact Triple.of_run rfl (h.save (hk _ _))
  · exact beside_added h fun _ => hk _ _

theorem beside_deleteVulnerability (id : Value) :
    Keeps (w.Beside keep) (deleteVulnerability id) w :=
  Triple.bind_run (World.run_stored w)
    (beside_erased .deleteVulnerability (fun vulnerabilities => { w.store with vulnerabilities })
      fun _ => hk _ _)

end

/-! ### Assessments -/

theorem beside_insertAssessment
    (hk : ∀ t rows, keep { t with assessments := { t.assessments with rows } } = keep t)
    (d : AssessmentDraft) : Keeps (w.Beside keep) (insertAssessment d) w := by
  refine Triple.bind_run (World.run_fresh w) <| Triple.bind_run (World.run_now _) <|
    Triple.bind_run (World.run_stored _) ?_
  refine Keeps.bind ((quiet_prepare _ _ _).keeps World.Beside.issued) fun _ t h => ?_
  simp only [bindText_eq, bindNumber_eq, notNull_eq, numberNotNull_eq]
  iterate 4 refine Triple.bind_ofExcept (fun _ => h) fun _ _ => ?_
  exact beside_added h fun _ => hk _ _

/-! ### Catalogs -/

/-- What follows once a record has its id. -/
theorem beside_given {given : Value} {f : Value → Tables → Op (World Tables) γ}
    (hf : ∀ id s t, w.Beside keep t → keep s = keep w.store →
      Keeps (w.Beside keep) (f id s) t) :
    Keeps (w.Beside keep) (do f (← World.idOr given) (← World.stored)) w := by
  refine Keeps.bind (x := World.idOr given) (I := w.Beside keep) ?_ fun id t h => ?_
  · unfold World.idOr
    split
    · exact Triple.pure (.refl keep w)
    · exact Triple.bind_run (World.run_fresh w) (Triple.pure .issued)
  · exact Triple.bind_run (World.run_stored t) (hf id _ t h h.2)

theorem beside_insertObservationType
    (hk : ∀ t rows, keep { t with observationTypes := { t.observationTypes with rows } } = keep t)
    (d : ObservationTypeDraft) : Keeps (w.Beside keep) (insertObservationType d) w := by
  refine beside_given fun given s t h hs => ?_
  refine Keeps.bind ((quiet_prepare _ _ _).keeps h) fun _ t h => ?_
  simp only [bindText_eq, notNull_eq]
  iterate 7 refine Triple.bind_ofExcept (fun _ => h) fun _ _ => ?_
  exact beside_added h fun _ => (hk _ _).trans hs

theorem beside_insertObservationValue
    (hk : ∀ t rows, keep { t with observationValues := { t.observationValues with rows } } = keep t)
    (d : ObservationValueDraft) : Keeps (w.Beside keep) (insertObservationValue d) w := by
  refine beside_given fun given s t h hs => ?_
  refine Keeps.bind ((quiet_prepare _ _ _).keeps h) fun _ t h => ?_
  simp only [bindText_eq, notNull_eq]
  iterate 7 refine Triple.bind_ofExcept (fun _ => h) fun _ _ => ?_
  exact beside_added h fun _ => (hk _ _).trans hs

theorem beside_insertMitigationType
    (hk : ∀ t rows, keep { t with mitigationTypes := { t.mitigationTypes with rows } } = keep t)
    (d : MitigationTypeDraft) : Keeps (w.Beside keep) (insertMitigationType d) w := by
  refine beside_given fun given s t h hs => ?_
  refine Keeps.bind ((quiet_prepare _ _ _).keeps h) fun _ t h => ?_
  simp only [bindText_eq, notNull_eq]
  iterate 7 refine Triple.bind_ofExcept (fun _ => h) fun _ _ => ?_
  exact beside_added h fun _ => (hk _ _).trans hs

theorem beside_insertMitigationValue
    (hk : ∀ t rows, keep { t with mitigationValues := { t.mitigationValues with rows } } = keep t)
    (d : MitigationValueDraft) : Keeps (w.Beside keep) (insertMitigationValue d) w := by
  refine beside_given fun given s t h hs => ?_
  refine Keeps.bind ((quiet_prepare _ _ _).keeps h) fun _ t h => ?_
  simp only [bindText_eq, notNull_eq]
  iterate 9 refine Triple.bind_ofExcept (fun _ => h) fun _ _ => ?_
  exact beside_added h fun _ => (hk _ _).trans hs

theorem keeps_beside {r : Request α} (h : Spares keep r) :
    Keeps (w.Beside keep) (view.storage.perform r) w := by
  cases r with
  | createRule d =>
    exact (beside_insertRule h d).bind fun _ _ ht =>
      (quiet_reread (r := .getRule _) (quiet_getRule _)).keeps ht
  | updateRule id change expected =>
    refine (beside_changeRule h id change expected).bind fun found t ht => ?_
    cases found
    · exact Triple.pure ht
    · exact (quiet_getRule id).keeps ht
  | deleteRule id => exact beside_deleteRule h id
  | createVulnerability d =>
    exact (beside_insertVulnerability h d).bind fun _ _ ht => (quiet_reread
      (r := .getVulnerability _) ((quiet_selectOne _ _ _).bind fun _ => .pure _)).keeps ht
  | updateVulnerability id change =>
    refine (beside_changeVulnerability h id change).bind fun found t ht => ?_
    have hquiet : Quiet (getVulnerability id) := (quiet_selectOne _ _ _).bind fun _ => .pure _
    cases found
    · exact Triple.pure ht
    · exact hquiet.keeps ht
  | deleteVulnerability id => exact beside_deleteVulnerability h id
  | createAssessment d =>
    exact (beside_insertAssessment h d).bind fun _ _ ht =>
      (quiet_reread (r := .getAssessment _) (quiet_getAssessment _)).keeps ht
  | createObservationType d => exact beside_insertObservationType h d
  | createObservationValue d => exact beside_insertObservationValue h d
  | createMitigationType d =>
    exact (beside_insertMitigationType h d).bind fun _ _ ht => (quiet_reread
      (r := .getMitigationType _) ((quiet_selectOne _ _ _).bind fun _ => .pure _)).keeps ht
  | createMitigationValue d => exact beside_insertMitigationValue h d
  | _ => exact (quiet_of_isRead rfl).keeps (.refl keep w)

end Tables

/-! ## Either store -/

theorem Backing.keeps_beside {keep : Memory → β} {r : Request α} (h : r.Spares keep) :
    ∀ (b : Backing) {w : World b.Store},
      Keeps (w.Beside fun s => keep (b.view.records s)) (b.storage.perform r) w
  | memory, _ => Memory.keeps_beside h
  | tables, _ => Tables.keeps_beside (Tables.spares_records h)

end PropertyRisk
