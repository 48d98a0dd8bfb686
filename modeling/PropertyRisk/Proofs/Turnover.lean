import PropertyRisk.Proofs.Catalogued

/-!
# What becomes of records

`World.Turnover` says what may have become of the records on a shelf between two states of a
world, and where others may have come from: they are under ids that were issued in between.
So what is gone stays gone, and turnovers can be joined. Of the records that are only ever
added, an `Archive` loses and changes none (`Backing.keeps_archive`).
-/

namespace PropertyRisk

open Op (Triple Keeps)

/-! ## Turnovers -/

/-- Between two states, a record under a key may have become what `keeps` says, or be gone where
`drops` says so; a new one can be there only if `adds`, under an id that was issued since. -/
structure World.Turnover (shelf : S → Shelf Key α) (keeps : Key → α → α → Prop)
    (drops : Key → α → Prop) (adds : Prop) (w w' : World S) : Prop where
  idOf : w'.idOf = w.idOf
  issued : w.issued ≤ w'.issued
  old : ∀ k a, (shelf w.store).get? k = some a →
    (∃ a', (shelf w'.store).get? k = some a' ∧ keeps k a a') ∨
      (shelf w'.store).get? k = none ∧ drops k a
  new : ∀ k a, (shelf w.store).get? k = none → (shelf w'.store).get? k = some a →
    adds ∧ ∃ n, w.issued < n ∧ n ≤ w'.issued ∧ k = .text (w.idOf n)

namespace World.Turnover

variable {shelf : S → Shelf Key α} {keeps keeps' : Key → α → α → Prop}
  {drops drops' : Key → α → Prop} {adds adds' : Prop} {w w' w'' : World S} {k : Key} {a b : α}

section

variable (hkeeps : ∀ k a, keeps k a a) (hf : w.Follows w')
include hkeeps hf

theorem of_eq (h : shelf w'.store = shelf w.store) : w.Turnover shelf keeps drops adds w' where
  idOf := hf.idOf
  issued := hf.issued
  old k a ha := .inl ⟨a, h ▸ ha, hkeeps k a⟩
  new k a hnone ha := by
    rw [h] at ha
    exact nomatch hnone.symm.trans ha

/-- A record has been put in the place of another one. -/
theorem of_put (ha : (shelf w.store).get? k = some a) (hab : keeps k a b)
    (h : shelf w'.store = (shelf w.store).put k b) : w.Turnover shelf keeps drops adds w' where
  idOf := hf.idOf
  issued := hf.issued
  old j c hc := by
    rw [h, Shelf.get?_put]
    by_cases hj : j = k
    · subst hj
      cases ha.symm.trans hc
      exact .inl ⟨b, if_pos rfl, hab⟩
    · exact .inl ⟨c, (if_neg hj).trans hc, hkeeps j c⟩
  new j c hnone hc := by
    rw [h, Shelf.get?_put] at hc
    split at hc
    · rename_i hj
      subst hj
      cases hnone.symm.trans ha
    · cases hnone.symm.trans hc

/-- A record has been put under the next id. -/
theorem of_put_next (hnone : (shelf w.store).get? (.text (w.idOf (w.issued + 1))) = none)
    (hadds : adds) (hissued : w'.issued = w.issued + 1)
    (h : shelf w'.store = (shelf w.store).put (.text (w.idOf (w.issued + 1))) b) :
    w.Turnover shelf keeps drops adds w' where
  idOf := hf.idOf
  issued := hf.issued
  old j c hc := by
    rw [h, Shelf.get?_put]
    by_cases hj : j = .text (w.idOf (w.issued + 1))
    · exact nomatch (hj ▸ hnone).symm.trans hc
    · exact .inl ⟨c, (if_neg hj).trans hc, hkeeps j c⟩
  new j c hnone hc := by
    rw [h, Shelf.get?_put] at hc
    split at hc
    · rename_i hj
      exact ⟨hadds, w.issued + 1, Nat.lt_succ_self _, Nat.le_of_eq hissued.symm, hj⟩
    · exact nomatch hnone.symm.trans hc

theorem of_erase (hdrops : ∀ a, (shelf w.store).get? k = some a → drops k a)
    (h : shelf w'.store = (shelf w.store).erase k) : w.Turnover shelf keeps drops adds w' where
  idOf := hf.idOf
  issued := hf.issued
  old j c hc := by
    rw [h, Shelf.get?_erase]
    by_cases hj : j = k
    · subst hj
      exact .inr ⟨if_pos rfl, hdrops c hc⟩
    · exact .inl ⟨c, (if_neg hj).trans hc, hkeeps j c⟩
  new j c hnone hc := by
    rw [h, Shelf.get?_erase] at hc
    split at hc
    · cases hc
    · cases hnone.symm.trans hc

end

/-- A turnover is one under weaker conditions as well. -/
theorem mono (h : w.Turnover shelf keeps drops adds w')
    (hkeeps : ∀ k a b, keeps k a b → keeps' k a b) (hdrops : ∀ k a, drops k a → drops' k a)
    (hadds : adds → adds') : w.Turnover shelf keeps' drops' adds' w' where
  idOf := h.idOf
  issued := h.issued
  old k a ha := (h.old k a ha).imp (fun ⟨b, hb, hab⟩ => ⟨b, hb, hkeeps k a b hab⟩)
    fun ⟨hnone, hdrop⟩ => ⟨hnone, hdrops k a hdrop⟩
  new k a hnone ha := (h.new k a hnone ha).imp hadds fun hn => hn

/-- The keys of a shelf are ids that have been issued, also after a turnover. -/
theorem keysIssued (h : w.Turnover shelf keeps drops adds w') (hw : w.Issued (shelf w.store)) :
    w'.Issued (shelf w'.store) := by
  intro k hk
  rw [h.idOf]
  obtain ⟨a, ha⟩ := Shelf.exists_get?_of_mem_keys hk
  cases hold : (shelf w.store).get? k with
  | none =>
    obtain ⟨-, n, -, hn, hkey⟩ := h.new k a hold ha
    exact ⟨n, hn, hkey⟩
  | some b =>
    obtain ⟨n, hn, hkey⟩ := hw k (Shelf.mem_keys_of_get? hold)
    exact ⟨n, Nat.le_trans hn h.issued, hkey⟩

/-- Where nothing is under an id that has been issued, nothing will be. -/
theorem stays_gone (h : w.Turnover shelf keeps drops adds w') (hinj : Function.Injective w.idOf)
    {n : Nat} (hn : n ≤ w.issued) (hnone : (shelf w.store).get? (.text (w.idOf n)) = none) :
    (shelf w'.store).get? (.text (w.idOf n)) = none := by
  by_contra hsome
  obtain ⟨a, ha⟩ := Option.ne_none_iff_exists'.mp hsome
  obtain ⟨-, m, hm, -, hkey⟩ := h.new _ a hnone ha
  have hnm : n = m := hinj (Key.text.inj hkey)
  omega

/-- Two turnovers, one after the other. -/
theorem trans (h : w.Turnover shelf keeps drops adds w') (h' : w'.Turnover shelf keeps drops adds w'')
    (hw : w.Issued (shelf w.store)) (hinj : Function.Injective w.idOf)
    (htrans : ∀ k a b c, keeps k a b → keeps k b c → keeps k a c)
    (hdrops : ∀ k a b, keeps k a b → drops k b → drops k a) :
    w.Turnover shelf keeps drops adds w'' where
  idOf := h'.idOf.trans h.idOf
  issued := Nat.le_trans h.issued h'.issued
  old k a ha := by
    rcases h.old k a ha with ⟨b, hb, hab⟩ | ⟨hnone, hdrop⟩
    · rcases h'.old k b hb with ⟨c, hc, hbc⟩ | ⟨hnone, hdrop⟩
      · exact .inl ⟨c, hc, htrans k a b c hab hbc⟩
      · exact .inr ⟨hnone, hdrops k a b hab hdrop⟩
    · -- what went first had an id that is not issued again
      obtain ⟨n, hn, rfl⟩ := hw k (Shelf.mem_keys_of_get? ha)
      rw [← h.idOf] at hnone ⊢
      exact .inr ⟨h'.stays_gone (h.idOf ▸ hinj) (Nat.le_trans hn h.issued) hnone, h.idOf ▸ hdrop⟩
  new k c hnone hc := by
    cases hb : (shelf w'.store).get? k with
    | none =>
      obtain ⟨hadds, n, hlt, hle, hkey⟩ := h'.new k c hb hc
      exact ⟨hadds, n, Nat.lt_of_le_of_lt h.issued hlt, hle, h.idOf ▸ hkey⟩
    | some b =>
      obtain ⟨hadds, n, hlt, hle, hkey⟩ := h.new k b hnone hb
      exact ⟨hadds, n, hlt, Nat.le_trans hle h'.issued, hkey⟩

end World.Turnover

/-! ## Archives -/

/-- A kind of record that is added, and neither changed nor removed. -/
inductive Archive : Type → Type
  | assessments : Archive Assessment
  | observationTypes : Archive ObservationType
  | observationValues : Archive ObservationValue
  | mitigationTypes : Archive MitigationType
  | mitigationValues : Archive MitigationValue

namespace Archive

def shelf : Archive α → Memory → Shelf Key α
  | assessments => Memory.assessments
  | observationTypes => Memory.observationTypes
  | observationValues => Memory.observationValues
  | mitigationTypes => Memory.mitigationTypes
  | mitigationValues => Memory.mitigationValues

/-- The operation that adds a record. -/
def adding : Archive α → Operation
  | assessments => .createAssessment
  | observationTypes => .createObservationType
  | observationValues => .createObservationValue
  | mitigationTypes => .createMitigationType
  | mitigationValues => .createMitigationValue

theorem spares (A : Archive α) {r : Request β} (h : r.operation ≠ A.adding) : r.Spares A.shelf := by
  cases A <;> cases r <;> first
    | exact trivial
    | exact fun _ _ => rfl
    | exact absurd rfl h

end Archive

/-- A request that leaves the choice of an id to the store. -/
def Request.IsUnnamed : Request α → Prop
  | createObservationType d => d.id = .null
  | createObservationValue d => d.id = .null
  | createMitigationType d => d.id = .null
  | createMitigationValue d => d.id = .null
  | _ => True

/-- A world whose store is the same, or has one more record on a shelf. -/
def World.Grows (w : World S) (shelf : S → Shelf Key α) (w' : World S) : Prop :=
  w'.store = w.store ∨ w.Gains shelf (fun _ => True) w'

namespace Memory

theorem keeps_grows (A : Archive α) {w : World Memory} {r : Request β}
    (hadds : r.operation = A.adding) (hr : r.IsUnnamed) :
    Keeps (w.Grows A.shelf) (view.storage.perform r) w := by
  cases A <;> cases r <;> try cases hadds
  case assessments.createAssessment d => exact Keeps.of_run rfl (.inr ⟨rfl, _, trivial, rfl⟩)
  case observationTypes.createObservationType d =>
    have hrun := congrArg (·.run w) (hr ▸ createObservationType_eq d)
    exact Keeps.of_run (hrun.trans (run_filed rfl)) (.inr ⟨rfl, d.withId _, trivial, rfl⟩)
  case observationValues.createObservationValue d =>
    have hrun := congrArg (·.run w) (hr ▸ createObservationValue_eq d)
    exact Keeps.of_run (hrun.trans (run_filed rfl)) (.inr ⟨rfl, d.withId _, trivial, rfl⟩)
  case mitigationTypes.createMitigationType d =>
    have hrun := congrArg (·.run w) (hr ▸ createMitigationType_eq d)
    exact Keeps.of_run (hrun.trans (run_filed rfl)) (.inr ⟨rfl, d.withId _, trivial, rfl⟩)
  case mitigationValues.createMitigationValue d =>
    have hrun := congrArg (·.run w) (hr ▸ createMitigationValue_eq d)
    exact Keeps.of_run (hrun.trans (run_filed rfl)) (.inr ⟨rfl, d.withId _, trivial, rfl⟩)

end Memory

namespace Tables

variable {w : World Tables}

theorem whole_of_allows {table : Table α} (h : table.allows .everyColumn = true) :
    table.state = .whole := by
  rcases table with ⟨rows, _ | column | _⟩ <;> first
    | rfl
    | cases h

/-- An assessment is inserted as a row of its own, with the document of its observations. -/
theorem triple_insertAssessment_row (d : AssessmentDraft) :
    Triple (insertAssessment d) w
      (fun id w' => id = w.idOf (w.issued + 1) ∧ w.store.assessments.state = .whole ∧
        ∃ row : AssessmentRow, row.id = id ∧ view.Settled row.propertyId ∧
          .text row.assessedAt = tag (d.assessedAt.orElse (.text w.clock.text)) ∧
          row.observations = Observation.listToValue d.observations ∧
          w' = { w with store := w.store.withAssessment id row, issued := w.issued + 1 })
      (fun _ w' => w' = { w with issued := w.issued + 1 }) := by
  refine Triple.bind_run (World.run_fresh w) <| Triple.bind_run (World.run_now _) <|
    Triple.bind_run (World.run_stored _) ?_
  unfold prepare
  split
  case isFalse => exact Triple.throw rfl
  rename_i hallows
  simp only [pure_bind, bindText_eq, bindNumber_eq, notNull_eq]
  refine Triple.bind_ofExcept (fun _ => rfl) fun p hp => ?_
  refine Triple.bind_ofExcept (fun _ => rfl) fun time? htime? => ?_
  unfold numberNotNull
  split
  · exact Triple.throw rfl
  rename_i hnull
  refine Triple.bind_run (Op.run_pure _ _)
    (Triple.bind_ofExcept (fun _ => rfl) fun time htime => ?_)
  unfold Tables.insert
  split
  · exact Triple.of_run_error rfl rfl
  · exact Triple.of_run rfl ⟨rfl, whole_of_allows hallows, _, rfl,
      ⟨Cell.number_of_number (boundCell_eq_ok.mp hp), hnull⟩, (tag_of_bound htime? htime).symm,
      rfl, rfl⟩

theorem gains_insertAssessment (d : AssessmentDraft) :
    Triple (insertAssessment d) w
      (fun _ => w.Gains (fun t => (records t).assessments) fun a =>
        a.id = .text (w.idOf (w.issued + 1)) ∧ view.Settled a.propertyId ∧
          a.assessedAt = tag (d.assessedAt.orElse (.text w.clock.text)))
      (fun _ w' => w'.store = w.store) := by
  refine (triple_insertAssessment_row d).mono ?_ ?_
  · rintro id w' ⟨rfl, -, row, hid, hp, htime, -, rfl⟩
    exact ⟨rfl, row.record, ⟨congrArg Value.text hid, hp, htime⟩,
      congrArg Memory.assessments records_withAssessment⟩
  · rintro e w' rfl
    rfl

theorem keeps_grows (A : Archive α) {r : Request β} (hadds : r.operation = A.adding)
    (hr : r.IsUnnamed) (hs : view.Plain (w.idOf (w.issued + 1))) :
    Keeps (w.Grows fun t => A.shelf (records t)) (view.storage.perform r) w := by
  cases A <;> cases r <;> try cases hadds
  -- an assessment and a mitigation type are read again; the row stays if that fails
  case assessments.createAssessment d =>
    refine (Keeps.of_triple (gains_insertAssessment d) ?_ fun _ _ => .inl).bind
      fun _ _ ht => (quiet_reread (r := .getAssessment _) (quiet_getAssessment _)).keeps ht
    exact fun _ _ ⟨hissued, a, _, hput⟩ => .inr ⟨hissued, a, trivial, hput⟩
  case observationTypes.createObservationType d =>
    exact Keeps.of_triple (triple_insertObservationType hr hs)
      (fun _ _ hg => .inr (hg.imp fun _ _ => trivial)) fun _ _ => .inl
  case observationValues.createObservationValue d =>
    exact Keeps.of_triple (triple_insertObservationValue hr hs)
      (fun _ _ hg => .inr (hg.imp fun _ _ => trivial)) fun _ _ => .inl
  case mitigationTypes.createMitigationType d =>
    have hquiet (id : Value) : Op.Quiet (getMitigationType id) :=
      (quiet_selectOne _ _ _).bind fun _ => .pure _
    exact (Keeps.of_triple (triple_insertMitigationType hr hs) (fun _ _ => .inr)
      fun _ _ => .inl).bind fun _ _ ht =>
        (quiet_reread (r := .getMitigationType _) (hquiet _)).keeps ht
  case mitigationValues.createMitigationValue d =>
    exact Keeps.of_triple (triple_insertMitigationValue hr hs) (fun _ _ => .inr) fun _ _ => .inl

end Tables

namespace Backing

variable {b : Backing} {w : World b.Store}

theorem keeps_grows : ∀ (b : Backing) (A : Archive α) {w : World b.Store} {r : Request β},
    r.operation = A.adding → r.IsUnnamed → b.view.Plain (w.idOf (w.issued + 1)) →
    Keeps (w.Grows fun s => A.shelf (b.view.records s)) (b.storage.perform r) w
  | memory, A, _, _, hadds, hr, _ => Memory.keeps_grows A hadds hr
  | tables, A, _, _, hadds, hr, hs => Tables.keeps_grows A hadds hr hs

/-- Time and the supply of ids only go on. -/
theorem keeps_follows (b : Backing) {w : World b.Store} (r : Request α) :
    Keeps (fun w' => w.Follows w') (b.storage.perform r) w := by
  have hspares : r.Spares fun _ => () := by
    cases r <;> first
      | exact trivial
      | exact fun _ _ => rfl
  exact (b.keeps_beside hspares).imp fun _ ht => ht.1

/-- What may have become of the records of an archive: nothing. -/
abbrev Archives (b : Backing) (A : Archive α) (w w' : World b.Store) : Prop :=
  w.Turnover (fun s => A.shelf (b.view.records s)) (fun _ a a' => a' = a) (fun _ _ => False) True w'

theorem Archives.refl (A : Archive α) (w : World b.Store) : b.Archives A w w :=
  .of_eq (fun _ _ => rfl) (.refl w) rfl

/-- A request adds a record to an archive at most. -/
theorem keeps_archive (A : Archive α) (hinj : Function.Injective w.idOf)
    (hplain : ∀ n, b.view.Plain (w.idOf n)) (hw : w.Issued (A.shelf (b.view.records w.store)))
    {r : Request β} (hr : r.IsUnnamed) : Keeps (b.Archives A w) (b.storage.perform r) w := by
  by_cases hadds : r.operation = A.adding
  · -- the request adds to this archive: the next id is new on its shelf
    have hturn (w' : World b.Store) (hf : w.Follows w')
        (hg : w.Grows (fun s => A.shelf (b.view.records s)) w') : b.Archives A w w' := by
      rcases hg with hsame | ⟨hissued, a, -, hput⟩
      · exact .of_eq (fun _ _ => rfl) hf (by rw [hsame])
      · exact .of_put_next (fun _ _ => rfl) hf (hw.next_unused hinj) trivial hissued hput
    exact ((b.keeps_follows r).both (b.keeps_grows A hadds hr (hplain _))).imp fun w' ht =>
      hturn w' ht.1 ht.2
  · exact (b.keeps_beside (A.spares hadds)).imp fun _ ht => .of_eq (fun _ _ => rfl) ht.1 ht.2

end Backing

end PropertyRisk
