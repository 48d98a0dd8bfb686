import PropertyRisk.Proofs.Frames
import PropertyRisk.Proofs.Legible

/-!
# The observation catalogs of a store

Observation types and values are only ever added. `Backing.Catalogued` is what requests keep
of the two catalogs: all ids there have been issued, so that a new record takes the place of
no old one, and the owner of a value is a text. `Backing.keeps_catalogued`: whatever is in the
catalogs before a request is there afterwards.
-/

namespace PropertyRisk

open Op (Triple Keeps)

/-! ## Ids that have been issued -/

/-- All keys of a shelf are ids that have been issued. -/
def World.Issued (w : World S) (shelf : Shelf Key α) : Prop :=
  ∀ k ∈ shelf.keys, ∃ n ≤ w.issued, k = .text (w.idOf n)

namespace World.Issued

variable {w w' : World S} {shelf : Shelf Key α}

theorem follow (h : w.Issued shelf) (hf : w.Follows w') : w'.Issued shelf := by
  intro k hk
  obtain ⟨n, hn, rfl⟩ := h k hk
  exact ⟨n, Nat.le_trans hn hf.issued, by rw [hf.idOf]⟩

/-- The next id is not in use. -/
theorem next_unused (h : w.Issued shelf) (hinj : Function.Injective w.idOf) :
    shelf.get? (.text (w.idOf (w.issued + 1))) = none := by
  refine Shelf.get?_eq_none_iff.mpr fun hk => ?_
  obtain ⟨n, hn, he⟩ := h _ hk
  have := hinj (Key.text.inj he)
  omega

theorem put (h : w.Issued shelf) (hf : w.Follows w') (hissued : w'.issued = w.issued + 1) (a : α) :
    w'.Issued (shelf.put (.text (w.idOf (w.issued + 1))) a) := by
  intro k hk
  rcases Shelf.mem_keys_put.mp hk with rfl | hold
  · exact ⟨w.issued + 1, Nat.le_of_eq hissued.symm, by rw [hf.idOf]⟩
  · exact h.follow hf k hold

/-- What is put under the next id leaves all else where it was. -/
theorem mem_put (h : w.Issued shelf) (hinj : Function.Injective w.idOf) {a b : α}
    (hb : b ∈ shelf.records) : b ∈ (shelf.put (.text (w.idOf (w.issued + 1))) a).records := by
  rw [Shelf.records_put_of_new (h.next_unused hinj)]
  exact List.mem_append_left _ hb

end World.Issued

/-! ## Catalogs that grow -/

/-- Whatever is in the observation catalogs of the one is in those of the other. -/
structure Memory.Extends (m m' : Memory) : Prop where
  types : ∀ t ∈ m.observationTypes.records, t ∈ m'.observationTypes.records
  values : ∀ v ∈ m.observationValues.records, v ∈ m'.observationValues.records

/-- The two observation catalogs. -/
def Memory.observations (m : Memory) : Shelf Key ObservationType × Shelf Key ObservationValue :=
  (m.observationTypes, m.observationValues)

theorem Memory.extends_of_eq {m m' : Memory} (h : m'.observations = m.observations) :
    m.Extends m' := by
  obtain ⟨htypes, hvalues⟩ := Prod.mk.inj h
  exact ⟨fun _ ht => htypes ▸ ht, fun _ hv => hvalues ▸ hv⟩

/-- Whether a request adds to an observation catalog. -/
def Request.addsObservations : Request α → Bool
  | createObservationType _ | createObservationValue _ => true
  | _ => false

theorem Request.spares_observations {r : Request α} (h : r.addsObservations = false) :
    r.Spares Memory.observations := by
  cases r <;> first
    | exact trivial
    | exact fun _ _ => rfl
    | exact Bool.noConfusion h

/-! ## Answers -/

/-- The records that an answer to a look into the observation catalogs may have. -/
def Memory.Answers (m : Memory) : {α : Type} → Request α → α → Prop
  | _, .getObservationTypes _, found => ∀ t ∈ found, t ∈ m.observationTypes.records
  | _, .getObservationValues _, found => ∀ v ∈ found, v ∈ m.observationValues.records
  | _, _, _ => True

namespace Memory

theorem mem_of_findAll {shelf : Shelf Key α} {ids : List Value} {found : List α}
    (h : findAll shelf ids = .ok found) :
    ∀ a ∈ found, ∃ id ∈ ids, find shelf id = .ok (some a) := by
  induction ids generalizing found with
  | nil =>
    cases h
    nofun
  | cons id rest ih =>
    unfold findAll at h
    split at h
    · cases h
    rename_i first hfirst
    split at h
    · cases h
    rename_i others hothers
    cases h
    intro a ha
    rcases List.mem_append.mp ha with ha | ha
    · refine ⟨id, List.mem_cons_self, ?_⟩
      rw [hfirst, Option.mem_toList.mp ha]
    · obtain ⟨id', hid, hfind⟩ := ih hothers a ha
      exact ⟨id', List.mem_cons_of_mem _ hid, hfind⟩

theorem TextKeys.text_of_find {shelf : Shelf Key α} (h : TextKeys shelf) {id : Value} {a : α}
    (hf : Memory.find shelf id = .ok (some a)) : ∃ s, id = .text s := by
  rw [h.find .getObservationTypes] at hf
  obtain ⟨s, hs, -⟩ := View.look_eq_some.mp hf
  exact ⟨s, eq_text_of_name hs⟩

end Memory

namespace Tables

variable {w : World Tables}

/-- What is selected by ids is among the rows. -/
theorem triple_selectByIds (operation : Operation) (table : Tables → Table α) (idOf : α → String)
    (ids : List Value) : Triple (selectByIds operation table idOf ids) w
      (fun found _ => ∀ row ∈ found, row ∈ (table w.store).rows.records) (fun _ _ => True) := by
  unfold selectByIds
  split
  · exact Triple.pure nofun
  refine Triple.bind (Q := fun rows _ => rows = (table w.store).rows.records) ?_ ?_
  · refine Triple.bind_run (World.run_stored w) ?_
    unfold prepare
    simp only
    split
    · exact Triple.pure rfl
    · exact Triple.throw trivial
  · rintro rows t rfl
    refine Triple.bind (Triple.mapM (I := fun _ => True) (fun id t _ => ?_) ids t trivial)
      fun found t _ => Triple.pure fun row hrow => ?_
    · rw [bindText_eq]
      exact Triple.ofExcept (fun _ _ => trivial) fun _ _ => trivial
    · exact List.mem_of_mem_filter (List.mem_mergeSort.mp hrow)

end Tables

namespace Backing

theorem triple_answers : ∀ (b : Backing) {w : World b.Store} (r : Request α),
    Triple (b.storage.perform r) w (fun a _ => (b.view.records w.store).Answers r a)
      (fun _ _ => True)
  | memory, w, r => by
    cases r with
    | getObservationTypes ids =>
      refine Triple.of_run_except
        (Memory.run_look (fun m => Memory.findAll m.observationTypes ids) w)
        (fun found hf t ht => ?_) fun _ _ => trivial
      obtain ⟨id, -, hfind⟩ := Memory.mem_of_findAll hf t ht
      exact Memory.mem_of_find hfind
    | getObservationValues ids =>
      refine Triple.of_run_except
        (Memory.run_look (fun m => Memory.findAll m.observationValues ids) w)
        (fun found hf v hv => ?_) fun _ _ => trivial
      obtain ⟨id, -, hfind⟩ := Memory.mem_of_findAll hf v hv
      exact Memory.mem_of_find hfind
    | _ => exact Triple.of_forall (fun _ _ _ => trivial) fun _ _ _ => trivial
  | tables, w, r => by
    cases r with
    | getObservationTypes ids =>
      refine (Tables.triple_selectByIds _ Tables.observationTypes _ ids).bind fun rows t hrows =>
        Triple.pure fun x hx => ?_
      obtain ⟨row, hrow, rfl⟩ := List.mem_map.mp hx
      show row.toType ∈ Shelf.records (Shelf.relabel _ _ _)
      rw [Shelf.records_relabel]
      exact List.mem_map_of_mem (hrows row hrow)
    | getObservationValues ids =>
      refine (Tables.triple_selectByIds _ Tables.observationValues _ ids).bind fun rows t hrows =>
        Triple.pure fun x hx => ?_
      obtain ⟨row, hrow, rfl⟩ := List.mem_map.mp hx
      show row.toValue ∈ Shelf.records (Shelf.relabel _ _ _)
      rw [Shelf.records_relabel]
      exact List.mem_map_of_mem (hrows row hrow)
    | _ => exact Triple.of_forall (fun _ _ _ => trivial) fun _ _ _ => trivial

end Backing

/-! ## Additions -/

/-- A world in which a shelf has a new record under the next id. -/
def World.Gains (w : World S) (shelf : S → Shelf Key α) (P : α → Prop) (w' : World S) : Prop :=
  w'.issued = w.issued + 1 ∧
    ∃ a, P a ∧ shelf w'.store = (shelf w.store).put (.text (w.idOf (w.issued + 1))) a

theorem World.Gains.imp {w w' : World S} {shelf : S → Shelf Key α} {P Q : α → Prop}
    (h : w.Gains shelf P w') (hpq : ∀ a, P a → Q a) : w.Gains shelf Q w' := by
  obtain ⟨hissued, a, ha, hput⟩ := h
  exact ⟨hissued, a, hpq a ha, hput⟩

/-- Whether an owner of a value will be kept as a text, if it is kept. -/
def Backing.Owns : Backing → Value → Prop
  | .memory, typeId => ∃ s, typeId = .text s
  | .tables, _ => True

namespace Tables

variable {w : World Tables}

theorem run_idOr_null (w : World S) : (World.idOr .null).run w =
    (.ok (.text (w.idOf (w.issued + 1))), { w with issued := w.issued + 1 }) := rfl

/-- The end of every statement that adds a row. -/
theorem triple_added {t : World Tables} {operation : Operation} {table : Table α} {id : String}
    {row : α} {set : Table α → Tables} {a : β} {Q E : World Tables → Prop} (he : E t)
    (hq : Q { t with store := set { table with rows := table.rows.put id row } }) :
    Triple (do
      let new ← Tables.insert operation table id row
      World.save (set new)
      return a) t (fun _ => Q) (fun _ => E) := by
  unfold Tables.insert
  split
  · exact Triple.of_run_error rfl he
  · exact Triple.of_run rfl hq

/-- An id that is issued is kept as it is. -/
theorem id_of_issued {operation : Operation} {s id : String} {cell : Option String}
    (hs : view.Plain s) (hbound : boundCell operation (Cell.text (.text s)) = .ok cell)
    (hid : requiredCell operation cell = .ok id) : id = s := by
  have hplain := boundCell_eq_ok.mp hbound
  rw [Cell.text_text hs] at hplain
  cases hplain
  cases requiredCell_eq_ok.mp hid
  rfl

theorem triple_insertObservationType {d : ObservationTypeDraft} (hid : d.id = .null)
    (hs : view.Plain (w.idOf (w.issued + 1))) :
    Triple (insertObservationType d) w
      (fun _ => w.Gains (fun t => (records t).observationTypes) fun x =>
        x.id = .text (w.idOf (w.issued + 1)))
      (fun _ w' => w'.store = w.store) := by
  unfold insertObservationType
  rw [hid]
  refine Triple.bind_run (run_idOr_null w) (Triple.bind_run (World.run_stored _) ?_)
  unfold prepare
  split
  case isFalse => exact Triple.throw rfl
  simp only [pure_bind, bindText_eq, notNull_eq]
  refine Triple.bind_ofExcept (fun _ => rfl) fun id? hid? => ?_
  iterate 3 refine Triple.bind_ofExcept (fun _ => rfl) fun _ _ => ?_
  refine Triple.bind_ofExcept (fun _ => rfl) fun id hid => ?_
  iterate 2 refine Triple.bind_ofExcept (fun _ => rfl) fun _ _ => ?_
  cases id_of_issued hs hid? hid
  exact triple_added rfl ⟨rfl, _, rfl, (Shelf.put_relabel text_injective).symm⟩

theorem triple_insertObservationValue {d : ObservationValueDraft} (hid : d.id = .null)
    (hs : view.Plain (w.idOf (w.issued + 1))) :
    Triple (insertObservationValue d) w
      (fun _ => w.Gains (fun t => (records t).observationValues) fun v =>
        v.id = .text (w.idOf (w.issued + 1)) ∧ ∃ s, v.typeId = .text s)
      (fun _ w' => w'.store = w.store) := by
  unfold insertObservationValue
  rw [hid]
  refine Triple.bind_run (run_idOr_null w) (Triple.bind_run (World.run_stored _) ?_)
  unfold prepare
  split
  case isFalse => exact Triple.throw rfl
  simp only [pure_bind, bindText_eq, notNull_eq]
  refine Triple.bind_ofExcept (fun _ => rfl) fun id? hid? => ?_
  iterate 3 refine Triple.bind_ofExcept (fun _ => rfl) fun _ _ => ?_
  refine Triple.bind_ofExcept (fun _ => rfl) fun id hid => ?_
  iterate 2 refine Triple.bind_ofExcept (fun _ => rfl) fun _ _ => ?_
  cases id_of_issued hs hid? hid
  refine triple_added rfl ⟨rfl, _, ?_, (Shelf.put_relabel text_injective).symm⟩
  exact ⟨rfl, _, rfl⟩

theorem triple_insertMitigationType {d : MitigationTypeDraft} (hid : d.id = .null)
    (hs : view.Plain (w.idOf (w.issued + 1))) :
    Triple (insertMitigationType d) w
      (fun _ => w.Gains (fun t => (records t).mitigationTypes) fun _ => True)
      (fun _ w' => w'.store = w.store) := by
  unfold insertMitigationType
  rw [hid]
  refine Triple.bind_run (run_idOr_null w) (Triple.bind_run (World.run_stored _) ?_)
  unfold prepare
  split
  case isFalse => exact Triple.throw rfl
  simp only [pure_bind, bindText_eq, notNull_eq]
  refine Triple.bind_ofExcept (fun _ => rfl) fun id? hid? => ?_
  iterate 3 refine Triple.bind_ofExcept (fun _ => rfl) fun _ _ => ?_
  refine Triple.bind_ofExcept (fun _ => rfl) fun id hid => ?_
  iterate 2 refine Triple.bind_ofExcept (fun _ => rfl) fun _ _ => ?_
  cases id_of_issued hs hid? hid
  exact triple_added rfl ⟨rfl, _, trivial, (Shelf.put_relabel text_injective).symm⟩

theorem triple_insertMitigationValue {d : MitigationValueDraft} (hid : d.id = .null)
    (hs : view.Plain (w.idOf (w.issued + 1))) :
    Triple (insertMitigationValue d) w
      (fun _ => w.Gains (fun t => (records t).mitigationValues) fun _ => True)
      (fun _ w' => w'.store = w.store) := by
  unfold insertMitigationValue
  rw [hid]
  refine Triple.bind_run (run_idOr_null w) (Triple.bind_run (World.run_stored _) ?_)
  unfold prepare
  split
  case isFalse => exact Triple.throw rfl
  simp only [pure_bind, bindText_eq, notNull_eq]
  refine Triple.bind_ofExcept (fun _ => rfl) fun id? hid? => ?_
  iterate 4 refine Triple.bind_ofExcept (fun _ => rfl) fun _ _ => ?_
  refine Triple.bind_ofExcept (fun _ => rfl) fun id hid => ?_
  iterate 3 refine Triple.bind_ofExcept (fun _ => rfl) fun _ _ => ?_
  cases id_of_issued hs hid? hid
  exact triple_added rfl ⟨rfl, _, trivial, (Shelf.put_relabel text_injective).symm⟩

end Tables

namespace Backing

theorem triple_createObservationType : ∀ (b : Backing) {w : World b.Store}
    {d : ObservationTypeDraft}, d.id = .null → b.view.Plain (w.idOf (w.issued + 1)) →
    Triple (b.storage.perform (.createObservationType d)) w
      (fun _ => w.Gains (fun s => (b.view.records s).observationTypes) fun x =>
        x.id = .text (w.idOf (w.issued + 1)))
      (fun _ w' => w'.store = w.store)
  | memory, w, d, hid, _ => by
    have hrun := congrArg (·.run w) (hid ▸ Memory.createObservationType_eq d)
    exact Triple.of_run (hrun.trans (Memory.run_filed rfl)) ⟨rfl, d.withId _, rfl, rfl⟩
  | tables, _, _, hid, hs => Tables.triple_insertObservationType hid hs

theorem triple_createObservationValue : ∀ (b : Backing) {w : World b.Store}
    {d : ObservationValueDraft}, d.id = .null → b.view.Plain (w.idOf (w.issued + 1)) →
    Triple (b.storage.perform (.createObservationValue d)) w
      (fun _ => w.Gains (fun s => (b.view.records s).observationValues) fun v =>
        v.id = .text (w.idOf (w.issued + 1)) ∧ (b.Owns d.typeId → ∃ s, v.typeId = .text s))
      (fun _ w' => w'.store = w.store)
  | memory, w, d, hid, _ => by
    have hrun := congrArg (·.run w) (hid ▸ Memory.createObservationValue_eq d)
    exact Triple.of_run (hrun.trans (Memory.run_filed rfl))
      ⟨rfl, d.withId _, ⟨rfl, fun howner => howner⟩, rfl⟩
  | tables, _, _, hid, hs => (Tables.triple_insertObservationValue hid hs).mono
    (fun _ _ hg => hg.imp fun _ hv => ⟨hv.1, fun _ => hv.2⟩) fun _ _ h => h

/-! ## The invariant -/

/-- A request that adds to the observation catalogs under a new id only, and no value whose
owner is not a text. -/
def Files (b : Backing) : {α : Type} → Request α → Prop
  | _, .createObservationType d => d.id = .null
  | _, .createObservationValue d => d.id = .null ∧ b.Owns d.typeId
  | _, _ => True

/-- All ids in the observation catalogs have been issued, and all owners are texts. -/
structure Catalogued (b : Backing) (w : World b.Store) : Prop where
  injective : Function.Injective w.idOf
  plain : ∀ n, b.view.Plain (w.idOf n)
  types : w.Issued (b.view.records w.store).observationTypes
  values : w.Issued (b.view.records w.store).observationValues
  owned : ∀ v ∈ (b.view.records w.store).observationValues.records, ∃ s, v.typeId = .text s

variable {b : Backing} {w w' : World b.Store}

namespace Catalogued

/-- Where the catalogs are the same. -/
theorem beside (h : b.Catalogued w)
    (hb : w.Beside (fun s => (b.view.records s).observations) w') : b.Catalogued w' := by
  have htypes : (b.view.records w'.store).observationTypes =
      (b.view.records w.store).observationTypes := congrArg Prod.fst hb.2
  have hvalues : (b.view.records w'.store).observationValues =
      (b.view.records w.store).observationValues := congrArg Prod.snd hb.2
  exact ⟨hb.1.idOf ▸ h.injective, hb.1.idOf ▸ h.plain, htypes ▸ h.types.follow hb.1,
    hvalues ▸ h.values.follow hb.1, hvalues ▸ h.owned⟩

theorem beside_extends (h : b.Catalogued w)
    (hb : w.Beside (fun s => (b.view.records s).observations) w') :
    b.Catalogued w' ∧ (b.view.records w.store).Extends (b.view.records w'.store) :=
  ⟨h.beside hb, Memory.extends_of_eq hb.2⟩

/-- A type has been added. -/
theorem gains_type (h : b.Catalogued w)
    (hg : w.Gains (fun s => (b.view.records s).observationTypes) (fun _ => True) w')
    (hb : w.Beside (fun s => (b.view.records s).observationValues) w') :
    b.Catalogued w' ∧ (b.view.records w.store).Extends (b.view.records w'.store) := by
  obtain ⟨hissued, t, -, htypes⟩ := hg
  dsimp only at htypes
  have hvalues : (b.view.records w'.store).observationValues =
      (b.view.records w.store).observationValues := hb.2
  refine ⟨⟨hb.1.idOf ▸ h.injective, hb.1.idOf ▸ h.plain, ?_, hvalues ▸ h.values.follow hb.1,
    hvalues ▸ h.owned⟩, fun x hx => ?_, fun v hv => hvalues ▸ hv⟩
  · exact htypes ▸ h.types.put hb.1 hissued t
  · exact htypes ▸ h.types.mem_put h.injective hx

/-- A value has been added. -/
theorem gains_value (h : b.Catalogued w)
    (hg : w.Gains (fun s => (b.view.records s).observationValues)
      (fun v => ∃ s, v.typeId = .text s) w')
    (hb : w.Beside (fun s => (b.view.records s).observationTypes) w') :
    b.Catalogued w' ∧ (b.view.records w.store).Extends (b.view.records w'.store) := by
  obtain ⟨hissued, v, hv, hvalues⟩ := hg
  dsimp only at hvalues
  have htypes : (b.view.records w'.store).observationTypes =
      (b.view.records w.store).observationTypes := hb.2
  refine ⟨⟨hb.1.idOf ▸ h.injective, hb.1.idOf ▸ h.plain, htypes ▸ h.types.follow hb.1, ?_,
    fun x hx => ?_⟩, fun t ht => htypes ▸ ht, fun x hx => ?_⟩
  · exact hvalues ▸ h.values.put hb.1 hissued v
  · rcases Shelf.mem_records_put (hvalues ▸ hx) with rfl | hold
    · exact hv
    · exact h.owned x hold
  · exact hvalues ▸ h.values.mem_put h.injective hx

/-- A store in memory that knows a type knows it by a text. -/
theorem owns_of_found (h : b.Catalogued w) (ids : List Value) :
    Triple (b.storage.perform (.getObservationTypes ids)) w
      (fun found _ => found ≠ [] → ∃ id ∈ ids, b.Owns id) (fun _ _ => True) := by
  cases b with
  | tables =>
    refine Triple.of_forall (fun found _ hrun hne => ?_) fun _ _ _ => trivial
    cases ids with
    | nil =>
      cases hrun
      exact absurd rfl hne
    | cons id rest => exact ⟨id, List.mem_cons_self, trivial⟩
  | memory =>
    refine Triple.of_run_except (Memory.run_look (fun m => Memory.findAll m.observationTypes ids) w)
      (fun found hf hne => ?_) fun _ _ => trivial
    have hkeys : Memory.TextKeys w.store.observationTypes := by
      intro p hp
      obtain ⟨n, -, hn⟩ := h.types p.1 (List.mem_map.mpr ⟨p, hp, rfl⟩)
      exact ⟨_, hn⟩
    obtain ⟨t, ht⟩ := List.exists_mem_of_ne_nil found hne
    obtain ⟨id, hid, hfind⟩ := Memory.mem_of_findAll hf t ht
    exact ⟨id, hid, hkeys.text_of_find hfind⟩

end Catalogued

/-- What a request keeps of the observation catalogs: all that is in them. -/
theorem keeps_catalogued (h : b.Catalogued w) {r : Request α} (hr : b.Files r) :
    Keeps (fun w' => b.Catalogued w' ∧
        (b.view.records w.store).Extends (b.view.records w'.store))
      (b.storage.perform r) w := by
  cases hadds : r.addsObservations with
  | false =>
    exact (b.keeps_beside (Request.spares_observations hadds)).imp fun _ ht => h.beside_extends ht
  | true =>
    cases r with
    | createObservationType d =>
      have hspares : (Request.createObservationType d).Spares Memory.observationValues :=
        fun _ _ => rfl
      exact Keeps.of_triple
        ((b.triple_createObservationType hr (h.plain _)).and (b.keeps_beside hspares))
        (fun _ _ ht => h.gains_type (ht.1.imp fun _ _ => trivial) ht.2)
        fun _ _ ht => h.beside_extends ⟨ht.2.1, by rw [ht.1]⟩
    | createObservationValue d =>
      have hspares : (Request.createObservationValue d).Spares Memory.observationTypes :=
        fun _ _ => rfl
      exact Keeps.of_triple
        ((b.triple_createObservationValue hr.1 (h.plain _)).and (b.keeps_beside hspares))
        (fun _ _ ht => h.gains_value (ht.1.imp fun _ hv => hv.2 hr.2) ht.2)
        fun _ _ ht => h.beside_extends ⟨ht.2.1, by rw [ht.1]⟩
    | _ => cases hadds

end Backing

end PropertyRisk
