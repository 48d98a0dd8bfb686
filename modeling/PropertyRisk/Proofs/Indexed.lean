import PropertyRisk.Proofs.Turnover
import PropertyRisk.Proofs.WellFormed

/-!
# Catalogs in order

`Backing.Indexed`: the observation catalogs are there, every record in them is there once and
under its own id, and every value is owned. `Backing.indexed_of_visited`: so they are whatever
calls were made since the store was empty, and whatever befell their requests. A record is only
ever added, under an id that the store has just issued.
-/

namespace PropertyRisk

open Op (Triple Keeps)
open Engine

namespace Backing

/-- The tables of the observation catalogs are there. -/
def HasCatalogs : (b : Backing) → b.Store → Prop
  | memory => fun _ => True
  | tables => fun t : Tables =>
    t.observationTypes.state = .whole ∧ t.observationValues.state = .whole

structure Indexed (b : Backing) (w : World b.Store) : Prop where
  there : b.HasCatalogs w.store
  types : b.view.Shelved ObservationType.id (b.view.records w.store).observationTypes
  values : b.view.Shelved ObservationValue.id (b.view.records w.store).observationValues
  owned : ∀ v ∈ (b.view.records w.store).observationValues.records, ∃ s, v.typeId = .text s

/-! ## Shelves that are filled from the supply of ids -/

/-- A shelf has records under their own ids, all of which have been issued. -/
structure Stacked (b : Backing) (idOf : α → Value) (shelf : Memory → Shelf Key α)
    (w : World b.Store) : Prop where
  shelved : b.view.Shelved idOf (shelf (b.view.records w.store))
  issued : w.Issued (shelf (b.view.records w.store))

variable {b : Backing} {w w' : World b.Store}

namespace Stacked

variable {idOf : α → Value} {shelf : Memory → Shelf Key α}

theorem follow (h : b.Stacked idOf shelf w) (hf : w.Follows w')
    (hsame : shelf (b.view.records w'.store) = shelf (b.view.records w.store)) :
    b.Stacked idOf shelf w' :=
  ⟨hsame ▸ h.shelved, hsame ▸ h.issued.follow hf⟩

theorem put (h : b.Stacked idOf shelf w) (hplain : ∀ n, b.view.Plain (w.idOf n))
    (hf : w.Follows w') (hg : w.Gains (fun s => shelf (b.view.records s))
      (fun a => idOf a = .text (w.idOf (w.issued + 1))) w') : b.Stacked idOf shelf w' := by
  obtain ⟨hissued, a, ha, hput⟩ := hg
  dsimp only at hput
  exact ⟨hput ▸ h.shelved.put (hplain _) ha, hput ▸ h.issued.put hf hissued a⟩

/-- A request that adds to the shelf does so under the next id; any other leaves it alone. -/
theorem keeps {A : Archive α} (h : b.Stacked idOf A.shelf w)
    (hplain : ∀ n, b.view.Plain (w.idOf n)) {r : Request β}
    (hadding : r.operation = A.adding → Keeps (fun w' => w'.store = w.store ∨
      w.Gains (fun s => A.shelf (b.view.records s))
        (fun a => idOf a = .text (w.idOf (w.issued + 1))) w') (b.storage.perform r) w) :
    Keeps (b.Stacked idOf A.shelf) (b.storage.perform r) w := by
  by_cases hadds : r.operation = A.adding
  · refine ((b.keeps_follows r).both (hadding hadds)).imp fun w' ⟨hf, hgrows⟩ => ?_
    rcases hgrows with hsame | hgains
    · exact h.follow hf (by rw [hsame])
    · exact h.put hplain hf hgains
  · exact (b.keeps_beside (A.spares hadds)).imp fun w' ht => h.follow ht.1 ht.2

end Stacked

/-! ## Both catalogs -/

/-- What requests keep of the catalogs when they leave the choice of ids to the store. -/
structure Indexing (b : Backing) (w : World b.Store) : Prop where
  plain : ∀ n, b.view.Plain (w.idOf n)
  there : b.HasCatalogs w.store
  types : b.Stacked ObservationType.id Memory.observationTypes w
  values : b.Stacked ObservationValue.id Memory.observationValues w

/-- No request takes a table away. -/
theorem keeps_hasCatalogs : ∀ {b : Backing} {w : World b.Store}, b.HasCatalogs w.store →
    ∀ r : Request α, Keeps (fun w' => b.HasCatalogs w'.store) (b.storage.perform r) w
  | memory, _, _, _ => Triple.of_forall (fun _ _ _ => trivial) fun _ _ _ => trivial
  | tables, w, h, r => by
    have hspares : Tables.Spares
        (fun t => (t.observationTypes.state, t.observationValues.state)) r := by
      cases r <;> first
        | exact trivial
        | exact fun _ _ => rfl
    refine (Tables.keeps_beside hspares).imp fun t ht => ?_
    obtain ⟨htypes, hvalues⟩ := Prod.mk.inj ht.2
    exact ⟨htypes.trans h.1, hvalues.trans h.2⟩

namespace Indexing

theorem empty (b : Backing) (clock : Time.Stamp) (issued : Nat) {idOf : Nat → String}
    (hwhole : ∀ n, Text.isWhole (idOf n) = true) : b.Indexing ⟨b.empty, clock, issued, idOf⟩ := by
  have hrecords : b.view.records b.empty = {} := b.records_empty
  refine ⟨fun n => b.plain_of_isWhole (hwhole n), ?_, ⟨?_, ?_⟩, ⟨?_, ?_⟩⟩
  · cases b
    · trivial
    · exact ⟨rfl, rfl⟩
  all_goals rw [hrecords]
  · exact .nil
  · exact nofun
  · exact .nil
  · exact nofun

theorem tick (h : b.Indexing w) (clock : Time.Stamp) : b.Indexing { w with clock } :=
  ⟨h.plain, h.there, ⟨h.types.shelved, h.types.issued⟩, ⟨h.values.shelved, h.values.issued⟩⟩

theorem keeps (h : b.Indexing w) {r : Request α} (hr : r.IsUnnamed) :
    Keeps b.Indexing (b.storage.perform r) w := by
  have htypes : Keeps (b.Stacked ObservationType.id Memory.observationTypes)
      (b.storage.perform r) w := by
    refine Stacked.keeps (A := .observationTypes) h.types h.plain fun hadds => ?_
    cases r <;> cases hadds
    exact Keeps.of_triple (b.triple_createObservationType hr (h.plain _)) (fun _ _ => .inr)
      fun _ _ => .inl
  have hvalues : Keeps (b.Stacked ObservationValue.id Memory.observationValues)
      (b.storage.perform r) w := by
    refine Stacked.keeps (A := .observationValues) h.values h.plain fun hadds => ?_
    cases r <;> cases hadds
    exact Keeps.of_triple (b.triple_createObservationValue hr (h.plain _))
      (fun _ _ hg => .inr (hg.imp fun _ hv => hv.1)) fun _ _ => .inl
  refine (((b.keeps_follows r).both (keeps_hasCatalogs h.there r)).both
    (htypes.both hvalues)).imp ?_
  rintro w' ⟨⟨hf, hthere⟩, htypes, hvalues⟩
  exact ⟨hf.idOf ▸ h.plain, hthere, htypes, hvalues⟩

end Indexing

/-- What is agreed with a store whose catalogs are in order. -/
def indexing (b : Backing) : Contract (World b.Store) where
  inv := b.Indexing
  may r := r.IsUnnamed

theorem meets_indexing : b.storage.faulty.Meets b.indexing.first :=
  (meets_of_keeps fun hr h => h.keeps hr).faulty fun _ _ => trivial

theorem Visited.indexing {may : World b.Store → Policy → Call → Prop} (h : b.Visited may w) :
    b.Indexing w := by
  induction h with
  | empty clock issued idOf hinj hwhole => exact .empty b clock issued hwhole
  | tick clock _ ih => exact ih.tick clock
  | call policy plan _ _ ih =>
    refine (Call.upheld_as_meant (meets_indexing (b := b)) (fun _ _ => trivial) ?_ policy
      (s := (_, plan)) ih).keeps.state
    intro β r _ hmeans
    cases r <;> first
      | exact trivial
      | exact hmeans

/-- The catalogs are in order whatever calls were made. -/
theorem indexed_of_visited (h : b.Visited (fun _ _ c => c.NamesTexts) w) : b.Indexed w where
  there := h.indexing.there
  types := h.indexing.types.shelved
  values := h.indexing.values.shelved
  owned := h.wellKept.catalogs.owned

end Backing

end PropertyRisk
