import PropertyRisk.Proofs.Mirror
import PropertyRisk.Proofs.Indexed

/-!
# What a tree refers to

`Backing.checkTree_exact`: a tree that reads passes the check just if all it refers to is in the
catalogs, each value under the type of its leaf. Otherwise the problems are those that
`Criteria.Misses` says: the ids that are missing, in order and each once, and then each use of a
value under another type than its own, in the order of the leaves. Nothing is stored.

The check asks for all ids together and goes back to the leaves with what was found, so what is
found is told by the records (`Backing.run_getObservationTypes`), not by the ids asked for.
-/

namespace PropertyRisk

open Engine Engine.Rules

/-! ## What is found -/

namespace Backing

/-- The ids in a tree are such that the store can be asked for them. -/
def CanAsk (b : Backing) (tree : Criteria) : Prop :=
  ∀ l ∈ tree.leaves, b.view.Plain l.typeId ∧ ∀ id ∈ l.valueIds.getD [], b.view.Plain id

end Backing

/-- The records with one of some ids. -/
def FoundBy (idOf : α → Value) (records : List α) (ids : List String) (found : List α) : Prop :=
  ∀ a, a ∈ found ↔ a ∈ records ∧ ∃ s ∈ ids, idOf a = .text s

namespace Memory

theorem findAll_texts (shelf : Shelf Key α) (texts : List String) :
    findAll shelf (texts.map .text) = .ok (texts.filterMap fun s => shelf.get? (.text s)) := by
  induction texts with
  | nil => rfl
  | cons s rest ih =>
    rw [List.map_cons, findAll, find_text, ih, List.filterMap_cons]
    cases shelf.get? (.text s) <;> rfl

theorem foundBy_get? {idOf : α → Value} {shelf : Shelf Key α} (h : view.Shelved idOf shelf)
    (texts : List String) :
    FoundBy idOf shelf.records texts (texts.filterMap fun s => shelf.get? (.text s)) := by
  intro a
  rw [List.mem_filterMap]
  constructor
  · rintro ⟨s, hs, ha⟩
    exact ⟨Shelf.mem_records_of_get? ha, s, hs, (h.id_of_get? ha).2⟩
  · rintro ⟨ha, s, hs, hid⟩
    obtain ⟨t, -, ht, hget⟩ := h.get?_of_mem ha
    cases ht.symm.trans hid
    exact ⟨s, hs, hget⟩

end Memory

namespace Tables

variable {w : World Tables}

theorem run_selectByIds_of_whole (operation : Operation) (table : Tables → Table α)
    (idOf : α → String) {texts : List String} (ht : (table w.store).state = .whole)
    (hs : ∀ s ∈ texts, Text.isWhole s = true) :
    ∃ rows, (selectByIds operation table idOf (texts.map .text)).run w = (.ok rows, w) ∧
      ∀ row, row ∈ rows ↔ row ∈ (table w.store).rows.records ∧ idOf row ∈ texts := by
  unfold selectByIds
  split
  case isTrue hnone =>
    have htexts : texts = [] := by simpa using hnone
    subst htexts
    exact ⟨[], rfl, by simp⟩
  case isFalse =>
    refine ⟨sortedBy idOf ((table w.store).rows.records.filter fun row =>
      (texts.map some).contains (some (idOf row))), ?_, fun row => ?_⟩
    · simp only [Op.run_bind, run_select ht, bindText_texts hs, Op.run_pure]
    · simp [sortedBy]

theorem foundBy_rows {f : α → β} {idOf : α → String} {idOf' : β → Value}
    (hid : ∀ row, idOf' (f row) = .text (idOf row)) {shelf : Shelf String α} {rows : List α}
    {texts : List String} (h : ∀ row, row ∈ rows ↔ row ∈ shelf.records ∧ idOf row ∈ texts) :
    FoundBy idOf' (shelf.relabel Key.text f).records texts (rows.map f) := by
  intro a
  rw [Shelf.records_relabel, List.mem_map, List.mem_map]
  constructor
  · rintro ⟨row, hrow, rfl⟩
    obtain ⟨hmem, htext⟩ := (h row).mp hrow
    exact ⟨⟨row, hmem, rfl⟩, idOf row, htext, hid row⟩
  · rintro ⟨⟨row, hrow, rfl⟩, s, hs, heq⟩
    have hsame : idOf row = s := Value.text.inj ((hid row).symm.trans heq)
    exact ⟨row, (h row).mpr ⟨hrow, hsame ▸ hs⟩, rfl⟩

end Tables

namespace Backing

variable {b : Backing} {w : World b.Store} {texts : List String}

theorem run_getObservationTypes : ∀ {b : Backing} {w : World b.Store}, b.Indexed w →
    (∀ s ∈ texts, b.view.Plain s) →
    ∃ found, (b.storage.perform (.getObservationTypes (texts.map .text))).run w = (.ok found, w) ∧
      FoundBy ObservationType.id (b.view.records w.store).observationTypes.records texts found
  | memory, w, h, _ => by
    refine ⟨_, ?_, Memory.foundBy_get? h.types texts⟩
    refine (Memory.run_look (fun m => Memory.findAll m.observationTypes _) w).trans ?_
    exact congrArg (·, w) (Memory.findAll_texts _ _)
  | tables, w, h, hs => by
    obtain ⟨rows, hrun, hrows⟩ := Tables.run_selectByIds_of_whole .getObservationTypes
      Tables.observationTypes ObservationTypeRow.id h.there.1 hs
    exact ⟨_, Op.run_bind_ok hrun,
      Tables.foundBy_rows (f := ObservationTypeRow.toType) (fun _ => rfl) hrows⟩

theorem run_getObservationValues : ∀ {b : Backing} {w : World b.Store}, b.Indexed w →
    (∀ s ∈ texts, b.view.Plain s) →
    ∃ found, (b.storage.perform (.getObservationValues (texts.map .text))).run w = (.ok found, w) ∧
      FoundBy ObservationValue.id (b.view.records w.store).observationValues.records texts found
  | memory, w, h, _ => by
    refine ⟨_, ?_, Memory.foundBy_get? h.values texts⟩
    refine (Memory.run_look (fun m => Memory.findAll m.observationValues _) w).trans ?_
    exact congrArg (·, w) (Memory.findAll_texts _ _)
  | tables, w, h, hs => by
    obtain ⟨rows, hrun, hrows⟩ := Tables.run_selectByIds_of_whole .getObservationValues
      Tables.observationValues ObservationValueRow.id h.there.2 hs
    exact ⟨_, Op.run_bind_ok hrun,
      Tables.foundBy_rows (f := ObservationValueRow.toValue) (fun _ => rfl) hrows⟩

end Backing

/-! ## What is missing -/

/-- A list of the texts that are `P`, in order, each once. -/
def Enumerates (texts : List String) (P : String → Prop) : Prop :=
  texts.Pairwise (· < ·) ∧ ∀ s, s ∈ texts ↔ P s

theorem Enumerates.eq_nil_iff {texts : List String} {P : String → Prop} (h : Enumerates texts P) :
    texts = [] ↔ ∀ s, ¬P s := by
  rw [List.eq_nil_iff_forall_not_mem]
  exact forall_congr' fun s => not_congr (h.2 s)

/-- What was asked for and not found is listed in order, each id once. -/
theorem enumerates_missing {idOf : α → Value} {records found : List α} {asked : List String}
    (h : FoundBy idOf records (distinctSorted asked) found) :
    Enumerates (missing (distinctSorted asked) (found.map idOf)) fun s =>
      s ∈ asked ∧ ¬∃ a ∈ records, idOf a = .text s := by
  refine ⟨(pairwise_distinctSorted asked).filter _, fun s => ?_⟩
  rw [missing, List.mem_filter, mem_distinctSorted]
  refine and_congr_right fun hs => ?_
  rw [Bool.not_eq_true', ← Bool.not_eq_true, List.contains_iff_mem, List.mem_map]
  refine not_congr (exists_congr fun a => ?_)
  rw [h a]
  constructor
  · rintro ⟨⟨ha, -⟩, hid⟩
    exact ⟨ha, hid⟩
  · rintro ⟨ha, hid⟩
    exact ⟨⟨ha, s, mem_distinctSorted.mpr hs, hid⟩, hid⟩

/-- A value with the id is in the catalog and is owned by another type. -/
def Memory.strays (m : Memory) (typeId id : String) : Bool :=
  m.observationValues.records.any fun v => v.id = .text id && v.typeId ≠ .text typeId

/-- What is wrong with the references of a tree, in the order in which it is told. -/
def Criteria.Misses (m : Memory) (tree : Criteria) (problems : List RuleProblem) : Prop :=
  ∃ types values,
    Enumerates types (fun s => s ∈ tree.leaves.map Leaf.typeId ∧
      ¬∃ t ∈ m.observationTypes.records, t.id = .text s) ∧
    Enumerates values (fun s => s ∈ valueIdsOf tree.leaves ∧
      ¬∃ v ∈ m.observationValues.records, v.id = .text s) ∧
    problems = missingTypes types ++ missingValues values ++ tree.leaves.flatMap fun l =>
      ((l.valueIds.getD []).filter (m.strays l.typeId)).map (.foreignValue · l.typeId)

/-! ## Values of another type -/

/-- A value has another owner than a type, when its owner is a text. -/
theorem Engine.Rules.isForeign_text {owner typeId : String} :
    isForeign (.text owner) typeId = decide (Value.text owner ≠ .text typeId) := by
  simp [isForeign, Value.equal]

section

variable {m : Memory} {found : List ObservationValue} {ids : List String}
  (hfound : FoundBy ObservationValue.id m.observationValues.records ids found)
  (hunique : ∀ u ∈ m.observationValues.records, ∀ v ∈ m.observationValues.records,
    u.id = v.id → u = v)
  (howned : ∀ v ∈ m.observationValues.records, ∃ s, v.typeId = .text s)
include hfound hunique howned

/-- Looking into what was found is looking into the catalog, for an id that was asked for. -/
theorem strays_eq {typeId id : String} (hid : id ∈ ids) :
    m.strays typeId id =
      (found.find? (·.id = .text id)).any fun v => isForeign v.typeId typeId := by
  cases hfind : found.find? (·.id = .text id) with
  | none =>
    have hnone : ∀ v ∈ m.observationValues.records, v.id ≠ .text id := by
      intro v hv heq
      have hmem : v ∈ found := (hfound v).mpr ⟨hv, id, hid, heq⟩
      exact absurd (decide_eq_true heq) (List.find?_eq_none.mp hfind v hmem)
    rw [Memory.strays, Option.any_none, List.any_eq_false]
    intro v hv
    simp [hnone v hv]
  | some v =>
    have hvid : v.id = .text id := by simpa using List.find?_some hfind
    have hv := ((hfound v).mp (List.mem_of_find?_eq_some hfind)).1
    obtain ⟨owner, howner⟩ := howned v hv
    rw [Option.any_some, howner, isForeign_text, ← howner, Memory.strays, Bool.eq_iff_iff,
      List.any_eq_true]
    constructor
    · rintro ⟨u, hu, huid⟩
      obtain ⟨huid, hother⟩ := Bool.and_eq_true_iff.mp huid
      have hsame : u = v := hunique u hu v hv ((of_decide_eq_true huid).trans hvid.symm)
      exact hsame ▸ hother
    · intro hother
      exact ⟨v, hv, Bool.and_eq_true_iff.mpr ⟨decide_eq_true hvid, hother⟩⟩

theorem foreignValues_eq {leaves : List Leaf} (hids : ids = distinctSorted (valueIdsOf leaves)) :
    foreignValues found leaves = leaves.flatMap fun l =>
      ((l.valueIds.getD []).filter (m.strays l.typeId)).map (.foreignValue · l.typeId) := by
  refine List.flatMap_congr fun l hl => ?_
  rw [← List.filterMap_eq_map, ← List.filterMap_eq_filter, List.filterMap_filterMap]
  refine List.filterMap_congr fun id hid => ?_
  have hasked : id ∈ ids := hids ▸ mem_distinctSorted.mpr (List.mem_flatMap.mpr ⟨l, hl, hid⟩)
  rw [Option.guard, strays_eq hfound hunique howned hasked]
  cases found.find? (·.id = .text id) with
  | none => rfl
  | some v => cases h : isForeign v.typeId l.typeId <;> simp [h]

end

theorem foreignValues_of_no_ids {found : List ObservationValue} {leaves : List Leaf}
    (h : valueIdsOf leaves = []) : foreignValues found leaves = [] := by
  refine List.flatMap_eq_nil_iff.mpr fun l hl => ?_
  rw [List.flatMap_eq_nil_iff.mp h l hl]
  rfl

/-! ## The check -/

/-- Nothing is wrong just if all is known. -/
theorem Criteria.Misses.eq_nil_iff {m : Memory} {tree : Criteria} {problems : List RuleProblem}
    (h : tree.Misses m problems)
    (hunique : ∀ u ∈ m.observationValues.records, ∀ v ∈ m.observationValues.records,
      u.id = v.id → u = v) : problems = [] ↔ tree.Known m := by
  obtain ⟨types, values, htypes, hvalues, rfl⟩ := h
  have hnoTypes : missingTypes types = [] ↔ types = [] := by cases types <;> simp [missingTypes]
  have hnoValues : missingValues values = [] ↔ values = [] := by
    cases values <;> simp [missingValues]
  rw [List.append_eq_nil_iff, List.append_eq_nil_iff, hnoTypes, hnoValues, htypes.eq_nil_iff,
    hvalues.eq_nil_iff, List.flatMap_eq_nil_iff]
  constructor
  · rintro ⟨⟨hno, hnone⟩, hstrays⟩
    constructor
    case types =>
      intro l hl
      by_contra hmissing
      exact hno l.typeId ⟨List.mem_map_of_mem hl, hmissing⟩
    case values =>
      intro l hl id hid
      have hfound : ∃ v ∈ m.observationValues.records, v.id = .text id := by
        by_contra hmissing
        exact hnone id ⟨List.mem_flatMap.mpr ⟨l, hl, hid⟩, hmissing⟩
      obtain ⟨v, hv, hvid⟩ := hfound
      refine ⟨v, hv, hvid, ?_⟩
      by_contra hother
      have hstray : m.strays l.typeId id = true :=
        List.any_eq_true.mpr ⟨v, hv, by simp [hvid, hother]⟩
      have hnil := List.filter_eq_nil_iff.mp (List.map_eq_nil_iff.mp (hstrays l hl)) id hid
      exact hnil hstray
  · intro hknown
    refine ⟨⟨?_, ?_⟩, ?_⟩
    · rintro s ⟨hs, hmissing⟩
      obtain ⟨l, hl, rfl⟩ := List.mem_map.mp hs
      exact hmissing (hknown.types l hl)
    · rintro s ⟨hs, hmissing⟩
      obtain ⟨l, hl, hid⟩ := List.mem_flatMap.mp hs
      obtain ⟨v, hv, hvid, -⟩ := hknown.values l hl s hid
      exact hmissing ⟨v, hv, hvid⟩
    · intro l hl
      refine List.map_eq_nil_iff.mpr (List.filter_eq_nil_iff.mpr fun id hid hstray => ?_)
      obtain ⟨u, hu, huid⟩ := List.any_eq_true.mp hstray
      obtain ⟨v, hv, hvid, hown⟩ := hknown.values l hl id hid
      simp only [Bool.and_eq_true, decide_eq_true_eq] at huid
      have hsame : u = v := hunique u hu v hv (huid.1.trans hvid.symm)
      exact huid.2 (hsame ▸ hown)

namespace Backing

variable {b : Backing} {w : World b.Store}

theorem plain_typeIds {leaves : List Leaf} (h : ∀ l ∈ leaves, b.view.Plain l.typeId) :
    ∀ s ∈ distinctSorted (leaves.map Leaf.typeId), b.view.Plain s := by
  intro s hs
  obtain ⟨l, hl, rfl⟩ := List.mem_map.mp (mem_distinctSorted.mp hs)
  exact h l hl

theorem plain_valueIds {leaves : List Leaf}
    (h : ∀ l ∈ leaves, ∀ id ∈ l.valueIds.getD [], b.view.Plain id) :
    ∀ s ∈ distinctSorted (valueIdsOf leaves), b.view.Plain s := by
  intro s hs
  obtain ⟨l, hl, hid⟩ := List.mem_flatMap.mp (mem_distinctSorted.mp hs)
  exact h l hl s hid

theorem run_typeProblems (h : b.Indexed w) {leaves : List Leaf}
    (hplain : ∀ l ∈ leaves, b.view.Plain l.typeId) :
    ∃ types, (typeProblems b.storage leaves).run w = (.ok (missingTypes types), w) ∧
      Enumerates types fun s => s ∈ leaves.map Leaf.typeId ∧
        ¬∃ t ∈ (b.view.records w.store).observationTypes.records, t.id = .text s := by
  obtain ⟨found, hrun, hfound⟩ := run_getObservationTypes h (plain_typeIds hplain)
  refine ⟨_, ?_, enumerates_missing hfound⟩
  simp only [typeProblems]
  -- no request is made for no ids, and none would be found
  split
  case isTrue hnone =>
    rw [List.isEmpty_iff] at hnone
    rw [hnone]
    rfl
  case isFalse => exact Op.run_bind_ok hrun

theorem run_valueProblems (h : b.Indexed w) {leaves : List Leaf}
    (hplain : ∀ l ∈ leaves, ∀ id ∈ l.valueIds.getD [], b.view.Plain id) :
    ∃ values, (valueProblems b.storage leaves).run w =
        (.ok (missingValues values ++ leaves.flatMap fun l => ((l.valueIds.getD []).filter
          ((b.view.records w.store).strays l.typeId)).map (.foreignValue · l.typeId)), w) ∧
      Enumerates values fun s => s ∈ valueIdsOf leaves ∧
        ¬∃ v ∈ (b.view.records w.store).observationValues.records, v.id = .text s := by
  obtain ⟨found, hrun, hfound⟩ := run_getObservationValues h (plain_valueIds hplain)
  refine ⟨_, ?_, enumerates_missing hfound⟩
  rw [← foreignValues_eq hfound (fun u hu v hv => h.values.eq_of_id hu hv) h.owned rfl]
  simp only [valueProblems]
  split
  case isTrue hnone =>
    rw [List.isEmpty_iff] at hnone
    have hnoIds : valueIdsOf leaves = [] := by
      refine List.eq_nil_iff_forall_not_mem.mpr fun id hid => ?_
      have hasked := mem_distinctSorted.mpr hid
      rw [hnone] at hasked
      cases hasked
    rw [hnone, foreignValues_of_no_ids hnoIds]
    rfl
  case isFalse => exact Op.run_bind_ok hrun

/-- What the check comes to, by what it finds wrong. -/
theorem run_checkTree (h : b.Indexed w) {document : Value} {tree : Criteria}
    (hread : Criteria.read document = .ok tree) (hask : b.CanAsk tree) :
    ∃ problems, tree.Misses (b.view.records w.store) problems ∧
      (checkTree b.storage document).run w =
        (if problems = [] then .ok tree else .error (.invalid (.rule problems)), w) := by
  obtain ⟨types, htypes, hlists⟩ := run_typeProblems h fun l hl => (hask l hl).1
  obtain ⟨values, hvalues, hlists'⟩ := run_valueProblems h fun l hl => (hask l hl).2
  refine ⟨_, ⟨types, values, hlists, hlists', rfl⟩, ?_⟩
  rw [List.append_assoc]
  simp only [checkTree, hread, Op.run_orElse_ok, Op.run_bind, htypes, hvalues]
  split
  case h_1 hnone =>
    rw [if_pos hnone]
    rfl
  case h_2 hsome =>
    rw [if_neg hsome]
    rfl

/-- A tree that reads passes the check just if all it refers to is known, and otherwise all that
is not known is told. -/
theorem checkTree_exact (h : b.Indexed w) {document : Value} {tree : Criteria}
    (hread : Criteria.read document = .ok tree) (hask : b.CanAsk tree) :
    ((checkTree b.storage document).run w = (.ok tree, w) ↔
      tree.Known (b.view.records w.store)) ∧
    (¬tree.Known (b.view.records w.store) → ∃ problems,
      (checkTree b.storage document).run w = (.error (.invalid (.rule problems)), w) ∧
        tree.Misses (b.view.records w.store) problems) := by
  obtain ⟨problems, hmisses, hrun⟩ := run_checkTree h hread hask
  have hknown := hmisses.eq_nil_iff fun u hu v hv => h.values.eq_of_id hu hv
  rw [hrun, ← hknown]
  by_cases hnone : problems = []
  · rw [if_pos hnone]
    exact ⟨iff_of_true rfl hnone, fun hsome => absurd hnone hsome⟩
  · rw [if_neg hnone]
    exact ⟨⟨nofun, fun h => absurd h hnone⟩, fun _ => ⟨problems, rfl, hmisses⟩⟩

/-! ## A catalog with one value -/

theorem indexed_leaky : tables.Indexed leaky :=
  indexed_of_visited (.call _ _ trivial <| .call _ _ trivial <|
    .empty _ 0 letters letters_injective isWhole_letters)

/-- The value `aa` is used under its own type and under another one, which is missing. -/
def strayTree : Criteria :=
  ⟨.and, [.group .or [.leaf { typeId := "a", valueIds := some ["aa"] }],
    .leaf { typeId := "b", valueIds := some ["zz", "aa", "zz"] }]⟩

theorem checkTree_leaky :
    (tables.Indexed leaky ∧ Criteria.read strayTree.toValue = .ok strayTree ∧
      tables.CanAsk strayTree ∧ ¬strayTree.Known (tables.view.records leaky.store)) ∧
    ∃ problems,
      (checkTree tables.storage strayTree.toValue).run leaky =
        (.error (.invalid (.rule problems)), leaky) ∧
      strayTree.Misses (tables.view.records leaky.store) problems := by
  have hread : Criteria.read strayTree.toValue = .ok strayTree := by rfl
  have hask : tables.CanAsk strayTree := by
    intro l hl
    have hall : strayTree.leaves.all fun l =>
        Text.isWhole l.typeId && (l.valueIds.getD []).all Text.isWhole := by decide
    have hleaf := List.all_eq_true.mp hall l hl
    rw [Bool.and_eq_true, List.all_eq_true] at hleaf
    exact hleaf
  have hunknown : ¬strayTree.Known (tables.view.records leaky.store) := by
    intro hknown
    obtain ⟨t, ht, hid⟩ := hknown.types { typeId := "b", valueIds := some ["zz", "aa", "zz"] }
      (by simp [strayTree, Criteria.leaves, Condition.leavesOf, Condition.leaves])
    have hnone : (Tables.records leaky.store).observationTypes.records.all
        fun t => t.id ≠ .text "b" := by decide +kernel
    exact absurd hid (of_decide_eq_true (List.all_eq_true.mp hnone t ht))
  exact ⟨⟨indexed_leaky, hread, hask, hunknown⟩,
    (checkTree_exact indexed_leaky hread hask).2 hunknown⟩

/-- A type that no text column can be asked for. -/
def halfTree : Criteria := ⟨.and, [.leaf { typeId := String.singleton (Text.ofHalf 0xd800) }]⟩

/-- Tables refuse to be asked for a type whose id cannot be encoded, in place of saying that it
is missing. -/
theorem checkTree_lone_half :
    tables.Indexed (start .tables) ∧ Criteria.read halfTree.toValue = .ok halfTree ∧
    ¬halfTree.Known (tables.view.records (start .tables).store) ∧
    ((checkTree tables.storage halfTree.toValue).run (start .tables)).1 =
      .error (.fault .unencodable) := by
  refine ⟨indexed_of_visited (.empty _ 0 letters letters_injective isWhole_letters), by rfl, ?_,
    by decide +kernel⟩
  intro hknown
  obtain ⟨t, ht, -⟩ := hknown.types _ List.mem_cons_self
  cases ht

end Backing

end PropertyRisk
