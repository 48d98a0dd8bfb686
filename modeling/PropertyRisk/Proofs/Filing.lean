import PropertyRisk.Proofs.Chronology
import PropertyRisk.Proofs.Shelves
import PropertyRisk.Store.Memory
import PropertyRisk.Store.Tables
import Mathlib.Order.Monotone.Basic

/-!
# Rows in the order of filing

Ids are issued in the order of their texts, so the rows of a table that never
lost its order come by id (`Filed`), and times that were written down as they
passed come in order (`Dated`). Then a table that is sorted when it is read
gives the order in which a store in memory has kept its records all along.
-/

namespace PropertyRisk

open Time (Stamp)

/-! ## Times as they passed -/

/-- Texts that were written in UTC one after another, none of them after `clock`. -/
def Dated (clock : Stamp) (texts : List String) : Prop :=
  ∃ stamps : List Stamp, texts = stamps.map Stamp.text ∧
    stamps.Pairwise (fun a b => a.le b = true) ∧
    ∀ a ∈ stamps, a.offset = .utc ∧ a.le clock = true

namespace Dated

variable {clock later : Stamp} {texts : List String}

theorem nil : Dated clock [] := ⟨[], rfl, .nil, nofun⟩

theorem mono (h : Dated clock texts) (hle : clock.le later = true) : Dated later texts := by
  obtain ⟨stamps, rfl, hp, ha⟩ := h
  exact ⟨stamps, rfl, hp, fun a hm => ⟨(ha a hm).1, Stamp.le_trans (ha a hm).2 hle⟩⟩

theorem sublist (h : Dated clock texts) {some_ : List String} (hs : some_.Sublist texts) :
    Dated clock some_ := by
  obtain ⟨stamps, rfl, hp, ha⟩ := h
  obtain ⟨kept, hk, rfl⟩ := List.sublist_map_iff.mp hs
  exact ⟨kept, rfl, hp.sublist hk, fun a hm => ha a (hk.subset hm)⟩

theorem now (h : Dated clock texts) (hutc : clock.offset = .utc) :
    Dated clock (texts ++ [clock.text]) := by
  obtain ⟨stamps, rfl, hp, ha⟩ := h
  refine ⟨stamps ++ [clock], by simp, ?_, ?_⟩
  · exact List.pairwise_append.mpr ⟨hp, List.pairwise_singleton _ _, fun a hm b hb => by
      cases List.mem_singleton.mp hb
      exact (ha a hm).2⟩
  · intro a hm
    rcases List.mem_append.mp hm with hm | hm
    · exact ha a hm
    · cases List.mem_singleton.mp hm
      exact ⟨hutc, clock.le_refl⟩

theorem sorted (h : Dated clock texts) : texts.Pairwise (· ≤ ·) := by
  obtain ⟨stamps, rfl, hp, ha⟩ := h
  refine List.pairwise_map.mpr (hp.imp_of_mem fun hm hm' hle => ?_)
  exact Stamp.text_le (ha _ hm).1 (ha _ hm').1 hle

end Dated

/-! ## Rows by id -/

/-- The rows of a table that is there are under their own ids, in the order in
which these were issued. -/
structure Filed (idOf : Nat → String) (issued : Nat) (id : α → String) (t : Table α) : Prop where
  state : t.state = .whole
  own : ∀ p ∈ t.rows, id p.2 = p.1
  keys : ∃ ns : List Nat, t.rows.keys = ns.map idOf ∧ ns.Pairwise (· < ·) ∧ ∀ n ∈ ns, n ≤ issued

namespace Filed

variable {idOf : Nat → String} {issued : Nat} {id : α → String} {t : Table α} {s : String}
  {row old : α}

theorem empty : Filed idOf issued id ({} : Table α) := ⟨rfl, nofun, [], rfl, .nil, nofun⟩

theorem mono (h : Filed idOf issued id t) {later : Nat} (hle : issued ≤ later) :
    Filed idOf later id t := by
  obtain ⟨ns, hk, hp, hn⟩ := h.keys
  exact ⟨h.state, h.own, ns, hk, hp, fun n hm => Nat.le_trans (hn n hm) hle⟩

theorem sorted (hids : StrictMono idOf) (h : Filed idOf issued id t) :
    t.rows.records.Pairwise fun a b => id a < id b := by
  obtain ⟨ns, hk, hp, -⟩ := h.keys
  have hkeys : t.rows.keys.Pairwise (· < ·) := by
    rw [hk]
    exact List.pairwise_map.mpr (hp.imp fun hlt => hids hlt)
  refine List.pairwise_map.mpr ((List.pairwise_map.mp hkeys).imp_of_mem fun hp hq hlt => ?_)
  rwa [h.own _ hp, h.own _ hq]

theorem distinct (hids : StrictMono idOf) (h : Filed idOf issued id t) : t.rows.Distinct := by
  obtain ⟨ns, hk, hp, -⟩ := h.keys
  rw [Shelf.Distinct, hk]
  exact List.Nodup.map hids.injective (hp.imp fun hlt => Nat.ne_of_lt hlt)

theorem id_of_get? (h : Filed idOf issued id t) (hr : t.rows.get? s = some row) : id row = s :=
  h.own _ (Shelf.mem_of_get? hr)

theorem get?_of_mem (hids : StrictMono idOf) (h : Filed idOf issued id t)
    (hr : row ∈ t.rows.records) : t.rows.get? (id row) = some row := by
  obtain ⟨k, hk⟩ := Shelf.mem_records.mp hr
  have hid : id row = k := h.own _ hk
  rw [hid]
  exact (Shelf.get?_eq_some_iff (h.distinct hids)).mpr hk

theorem exists_issued (h : Filed idOf issued id t) (hr : row ∈ t.rows.records) :
    ∃ n ≤ issued, id row = idOf n := by
  obtain ⟨k, hk⟩ := Shelf.mem_records.mp hr
  obtain ⟨ns, hkeys, -, hn⟩ := h.keys
  have hm : k ∈ t.rows.keys := List.mem_map.mpr ⟨_, hk, rfl⟩
  rw [hkeys] at hm
  obtain ⟨n, hmem, rfl⟩ := List.mem_map.mp hm
  exact ⟨n, hn n hmem, h.own _ hk⟩

theorem get?_next (hids : StrictMono idOf) (h : Filed idOf issued id t) :
    t.rows.get? (idOf (issued + 1)) = none := by
  refine Shelf.get?_eq_none_iff.mpr fun hm => ?_
  obtain ⟨ns, hkeys, -, hn⟩ := h.keys
  rw [hkeys] at hm
  obtain ⟨n, hmem, heq⟩ := List.mem_map.mp hm
  have hlt := hn n hmem
  have := hids.injective heq
  omega

/-- A row under the next id comes last. -/
theorem put_next (hids : StrictMono idOf) (h : Filed idOf issued id t)
    (hid : id row = idOf (issued + 1)) :
    Filed idOf (issued + 1) id { t with rows := t.rows.put (idOf (issued + 1)) row } := by
  obtain ⟨ns, hk, hp, hn⟩ := h.keys
  have hput : t.rows.put (idOf (issued + 1)) row = t.rows ++ [(idOf (issued + 1), row)] :=
    Shelf.put_of_new (h.get?_next hids)
  refine ⟨h.state, fun p hm => ?_, ns ++ [issued + 1], ?_, ?_, fun n hm => ?_⟩
  · rw [hput] at hm
    rcases List.mem_append.mp hm with hm | hm
    · exact h.own p hm
    · cases List.mem_singleton.mp hm
      exact hid
  · show (t.rows.put (idOf (issued + 1)) row).keys = _
    rw [hput, List.map_append, ← hk]
    simp [Shelf.keys]
  · refine List.pairwise_append.mpr ⟨hp, List.pairwise_singleton _ _, fun n hm k hk => ?_⟩
    cases List.mem_singleton.mp hk
    exact Nat.lt_succ_of_le (hn n hm)
  · rcases List.mem_append.mp hm with hm | hm
    · exact Nat.le_succ_of_le (hn n hm)
    · exact Nat.le_of_eq (List.mem_singleton.mp hm)

theorem records_put_next (hids : StrictMono idOf) (h : Filed idOf issued id t) :
    Shelf.records (t.rows.put (idOf (issued + 1)) row) = t.rows.records ++ [row] := by
  rw [Shelf.put_of_new (h.get?_next hids)]
  simp [Shelf.records]

/-- A row takes the place of the one that had its id. -/
theorem put_old (hids : StrictMono idOf) (h : Filed idOf issued id t)
    (hr : t.rows.get? s = some old) (hid : id row = s) :
    Filed idOf issued id { t with rows := t.rows.put s row } := by
  refine ⟨h.state, ?_, ?_⟩
  · rintro ⟨k, b⟩ hm
    rcases (Shelf.mem_put_iff (h.distinct hids)).mp hm with ⟨rfl, rfl⟩ | ⟨-, hm⟩
    · exact hid
    · exact h.own _ hm
  · rw [Shelf.keys_put_of_old hr]
    exact h.keys

theorem erase (h : Filed idOf issued id t) (s : String) :
    Filed idOf issued id { t with rows := t.rows.erase s } := by
  obtain ⟨ns, hk, hp, hn⟩ := h.keys
  have hsub : (Shelf.keys (t.rows.erase s)).Sublist (ns.map idOf) :=
    hk ▸ Shelf.erase_sublist.map _
  obtain ⟨kept, hkept, heq⟩ := List.sublist_map_iff.mp hsub
  exact ⟨h.state, fun p hm => h.own p (Shelf.erase_sublist.subset hm), kept, heq,
    hp.sublist hkept, fun n hm => hn n (hkept.subset hm)⟩

end Filed

/-! ## Reading in order -/

namespace Tables

theorem sortedByTexts_of_sorted {first second : α → String} {rows : List α}
    (hf : rows.Pairwise fun a b => first a ≤ first b)
    (hs : rows.Pairwise fun a b => second a < second b) : sortedByTexts first second rows = rows := by
  refine List.mergeSort_of_pairwise ((hf.and hs).imp fun {a b} h => ?_)
  rcases lt_or_eq_of_le h.1 with hlt | heq
  · simp [hlt]
  · simp [heq, le_of_lt h.2]

/-- The rows under some ids that are asked for in order come in this order. -/
theorem sortedBy_filter {idOf : Nat → String} {issued : Nat} {id : α → String} {t : Table α}
    (hids : StrictMono idOf) (h : Filed idOf issued id t) {ids : List String}
    (hasked : ids.Pairwise (· < ·)) :
    sortedBy id (t.rows.records.filter fun row => ids.contains (id row)) =
      ids.filterMap t.rows.get? := by
  have hsorted : (t.rows.records.filter fun row => ids.contains (id row)).Pairwise
      fun a b => id a < id b := (h.sorted hids).filter _
  have hfound : (ids.filterMap t.rows.get?).Pairwise fun a b => id a < id b := by
    refine List.pairwise_filterMap.mpr (hasked.imp fun hlt a ha b hb => ?_)
    rwa [h.id_of_get? ha, h.id_of_get? hb]
  have hself : sortedBy id (t.rows.records.filter fun row => ids.contains (id row)) =
      t.rows.records.filter fun row => ids.contains (id row) :=
    List.mergeSort_of_pairwise (hsorted.imp fun hlt => by simpa using le_of_lt hlt)
  rw [hself]
  -- both lists are in order, so it is enough that they hold the same rows
  have hnodup {rows : List α} (hp : rows.Pairwise fun a b => id a < id b) : rows.Nodup := by
    refine List.Pairwise.imp (fun {a b} hlt (heq : a = b) => ?_) hp
    exact lt_irrefl _ (heq ▸ hlt)
  refine List.Perm.eq_of_pairwise (fun a b _ _ hab hba => absurd hab (lt_asymm hba)) hsorted hfound
    ((List.perm_ext_iff_of_nodup (hnodup hsorted) (hnodup hfound)).mpr fun row => ?_)
  rw [List.mem_filter, List.mem_filterMap]
  constructor
  · rintro ⟨hr, hid⟩
    exact ⟨id row, by simpa using hid, h.get?_of_mem hids hr⟩
  · rintro ⟨s, hs, hr⟩
    exact ⟨Shelf.mem_records_of_get? hr, by simpa [h.id_of_get? hr] using hs⟩

end Tables

namespace Memory

theorem stampAll_of_dated {stamps : List Stamp} {xs : List Vulnerability}
    (h : xs.map Vulnerability.detectedAt = stamps.map fun a => .text a.text) :
    stampAll xs = .ok (stamps.zip xs) := by
  induction xs generalizing stamps with
  | nil => cases stamps with
    | nil => rfl
    | cons => cases h
  | cons x rest ih =>
    cases stamps with
    | nil => cases h
    | cons a stamps =>
      obtain ⟨hx, hrest⟩ := List.cons.inj h
      simp [stampAll, hx, requireStampValue_text, ih hrest]

/-- What was detected one after another is listed so. -/
theorem byDetection_of_dated {clock : Stamp} {texts : List String} {xs : List Vulnerability}
    (h : Dated clock texts) (hx : xs.map Vulnerability.detectedAt = texts.map .text) :
    byDetection xs = .ok xs := by
  obtain ⟨stamps, rfl, hp, -⟩ := h
  have hx : xs.map Vulnerability.detectedAt = stamps.map fun a => .text a.text := by
    rw [hx, List.map_map]
    rfl
  have hlen : xs.length = stamps.length := by simpa using congrArg List.length hx
  have hsorted : (stamps.zip xs).Pairwise fun a b => a.1.le b.1 = true := by
    have hfst : (stamps.zip xs).map Prod.fst = stamps := List.map_fst_zip (Nat.le_of_eq hlen.symm)
    exact List.pairwise_map.mp (hfst.symm ▸ hp)
  simp only [byDetection, stampAll_of_dated hx]
  rw [List.mergeSort_of_pairwise hsorted, List.map_snd_zip (Nat.le_of_eq hlen)]

end Memory

/-- A store in memory lists named records as a table does. -/
theorem Memory.inOrder_map {f : α → β} {name : α → String} {key : β → Value} {rows : List α}
    (hk : ∀ a, key (f a) = .text (name a)) :
    inOrder key (rows.map f) = .ok ((Tables.sortedBy name rows).map f) := by
  have hall : Value.allOrdered ((rows.map f).map key) = true := by
    induction rows with
    | nil => rfl
    | cons a rest ih =>
      simp only [List.map_cons, Value.allOrdered, ih, Bool.and_true, List.all_eq_true]
      intro v hv
      simp only [List.mem_map] at hv
      obtain ⟨_, ⟨b, -, rfl⟩, rfl⟩ := hv
      simp [hk]
  rw [inOrder, Value.sortedBy?, if_pos hall]
  refine congrArg Except.ok (List.map_mergeSort fun a _ b _ => ?_).symm
  rw [hk, hk, Value.before?_text]
  exact decide_eq_decide.mpr (by rw [ne_eq, Option.some.injEq, decide_eq_true_eq, not_lt])

end PropertyRisk
