import PropertyRisk.Store.Shelf
import Mathlib.Data.List.Nodup

/-!
# Laws of shelves

Look-up and membership say the same of a shelf whose keys are distinct. Putting
under a new key appends, under an old one it keeps every key in its place.
Relabelling keys and records commutes with all of them.
-/

namespace PropertyRisk.Shelf

variable {κ κ' α β : Type} [DecidableEq κ] [DecidableEq κ']
  {shelf : Shelf κ α} {key k : κ} {a b : α}

def keys (shelf : Shelf κ α) : List κ := shelf.map (·.1)

/-- No two records are under one key. -/
def Distinct (shelf : Shelf κ α) : Prop := (keys shelf).Nodup

omit [DecidableEq κ] in
theorem distinct_nil : Distinct ([] : Shelf κ α) := List.nodup_nil

theorem mem_of_get? (h : get? shelf key = some a) : (key, a) ∈ shelf := by
  induction shelf with
  | nil => simp at h
  | cons head rest ih =>
    obtain ⟨j, b⟩ := head
    rw [get?_cons] at h
    split at h
    · cases h; subst key; exact List.mem_cons_self
    · exact List.mem_cons_of_mem _ (ih h)

theorem get?_eq_some_iff (hd : Distinct shelf) : get? shelf key = some a ↔ (key, a) ∈ shelf := by
  refine ⟨mem_of_get?, fun h => ?_⟩
  induction shelf with
  | nil => cases h
  | cons head rest ih =>
    obtain ⟨j, b⟩ := head
    obtain ⟨hj, hrest⟩ := List.nodup_cons.mp hd
    rw [get?_cons]
    rcases List.mem_cons.mp h with h | h
    · cases h; simp
    · have : key ≠ j := fun hk => hj (hk ▸ List.mem_map.mpr ⟨_, h, rfl⟩)
      rw [if_neg this, ih hrest h]

theorem get?_eq_none_iff : get? shelf key = none ↔ key ∉ keys shelf := by
  induction shelf with
  | nil => simp [keys]
  | cons head rest ih =>
    obtain ⟨j, b⟩ := head
    rw [get?_cons]
    by_cases h : key = j
    · simp [keys, h]
    · simpa [keys, h] using ih

theorem mem_keys_of_get? (h : get? shelf key = some a) : key ∈ keys shelf :=
  List.mem_map.mpr ⟨_, mem_of_get? h, rfl⟩

theorem exists_get?_of_mem_keys (h : key ∈ keys shelf) : ∃ a, get? shelf key = some a :=
  Option.ne_none_iff_exists'.mp fun hnone => get?_eq_none_iff.mp hnone h

omit [DecidableEq κ] in
theorem mem_records : a ∈ records shelf ↔ ∃ k, (k, a) ∈ shelf := by
  simp [records]

theorem mem_records_of_get? (h : get? shelf key = some a) : a ∈ records shelf :=
  mem_records.mpr ⟨key, mem_of_get? h⟩

/-! ## Putting -/

theorem put_of_new (h : get? shelf key = none) : put key a shelf = shelf ++ [(key, a)] := by
  induction shelf with
  | nil => rfl
  | cons head rest ih =>
    obtain ⟨j, b⟩ := head
    rw [get?_cons] at h
    split at h
    · cases h
    · rename_i hj
      rw [put, if_neg (Ne.symm hj), ih h, List.cons_append]

theorem records_put_of_new (h : get? shelf key = none) :
    records (put key a shelf) = records shelf ++ [a] := by
  rw [put_of_new h]
  exact List.map_append

theorem keys_put_of_old (h : get? shelf key = some b) : keys (put key a shelf) = keys shelf := by
  induction shelf with
  | nil => simp at h
  | cons head rest ih =>
    obtain ⟨j, c⟩ := head
    rw [get?_cons] at h
    unfold put
    by_cases hj : j = key
    · simp [hj, keys]
    · rw [if_neg (Ne.symm hj)] at h
      simp only [if_neg hj]
      exact congrArg (j :: ·) (ih h)

theorem mem_keys_put : k ∈ keys (put key a shelf) ↔ k = key ∨ k ∈ keys shelf := by
  have h : get? (put key a shelf) k ≠ none ↔ k ∈ keys (put key a shelf) := by
    rw [ne_eq, get?_eq_none_iff, not_not]
  rw [get?_put] at h
  rw [← h]
  by_cases hk : k = key
  · simp [hk]
  · simp [hk, get?_eq_none_iff]

theorem distinct_put (hd : Distinct shelf) : Distinct (put key a shelf) := by
  cases h : get? shelf key with
  | some b => rwa [Distinct, keys_put_of_old h]
  | none =>
    rw [put_of_new h, Distinct, keys, List.map_append]
    refine List.Nodup.append hd (List.nodup_singleton _) ?_
    simpa [keys] using get?_eq_none_iff.mp h

theorem mem_put_iff (hd : Distinct shelf) :
    (k, b) ∈ put key a shelf ↔ (k = key ∧ b = a) ∨ (k ≠ key ∧ (k, b) ∈ shelf) := by
  rw [← get?_eq_some_iff (distinct_put hd), get?_put, ← get?_eq_some_iff hd]
  by_cases h : k = key
  · simp [h, eq_comm]
  · simp [h]

theorem mem_records_put (h : b ∈ records (put key a shelf)) : b = a ∨ b ∈ records shelf := by
  induction shelf with
  | nil => exact .inl (by simpa [put, records] using h)
  | cons head rest ih =>
    obtain ⟨j, c⟩ := head
    unfold put at h
    split at h
    · rcases List.mem_cons.mp h with h | h
      · exact .inl h
      · exact .inr (List.mem_cons_of_mem _ h)
    · rcases List.mem_cons.mp h with rfl | h
      · exact .inr List.mem_cons_self
      · exact (ih h).imp_right (List.mem_cons_of_mem _)

/-- What is the same of the new record as of the old one is the same along the whole shelf. -/
theorem map_records_put {f : α → β} (h : get? shelf key = some b) (hf : f a = f b) :
    (records (put key a shelf)).map f = (records shelf).map f := by
  induction shelf with
  | nil => simp at h
  | cons head rest ih =>
    obtain ⟨j, c⟩ := head
    rw [get?_cons] at h
    unfold put
    by_cases hj : j = key
    · simp only [hj, if_true, Option.some.injEq] at h
      simp [hj, records, hf, h]
    · rw [if_neg (Ne.symm hj)] at h
      simp only [if_neg hj]
      exact congrArg (f c :: ·) (ih h)

/-- A new record that is related to others as the old one was. -/
theorem pairwise_records_put {R : α → α → Prop} (hs : (records shelf).Pairwise R)
    (h : get? shelf key = some b) (hl : ∀ c, R c b → R c a) (hr : ∀ c, R b c → R a c) :
    (records (put key a shelf)).Pairwise R := by
  induction shelf with
  | nil => simp at h
  | cons head rest ih =>
    obtain ⟨j, c⟩ := head
    obtain ⟨hc, hrest⟩ := List.pairwise_cons.mp hs
    rw [get?_cons] at h
    unfold put
    by_cases hj : j = key
    · simp only [hj, if_true, Option.some.injEq] at h ⊢
      exact List.pairwise_cons.mpr ⟨fun d hd => hr d (h ▸ hc d hd), hrest⟩
    · rw [if_neg (Ne.symm hj)] at h
      simp only [if_neg hj]
      refine List.pairwise_cons.mpr ⟨fun d hd => ?_, ih hrest h⟩
      rcases mem_records_put hd with rfl | hd
      · exact hl c (hc b (mem_records_of_get? h))
      · exact hc d hd

/-! ## Erasing -/

theorem mem_erase_iff : (k, b) ∈ erase key shelf ↔ k ≠ key ∧ (k, b) ∈ shelf := by
  simp [erase, and_comm]

theorem erase_sublist : List.Sublist (erase key shelf) shelf := List.filter_sublist

theorem mem_records_of_erase (h : b ∈ records (erase key shelf)) : b ∈ records shelf :=
  (erase_sublist.map _).subset h

theorem distinct_erase (hd : Distinct shelf) : Distinct (erase key shelf) :=
  hd.sublist (erase_sublist.map _)

theorem erase_of_get?_none (h : get? shelf key = none) : erase key shelf = shelf := by
  refine List.filter_eq_self.mpr fun p hp => ?_
  have : key ∉ keys shelf := get?_eq_none_iff.mp h
  simp only [ne_eq, decide_eq_true_eq]
  exact fun hk => this (hk ▸ List.mem_map.mpr ⟨p, hp, rfl⟩)

/-! ## Relabelling -/

/-- The same records under other keys, each record turned into another. -/
def relabel (f : κ → κ') (g : α → β) (shelf : Shelf κ α) : Shelf κ' β := shelf.map (Prod.map f g)

variable {f : κ → κ'} {g : α → β}

omit [DecidableEq κ] [DecidableEq κ'] in
@[simp] theorem relabel_nil : relabel f g ([] : Shelf κ α) = [] := rfl

omit [DecidableEq κ] [DecidableEq κ'] in
@[simp] theorem records_relabel : records (relabel f g shelf) = (records shelf).map g := by
  simp [records, relabel]

omit [DecidableEq κ] [DecidableEq κ'] in
theorem keys_relabel : keys (relabel f g shelf) = (keys shelf).map f := by
  simp [keys, relabel]

theorem get?_relabel (hf : Function.Injective f) :
    get? (relabel f g shelf) (f key) = (get? shelf key).map g := by
  induction shelf with
  | nil => rfl
  | cons head rest ih =>
    obtain ⟨j, b⟩ := head
    show get? ((f j, g b) :: relabel f g rest) (f key) = _
    rw [get?_cons, get?_cons, ih]
    by_cases h : key = j
    · simp [h]
    · simp [h, hf.ne h]

theorem put_relabel (hf : Function.Injective f) :
    put (f key) (g a) (relabel f g shelf) = relabel f g (put key a shelf) := by
  induction shelf with
  | nil => rfl
  | cons head rest ih =>
    obtain ⟨j, b⟩ := head
    show put (f key) (g a) ((f j, g b) :: relabel f g rest) = _
    unfold put
    by_cases h : j = key
    · simp [h, relabel]
    · rw [if_neg (hf.ne h), if_neg h, ih]; rfl

theorem erase_relabel (hf : Function.Injective f) :
    erase (f key) (relabel f g shelf) = relabel f g (erase key shelf) := by
  simp only [erase, relabel, List.filter_map]
  congr 1
  refine List.filter_congr fun p _ => ?_
  simp [hf.eq_iff]

end PropertyRisk.Shelf
