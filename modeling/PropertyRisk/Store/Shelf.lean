/-!
# Shelves

A shelf keeps records under keys, in the order in which the keys first came.
Putting a record under a key that is there already replaces it in place.
-/

namespace PropertyRisk

abbrev Shelf (κ α : Type) := List (κ × α)

namespace Shelf

variable {κ α : Type} [DecidableEq κ]

def get? (shelf : Shelf κ α) (key : κ) : Option α := shelf.lookup key

def put (key : κ) (a : α) : Shelf κ α → Shelf κ α
  | [] => [(key, a)]
  | (k, b) :: rest => if k = key then (k, a) :: rest else (k, b) :: put key a rest

def erase (key : κ) (shelf : Shelf κ α) : Shelf κ α := shelf.filter (·.1 ≠ key)

def records (shelf : Shelf κ α) : List α := shelf.map (·.2)

@[simp] theorem get?_nil (key : κ) : get? ([] : Shelf κ α) key = none := rfl

theorem get?_cons (k key : κ) (a : α) (rest : Shelf κ α) :
    get? ((k, a) :: rest) key = if key = k then some a else get? rest key := by
  simp only [get?, List.lookup_cons]
  by_cases h : key = k
  · simp [h]
  · simp [h, beq_eq_false_iff_ne.mpr h]

theorem get?_put (shelf : Shelf κ α) (key k : κ) (a : α) :
    get? (put key a shelf) k = if k = key then some a else get? shelf k := by
  induction shelf with
  | nil => simp [put, get?_cons]
  | cons head rest ih =>
    obtain ⟨j, b⟩ := head
    unfold put
    split
    · subst j; by_cases h : k = key <;> simp [get?_cons, h]
    · rw [get?_cons, ih, get?_cons]
      by_cases h : k = j
      · subst k; simp_all
      · simp [h]

theorem get?_erase (shelf : Shelf κ α) (key k : κ) :
    get? (erase key shelf) k = if k = key then none else get? shelf k := by
  induction shelf with
  | nil => simp [erase]
  | cons head rest ih =>
    obtain ⟨j, b⟩ := head
    unfold erase at ih ⊢
    by_cases h : j = key
    · subst j
      rw [List.filter_cons_of_neg (by simp), ih, get?_cons]
      by_cases hk : k = key <;> simp [hk]
    · rw [List.filter_cons_of_pos (by simpa using h), get?_cons, ih, get?_cons]
      by_cases hk : k = j
      · subst k; simp [h]
      · simp [hk]

end Shelf

end PropertyRisk
