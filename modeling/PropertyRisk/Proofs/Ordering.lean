import PropertyRisk.Proofs.Congruence

/-!
# Integers in order

The order operators compare the binary64 numbers nearest to two integers, equality the integers
themselves. As long as different integers do not share their number the operators agree, and the
order is that of the integers. Where two integers collapse into one number, which happens past
2^53 only, neither is less than the other and still they are not equal.
-/

namespace PropertyRisk

namespace Binary64

variable {a b : Int}

theorem roundUnits_pos {n : Nat} (h : 0 < n) : 0 < roundUnits n 1 :=
  le_roundUnits (k := 0) h

theorem eq_zero_of_roundUnits {n : Int} (h : roundUnits (n.natAbs * unitsPerOne) 1 = 0) :
    n = 0 := by
  by_contra hn
  exact (roundUnits_pos (Nat.mul_pos (Int.natAbs_pos.mpr hn) unitsPerOne_pos)).ne' h

/-- Integers that stand at one place are made one number. -/
theorem ofInt?_eq_of_nearest (h : nearest a = nearest b) : ofInt? a = ofInt? b := by
  obtain ⟨hunits, hsign⟩ := signed_inj.mp h
  have hnegative : decide (a < 0) = decide (b < 0) := by
    rcases hsign with hsign | hzero
    · exact hsign
    · rw [eq_zero_of_roundUnits hzero, eq_zero_of_roundUnits (hunits.symm.trans hzero)]
  unfold ofInt?
  simp only [hunits, hnegative]

/-- Integers are made one number just if they stand at one place. -/
theorem ofInt?_eq_iff (ha : ofInt? a ≠ none) : ofInt? a = ofInt? b ↔ nearest a = nearest b := by
  obtain ⟨x, hx⟩ := Option.ne_none_iff_exists'.mp ha
  constructor
  · intro h
    have hplace := (place_ofInt? hx).symm.trans (place_ofInt? (h.symm.trans hx))
    exact Option.some.inj hplace
  · exact ofInt?_eq_of_nearest

end Binary64

namespace Operator

/-- An operator holds of two integers. -/
def Holds (op : Operator) (a b : Int) : Prop := op.compare (.int a) (.int b) = .ok true

/-- Equality and the order operators agree on two integers, and the order is theirs. -/
structure OrdersIntegers (a b : Int) : Prop where
  exactlyOne : (lessThan.Holds a b ∧ ¬equals.Holds a b ∧ ¬greaterThan.Holds a b) ∨
    (¬lessThan.Holds a b ∧ equals.Holds a b ∧ ¬greaterThan.Holds a b) ∨
    (¬lessThan.Holds a b ∧ ¬equals.Holds a b ∧ greaterThan.Holds a b)
  lessOrEqual : lessOrEqual.Holds a b ↔ lessThan.Holds a b ∨ equals.Holds a b
  greaterOrEqual : greaterOrEqual.Holds a b ↔ greaterThan.Holds a b ∨ equals.Holds a b
  less : lessThan.Holds a b ↔ a < b
  greater : greaterThan.Holds a b ↔ b < a

variable {a b : Int}

theorem holds_equals : equals.Holds a b ↔ a = b := by
  unfold Holds
  simp [compare, Value.strictEqual, Value.equal]

section Fitting

variable (ha : Binary64.ofInt? a ≠ none) (hb : Binary64.ofInt? b ≠ none)

include ha hb

theorem holds_iff {op : Operator} {r : Int → Int → Bool} (h : op.onPlaces? = some r) :
    op.Holds a b ↔ r (Binary64.nearest a) (Binary64.nearest b) = true := by
  obtain ⟨x, hx⟩ := Option.ne_none_iff_exists'.mp ha
  obtain ⟨y, hy⟩ := Option.ne_none_iff_exists'.mp hb
  unfold Holds
  rw [compare_of_onPlaces h, Value.ordered_relate, Value.standing_int hx, Value.standing_int hy,
    Binary64.place_ofInt? hx, Binary64.place_ofInt? hy]
  exact (Except.ok.injEq _ _).to_iff

theorem holds_lessThan : lessThan.Holds a b ↔ Binary64.nearest a < Binary64.nearest b :=
  (holds_iff ha hb rfl).trans decide_eq_true_iff

theorem holds_greaterThan : greaterThan.Holds a b ↔ Binary64.nearest b < Binary64.nearest a :=
  (holds_iff ha hb rfl).trans decide_eq_true_iff

theorem holds_lessOrEqual : lessOrEqual.Holds a b ↔ Binary64.nearest a ≤ Binary64.nearest b :=
  (holds_iff ha hb rfl).trans decide_eq_true_iff

theorem holds_greaterOrEqual :
    greaterOrEqual.Holds a b ↔ Binary64.nearest b ≤ Binary64.nearest a :=
  (holds_iff ha hb rfl).trans decide_eq_true_iff

/-- Where the nearest numbers tell the integers apart, all comparisons are those of the integers. -/
theorem ordersIntegers (hshared : Binary64.nearest a = Binary64.nearest b → a = b) :
    OrdersIntegers a b := by
  have hless := holds_lessThan ha hb
  have hgreater := holds_greaterThan ha hb
  have hlessOrEqual := holds_lessOrEqual ha hb
  have hgreaterOrEqual := holds_greaterOrEqual ha hb
  have hequal : equals.Holds a b ↔ a = b := holds_equals
  -- rounding never turns the order around
  have hup : a ≤ b → Binary64.nearest a ≤ Binary64.nearest b := Binary64.nearest_mono
  have hdown : b ≤ a → Binary64.nearest b ≤ Binary64.nearest a := Binary64.nearest_mono
  exact
    { exactlyOne := by
        rw [hless, hequal, hgreater]
        omega
      lessOrEqual := by
        rw [hlessOrEqual, hless, hequal]
        omega
      greaterOrEqual := by
        rw [hgreaterOrEqual, hgreater, hequal]
        omega
      less := by
        rw [hless]
        omega
      greater := by
        rw [hgreater]
        omega }

/-- Different integers that share their number are in no order, and not equal. -/
theorem holds_of_shared (hshared : Binary64.nearest a = Binary64.nearest b) (hne : a ≠ b) :
    ¬lessThan.Holds a b ∧ ¬equals.Holds a b ∧ ¬greaterThan.Holds a b ∧
      lessOrEqual.Holds a b ∧ greaterOrEqual.Holds a b := by
  rw [holds_lessThan ha hb, holds_greaterThan ha hb, holds_lessOrEqual ha hb,
    holds_greaterOrEqual ha hb, holds_equals, hshared]
  simp [hne]

end Fitting

/-- Equality and the order operators always come to a truth value on integers that fit a binary64
number. They agree, and order the integers as they are, just if the two are equal or have different
nearest numbers; different ones that share their number are not both within 2^53, and of these none
is less, equal or greater, though each is less or equal and greater or equal. -/
theorem compare_integers (ha : a.natAbs < (2 ^ 54 - 1) * 2 ^ 970)
    (hb : b.natAbs < (2 ^ 54 - 1) * 2 ^ 970) :
    (∀ op, ∃ t, compare op (.int a) (.int b) = .ok t) ∧
      (OrdersIntegers a b ↔ (Binary64.ofInt? a = Binary64.ofInt? b → a = b)) ∧
      (Binary64.ofInt? a = Binary64.ofInt? b → a ≠ b →
        ¬lessThan.Holds a b ∧ ¬equals.Holds a b ∧ ¬greaterThan.Holds a b ∧
          lessOrEqual.Holds a b ∧ greaterOrEqual.Holds a b) ∧
      (a.natAbs ≤ 2 ^ 53 → b.natAbs ≤ 2 ^ 53 → Binary64.ofInt? a = Binary64.ofInt? b → a = b) := by
  have hfita : ¬(Value.int a).IsHuge := fun h => Nat.not_le.mpr ha (Value.isHuge_int.mp h)
  have hfitb : ¬(Value.int b).IsHuge := fun h => Nat.not_le.mpr hb (Value.isHuge_int.mp h)
  have hsomea : Binary64.ofInt? a ≠ none := fun h => hfita ⟨a, rfl, h⟩
  have hsomeb : Binary64.ofInt? b ≠ none := fun h => hfitb ⟨b, rfl, h⟩
  have hiff : Binary64.ofInt? a = Binary64.ofInt? b ↔ Binary64.nearest a = Binary64.nearest b :=
    Binary64.ofInt?_eq_iff hsomea
  rw [hiff]
  refine ⟨fun op => ?_, ⟨fun h hshared => ?_, ordersIntegers hsomea hsomeb⟩,
    holds_of_shared hsomea hsomeb, fun hsmalla hsmallb hshared => ?_⟩
  · exact (compare_of_not_huge hfita hfitb).imp fun _ ht => ht.1
  · by_contra hne
    obtain ⟨hless, hequal, hgreater, -⟩ := holds_of_shared hsomea hsomeb hshared hne
    exact absurd h.exactlyOne (by simp [hless, hequal, hgreater])
  · rw [Binary64.nearest_of_le hsmalla, Binary64.nearest_of_le hsmallb] at hshared
    exact Int.eq_of_mul_eq_mul_right (by exact_mod_cast Binary64.unitsPerOne_pos.ne') hshared

/-- The first integer that has no number of its own, and its neighbour. -/
theorem not_ordersIntegers_first : Binary64.ofInt? (2 ^ 53) = Binary64.ofInt? (2 ^ 53 + 1) ∧
    (2 ^ 53 + 1 : Int).natAbs < (2 ^ 54 - 1) * 2 ^ 970 ∧
    lessThan.compare (.int (2 ^ 53)) (.int (2 ^ 53 + 1)) = .ok false ∧
    equals.compare (.int (2 ^ 53)) (.int (2 ^ 53 + 1)) = .ok false ∧
    greaterThan.compare (.int (2 ^ 53)) (.int (2 ^ 53 + 1)) = .ok false ∧
    ¬OrdersIntegers (2 ^ 53) (2 ^ 53 + 1) := by
  have hless : lessThan.compare (.int (2 ^ 53)) (.int (2 ^ 53 + 1)) = .ok false := by
    decide +kernel
  have hequal : equals.compare (.int (2 ^ 53)) (.int (2 ^ 53 + 1)) = .ok false := by
    decide +kernel
  have hgreater : greaterThan.compare (.int (2 ^ 53)) (.int (2 ^ 53 + 1)) = .ok false := by
    decide +kernel
  refine ⟨by decide +kernel, by decide +kernel, hless, hequal, hgreater, fun h => ?_⟩
  have hone := h.exactlyOne
  unfold Holds at hone
  rw [hless, hequal, hgreater] at hone
  simp at hone

/-- Two integers past 2^53 that have numbers of their own. -/
theorem compare_integers_apart : OrdersIntegers (2 ^ 53) (2 ^ 53 + 2) :=
  (compare_integers (by decide +kernel) (by decide +kernel)).2.1.mpr
    fun h => absurd h (by decide +kernel)

end Operator

end PropertyRisk
