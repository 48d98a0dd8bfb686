import PropertyRisk.Proofs.Comparable

/-!
# Rounding to binary64 numbers

Rounding keeps the order of magnitudes, `Binary64.roundUnits_mono`, and leaves a magnitude that has
a binary64 number of its own as it is, `Binary64.roundUnits_of_onGrid`. So the integers are made
numbers in their order, those up to 2^53 without loss.
-/

namespace PropertyRisk

namespace Binary64

/-! ## Magnitudes on the grid -/

/-- A magnitude on the grid of binary64 numbers: neighbours there are its divisors apart. -/
def OnGrid (units : Nat) : Prop := spacing units ∣ units

/-- The numbers that there are: finite ones below the limit and on the grid, and all others. -/
inductive IsRepresentable : Binary64 → Prop
  | nan : IsRepresentable .nan
  | infinite (negative : Bool) : IsRepresentable (.infinite negative)
  | finite (negative : Bool) {units : Nat} (hlimit : units < limit) (hgrid : OnGrid units) :
      IsRepresentable (.finite negative units)

theorem spacing_pos (n : Nat) : 0 < spacing n := Nat.two_pow_pos _

theorem spacing_dvd {n a : Nat} (h : n < 2 ^ (a + 53)) : spacing n ∣ 2 ^ a := by
  refine Nat.pow_dvd_pow 2 ?_
  rcases Nat.eq_zero_or_pos n with rfl | hn
  · simp
  · have := (Nat.log2_lt (by omega)).mpr h
    omega

theorem onGrid_of_dvd {n a : Nat} (h : n ≤ 2 ^ (a + 53)) (hd : 2 ^ a ∣ n) : OnGrid n := by
  rcases Nat.lt_or_ge n (2 ^ (a + 53)) with hlt | hge
  · exact (spacing_dvd hlt).trans hd
  · have heq : n = 2 ^ (a + 53) := Nat.le_antisymm h hge
    have hpow : 2 ^ (a + 53) < 2 ^ (a + 1 + 53) := Nat.pow_lt_pow_right (by decide) (by omega)
    have hstep : spacing n ∣ 2 ^ (a + 1) := spacing_dvd (by omega)
    have hnext : 2 ^ (a + 1) ∣ 2 ^ (a + 53) := Nat.pow_dvd_pow 2 (by omega)
    rw [← heq] at hnext
    exact hstep.trans hnext

/-- A magnitude is less than 2^53 steps to its neighbours. -/
theorem lt_steps (n : Nat) : n < 2 ^ 53 * spacing n := by
  have hn : n < 2 ^ (n.log2 + 1) := Nat.lt_log2_self
  have hstep : 2 ^ 53 * spacing n = 2 ^ (53 + (n.log2 - 52)) := (Nat.pow_add 2 _ _).symm
  rw [hstep]
  exact Nat.lt_of_lt_of_le hn (Nat.pow_le_pow_right (by decide) (by omega))

/-- What is rounded to is on the grid. -/
theorem onGrid_roundUnits (num den : Nat) : OnGrid (roundUnits num den) := by
  -- the step is chosen by the quotient, which may be rounded up to the next power of two
  have hlow : num / (den * spacing (num / den)) < 2 ^ 53 := by
    rw [← Nat.div_div_eq_div_mul]
    exact (Nat.div_lt_iff_lt_mul (spacing_pos _)).mpr (lt_steps _)
  have hround := roundDiv_le num (den * spacing (num / den))
  refine onGrid_of_dvd (a := (num / den).log2 - 52) ?_ (Nat.dvd_mul_left _ _)
  rw [Nat.add_comm, Nat.pow_add]
  exact Nat.mul_le_mul_right _ (by omega)

theorem roundDiv_mul (k : Nat) {d : Nat} (hd : 0 < d) : roundDiv (k * d) d = k := by
  simp [roundDiv, Nat.mul_div_cancel k hd, hd]

/-- A magnitude on the grid is rounded to itself. -/
theorem roundUnits_of_onGrid {n : Nat} (h : OnGrid n) : roundUnits n 1 = n := by
  obtain ⟨k, hk⟩ := h
  have hround : roundDiv n (spacing n) = k := by
    have := roundDiv_mul k (spacing_pos n)
    rwa [Nat.mul_comm, ← hk] at this
  rw [roundUnits_one, hround, Nat.mul_comm, ← hk]

/-! ## Order -/

theorem roundDiv_mono {m n : Nat} (d : Nat) (h : m ≤ n) : roundDiv m d ≤ roundDiv n d := by
  rcases Nat.lt_or_eq_of_le (Nat.div_le_div_right (c := d) h) with hlt | heq
  · have := roundDiv_le m d
    have := div_le_roundDiv n d
    omega
  · -- within one step the remainders decide
    have hrest : m % d ≤ n % d := by
      have hm := Nat.div_add_mod m d
      have hn := Nat.div_add_mod n d
      rw [heq] at hm
      omega
    unfold roundDiv
    rw [heq]
    simp only
    repeat' split
    all_goals omega

theorem log2_le_log2 {m n : Nat} (hm : m ≠ 0) (h : m ≤ n) : m.log2 ≤ n.log2 :=
  (Nat.le_log2 (by omega)).mpr ((Nat.log2_self_le hm).trans h)

/-- Rounding in steps does not pass a multiple of the step. -/
theorem roundDiv_mul_le {n p d : Nat} (hd : d ∣ p) (h : n < p) : roundDiv n d * d ≤ p := by
  obtain ⟨k, rfl⟩ := hd
  have hlow : n / d < k := Nat.div_lt_of_lt_mul h
  have hround := roundDiv_le n d
  calc roundDiv n d * d ≤ k * d := Nat.mul_le_mul_right _ (by omega)
    _ = d * k := Nat.mul_comm _ _

theorem roundUnits_mono {m n : Nat} (h : m ≤ n) : roundUnits m 1 ≤ roundUnits n 1 := by
  rcases Nat.eq_zero_or_pos m with rfl | hm
  · have hzero : roundDiv 0 (spacing 0) = 0 := by simpa using roundDiv_mul 0 (spacing_pos 0)
    rw [roundUnits_one, hzero]
    omega
  rcases Nat.eq_or_lt_of_le (log2_le_log2 (by omega) h) with heq | hlt
  · have hstep : spacing m = spacing n := congrArg (fun a => 2 ^ (a - 52)) heq
    rw [roundUnits_one, roundUnits_one, hstep]
    exact Nat.mul_le_mul_right _ (roundDiv_mono _ h)
  · -- a power of two lies between them
    calc roundUnits m 1 ≤ 2 ^ (m.log2 + 1) := by
          rw [roundUnits_one]
          exact roundDiv_mul_le (Nat.pow_dvd_pow 2 (by omega)) Nat.lt_log2_self
      _ ≤ 2 ^ n.log2 := Nat.pow_le_pow_right (by decide) hlt
      _ ≤ roundUnits n 1 := le_roundUnits (Nat.log2_self_le (by omega))

/-! ## Integers -/

theorem pos_of_eq_pow {n a : Nat} (h : n = Nat.pow 2 a) : 0 < n := h ▸ Nat.two_pow_pos a

theorem unitsPerOne_pos : 0 < unitsPerOne := pos_of_eq_pow unitsPerOne_eq

theorem limit_pos : 0 < limit := pos_of_eq_pow limit_eq

/-- The place of the number nearest to an integer. -/
def nearest (n : Int) : Int := signed (decide (n < 0)) (roundUnits (n.natAbs * unitsPerOne) 1)

theorem ofInt?_eq_some {n : Int} {x : Binary64} (h : ofInt? n = some x) :
    roundUnits (n.natAbs * unitsPerOne) 1 < limit ∧
      x = .finite (decide (n < 0)) (roundUnits (n.natAbs * unitsPerOne) 1) := by
  unfold ofInt? at h
  simp only at h
  split at h
  · cases h
  · rename_i hlimit
    exact ⟨Nat.lt_of_not_le hlimit, (Option.some.inj h).symm⟩

theorem place_ofInt? {n : Int} {x : Binary64} (h : ofInt? n = some x) :
    x.place = some (nearest n) := by
  rw [(ofInt?_eq_some h).2]
  rfl

theorem nearest_mono {m n : Int} (h : m ≤ n) : nearest m ≤ nearest n := by
  have hround {m n : Int} (h : m.natAbs ≤ n.natAbs) :
      roundUnits (m.natAbs * unitsPerOne) 1 ≤ roundUnits (n.natAbs * unitsPerOne) 1 :=
    roundUnits_mono (Nat.mul_le_mul_right _ h)
  unfold nearest signed
  by_cases hm : m < 0 <;> by_cases hn : n < 0 <;>
    simp only [hm, hn, decide_true, decide_false, if_true, if_false, Bool.false_eq_true]
  · -- of two negative numbers the greater one is nearer to zero
    have := hround (show n.natAbs ≤ m.natAbs by omega)
    omega
  · omega
  · omega
  · have := hround (show m.natAbs ≤ n.natAbs by omega)
    omega

/-- An integer whose magnitude is on the grid is made the number that it is. -/
theorem nearest_of_onGrid {n : Int} (h : OnGrid (n.natAbs * unitsPerOne)) :
    nearest n = n * unitsPerOne := by
  rw [nearest, roundUnits_of_onGrid h, signed]
  by_cases hn : n < 0
  · have habs : (n.natAbs : Int) = -n := by omega
    rw [decide_eq_true hn, if_pos rfl, Int.natCast_mul, habs, Int.neg_mul, Int.neg_neg]
  · have habs : (n.natAbs : Int) = n := by omega
    rw [decide_eq_false hn, if_neg Bool.false_ne_true, Int.natCast_mul, habs]

theorem onGrid_mul {n k a : Nat} (hk : k = Nat.pow 2 a) (hn : n ≤ 2 ^ 53) : OnGrid (n * k) := by
  subst hk
  refine onGrid_of_dvd (a := a) ?_ (Nat.dvd_mul_left _ _)
  rw [Nat.add_comm, Nat.pow_add]
  exact Nat.mul_le_mul_right _ hn

/-- Integers up to 2^53 are made numbers without loss. -/
theorem nearest_of_le {n : Int} (h : n.natAbs ≤ 2 ^ 53) : nearest n = n * unitsPerOne :=
  nearest_of_onGrid (onGrid_mul unitsPerOne_eq h)

/-! ## Numbers that are read -/

theorem isRepresentable_zero (negative : Bool) : (finite negative 0).IsRepresentable :=
  .finite negative limit_pos (Nat.dvd_zero _)

theorem isRepresentable_ofUnits (negative : Bool) (num den : Nat) :
    (ofUnits negative (roundUnits num den)).IsRepresentable := by
  unfold ofUnits
  split
  · exact .infinite negative
  · exact .finite negative (Nat.lt_of_not_le ‹_›) (onGrid_roundUnits num den)

theorem isRepresentable_ofInt? {n : Int} {x : Binary64} (h : ofInt? n = some x) :
    x.IsRepresentable := by
  obtain ⟨hlimit, rfl⟩ := ofInt?_eq_some h
  exact .finite _ hlimit (onGrid_roundUnits _ _)

end Binary64

namespace Number

open Binary64

theorem isRepresentable_ofDecimal (negative : Bool) (digits : Nat) (exponent : Int) :
    (ofDecimal negative digits exponent).IsRepresentable := by
  unfold ofDecimal
  simp only
  repeat' split
  · exact isRepresentable_zero negative
  · exact .infinite negative
  · exact isRepresentable_zero negative
  · exact isRepresentable_ofUnits _ _ _
  · exact isRepresentable_ofUnits _ _ _

theorem isRepresentable_readDecimal {negative : Bool} {cs : List Char} {x : Binary64}
    (h : readDecimal negative cs = some x) : x.IsRepresentable := by
  unfold readDecimal at h
  split at h
  · simp only at h
    split at h
    · cases h
    · obtain ⟨e, -, rfl⟩ := Option.map_eq_some_iff.mp h
      exact isRepresentable_ofDecimal _ _ _
  · cases h
  · obtain ⟨e, -, rfl⟩ := Option.map_eq_some_iff.mp h
    exact isRepresentable_ofDecimal _ _ _

/-- Whatever is read as a number is one of those that there are. -/
theorem isRepresentable_read? {cs : List Char} {x : Binary64} (h : read? cs = some x) :
    x.IsRepresentable := by
  unfold read? at h
  simp only at h
  split at h
  · cases h
    exact .infinite _
  split at h
  · cases h
    exact .nan
  · obtain ⟨digits, -, hdecimal⟩ := Option.bind_eq_some_iff.mp h
    exact isRepresentable_readDecimal hdecimal

end Number

end PropertyRisk
