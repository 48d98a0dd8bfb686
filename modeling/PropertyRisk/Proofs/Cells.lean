import PropertyRisk.Proofs.Timestamps
import PropertyRisk.Store.Cell
import Mathlib.Algebra.Group.Nat.Defs

/-!
# Columns keep what they kept

`Cell.number_of_number`: what a number column has made of a value it takes as it
is. The case that needs an argument is a text of digits that write a number past
64 bits: the nearest binary64 number is past them too, so it is not narrowed.
-/

namespace PropertyRisk

namespace Number

theorem ofDecimal_ne_nan (negative : Bool) (digits : Nat) (exponent : Int) :
    ofDecimal negative digits exponent ≠ .nan := by
  have hu (units : Nat) : Binary64.ofUnits negative units ≠ .nan := by
    unfold Binary64.ofUnits
    split
    · exact Binary64.noConfusion
    · exact Binary64.noConfusion
  unfold ofDecimal
  split
  · simp
  · simp only
    repeat' split
    all_goals first
      | (simp only [ne_eq, reduceCtorEq, not_false_eq_true]; done)
      | exact hu _

theorem readDecimal_ne_nan (negative : Bool) (cs : List Char) :
    readDecimal negative cs ≠ some .nan := by
  have h (o : Option Int) (f : Int → Binary64) (hf : ∀ e, f e ≠ .nan) : o.map f ≠ some .nan := by
    intro he
    obtain ⟨e, -, he⟩ := Option.map_eq_some_iff.mp he
    exact hf e he
  unfold readDecimal
  split
  · simp only
    split
    · simp
    · exact h _ _ fun e => ofDecimal_ne_nan _ _ _
  · simp
  · exact h _ _ fun e => ofDecimal_ne_nan _ _ _

theorem digitValue?_of_isDigit {c : Char} (h : c.isDigit = true) :
    digitValue? c = some (c.toNat - 48) := by
  simp only [Char.isDigit, Bool.and_eq_true, decide_eq_true_eq] at h
  have h1 : 48 ≤ c.toNat := h.1
  have h2 : c.toNat ≤ 57 := h.2
  have h3 : c.toNat < 58 := by omega
  simp [digitValue?, digitZeros, h1, h3]

theorem takeDigits_of_all {cs : List Char} (h : ∀ c ∈ cs, c.isDigit = true) :
    takeDigits cs = (cs.filterMap asciiDigit?, []) := by
  induction cs with
  | nil => rfl
  | cons c rest ih =>
    have hc := h c List.mem_cons_self
    rw [takeDigits, digitValue?_of_isDigit hc, ih fun d hd => h d (List.mem_cons_of_mem _ hd),
      List.filterMap_cons_some (asciiDigit?_of_isDigit hc)]

/-- A text of digits reads as the number nearest to the one they write. -/
theorem readDecimal_of_all {negative : Bool} {cs : List Char} {x : Binary64}
    (h : ∀ c ∈ cs, c.isDigit = true) (hx : readDecimal negative cs = some x) :
    x = ofDecimal negative (ofDigits (cs.filterMap asciiDigit?)) 0 := by
  rw [readDecimal, takeDigits_of_all h] at hx
  split at hx
  · rename_i h; cases h
  · cases hx
  · rename_i h
    cases h
    cases hx
    rfl

end Number

namespace Binary64

theorem unitsPerOne_eq : unitsPerOne = Nat.pow 2 1074 := by
  unfold unitsPerOne
  with_reducible rfl

theorem exists_pow_mul_pow {n b : Nat} (hn : n = Nat.pow 2 b) (a : Nat) :
    ∃ k, 2 ^ a * n = 2 ^ k :=
  ⟨a + b, hn ▸ (Nat.pow_add 2 a b).symm⟩

theorem div_le_roundDiv (num den : Nat) : num / den ≤ roundDiv num den := by
  unfold roundDiv
  simp only
  repeat' split
  all_goals omega

/-- Rounding does not go below a power of two that the magnitude reaches. -/
theorem le_roundUnits {k n : Nat} (h : 2 ^ k ≤ n) : 2 ^ k ≤ roundUnits n 1 := by
  have hn : n ≠ 0 := by have := Nat.two_pow_pos k; omega
  have hk : k ≤ n.log2 := (Nat.le_log2 hn).mpr h
  have hstep : 2 ^ n.log2 ≤ n / spacing n * spacing n := by
    have hd : spacing n ∣ 2 ^ n.log2 := Nat.pow_dvd_pow 2 (Nat.sub_le _ _)
    calc 2 ^ n.log2 = 2 ^ n.log2 / spacing n * spacing n := (Nat.div_mul_cancel hd).symm
      _ ≤ n / spacing n * spacing n :=
        Nat.mul_le_mul_right _ (Nat.div_le_div_right (Nat.log2_self_le hn))
  calc 2 ^ k ≤ 2 ^ n.log2 := Nat.pow_le_pow_right (by decide) hk
    _ ≤ n / spacing n * spacing n := hstep
    _ ≤ roundDiv n (spacing n) * spacing n := Nat.mul_le_mul_right _ (div_le_roundDiv _ _)
    _ = roundUnits n 1 := by simp [roundUnits]

end Binary64

namespace Cell

theorem number_float {x : Binary64} (h : x ≠ .nan) : number (.float x) = .ok (narrowed x) := by
  cases x with
  | nan => exact absurd rfl h
  | _ => rfl

theorem number_narrowed {x : Binary64} (h : x ≠ .nan) : number (narrowed x) = .ok (narrowed x) := by
  have hf : narrowed x = .float x ∨ ∃ n, narrowed x = .int n ∧ fitsWord n = true := by
    unfold narrowed
    split
    · split
      · rename_i n _ hn
        exact .inr ⟨n, rfl, by simp only [fitsWord, decide_eq_true_eq]; omega⟩
      · exact .inl rfl
    · exact .inl rfl
  rcases hf with hf | ⟨n, hn, hw⟩
  · rw [hf, number_float h, hf]
  · rw [hn, number_int hw]

theorem narrowed_infinite (negative : Bool) :
    narrowed (.infinite negative) = .float (.infinite negative) := rfl

theorem narrowed_finite {negative : Bool} {units : Nat}
    (h : 2 ^ 63 ≤ units / Binary64.unitsPerOne) :
    narrowed (.finite negative units) = .float (.finite negative units) := by
  unfold narrowed
  split
  · rename_i n hn
    simp only [Binary64.toInt?] at hn
    by_cases hm : units % Binary64.unitsPerOne = 0
    · rw [if_pos hm] at hn
      cases hn
      generalize units / Binary64.unitsPerOne = m at h
      rw [if_neg]
      cases negative <;> simp only [Binary64.signed, if_true, if_false, Bool.false_eq_true] <;> omega
    · rw [if_neg hm] at hn
      cases hn
  · rfl

theorem narrowed_of_large {negative : Bool} {n : Nat}
    (h : fitsWord (Binary64.signed negative n) = false) :
    narrowed (Number.ofDecimal negative n 0) = .float (Number.ofDecimal negative n 0) := by
  have hn : 2 ^ 63 ≤ n := by
    cases negative <;> simp [fitsWord, Binary64.signed] at h <;> omega
  have hunits (units : Nat) (hu : 2 ^ 63 ≤ units / Binary64.unitsPerOne) :
      narrowed (.ofUnits negative units) = .float (.ofUnits negative units) := by
    unfold Binary64.ofUnits
    split
    · exact narrowed_infinite negative
    · exact narrowed_finite hu
  -- the bound is a power of two, and rounding does not fall below one
  have hround : 2 ^ 63 ≤
      Binary64.roundUnits (n * Binary64.unitsPerOne) 1 / Binary64.unitsPerOne := by
    obtain ⟨k, hk⟩ : ∃ k, 2 ^ 63 * Binary64.unitsPerOne = 2 ^ k :=
      Binary64.exists_pow_mul_pow Binary64.unitsPerOne_eq 63
    have hpos : 0 < Binary64.unitsPerOne := Nat.pos_of_ne_zero fun h => by
      have := Nat.two_pow_pos k
      rw [← hk, h] at this
      omega
    rw [Nat.le_div_iff_mul_le hpos, hk]
    exact Binary64.le_roundUnits (hk ▸ Nat.mul_le_mul_right _ hn)
  have h0 : n ≠ 0 := by omega
  unfold Number.ofDecimal
  simp only [if_neg h0]
  split
  · exact narrowed_infinite negative
  · rw [if_neg (by omega), if_pos (Int.le_refl 0)]
    simpa using hunits _ (by simpa using hround)

theorem number_of_readUnsigned? {negative : Bool} {cs : List Char} {p : Value}
    (h : readUnsigned? negative cs = some p) : number p = .ok p := by
  unfold readUnsigned? at h
  split at h
  · cases h
  · rename_i x hx
    have hnan : x ≠ .nan := fun he => Number.readDecimal_ne_nan negative cs (he ▸ hx)
    split at h
    · rename_i hall
      have hx' := Number.readDecimal_of_all (List.all_eq_true.mp hall) hx
      simp only at h
      split at h
      · rename_i hw
        cases h
        exact number_int hw
      · rename_i hw
        cases h
        rw [number_float hnan, hx', narrowed_of_large (Bool.not_eq_true _ ▸ hw)]
    · cases h
      exact number_narrowed hnan

theorem number_of_readNumber? {s : String} {p : Value} (h : readNumber? s = some p) :
    number p = .ok p := by
  unfold readNumber? at h
  split at h
  · split at h <;> exact number_of_readUnsigned? h
  · cases h

/-- What a number column keeps, it keeps again. -/
theorem number_of_number {x p : Value} (h : number x = .ok p) : number p = .ok p := by
  cases x with
  | null => cases h; rfl
  | bool b => cases h; cases b <;> rfl
  | int n =>
    simp only [number] at h
    split at h
    · rename_i hw
      cases h
      exact number_int hw
    · cases h
  | float x =>
    by_cases hx : x = .nan
    · subst hx
      cases h
      rfl
    · rw [number_float hx] at h
      cases h
      exact number_narrowed hx
  | text s =>
    simp only [number] at h
    split at h
    · cases h
    · rename_i hs
      cases h
      cases hr : readNumber? s with
      | none => simp [number, hs, hr]
      | some p => exact number_of_readNumber? hr
  | list items => cases h
  | object fields => cases h

end Cell

end PropertyRisk
