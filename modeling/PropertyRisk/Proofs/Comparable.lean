import PropertyRisk.Condition.Evaluation
import PropertyRisk.Proofs.Cells
import Mathlib.Tactic.Ring

/-!
# What can be compared

Judging a tree on some observations comes to a truth value unless a leaf compares
by order and one of its sides is a whole number past every binary64 number. All
other values are made numbers, or compare as false.
-/

namespace PropertyRisk

/-! ## Numbers past the finite ones -/

namespace Binary64

/-- Rounding to multiples of `2 * half` reaches an even one from the tie below it on. -/
theorem le_roundDiv_iff {n half k : Nat} (hk : k % 2 = 1) (hn : n < (k + 1) * (2 * half)) :
    k + 1 ≤ roundDiv n (2 * half) ↔ (2 * k + 1) * half ≤ n := by
  have hhalf : 0 < half := by
    rcases Nat.eq_zero_or_pos half with rfl | h
    · simp at hn
    · exact h
  have hlow : n / (2 * half) ≤ k :=
    Nat.le_of_lt_succ ((Nat.div_lt_iff_lt_mul (by omega)).mpr hn)
  have hrest := Nat.mod_lt n (show 0 < 2 * half by omega)
  have hdiv := Nat.div_add_mod n (2 * half)
  unfold roundDiv
  simp only
  generalize n / (2 * half) = low at hlow hdiv
  generalize n % (2 * half) = rest at hrest hdiv
  obtain ⟨d, rfl⟩ := Nat.exists_eq_add_of_le hlow
  have htie : (2 * (low + d) + 1) * half = 2 * half * low + (2 * d + 1) * half := by ring
  rw [htie]
  cases d with
  | zero =>
    -- the multiple below is odd, so a tie goes up from it
    rw [Nat.mul_zero, Nat.zero_add, Nat.one_mul]
    split
    · omega
    · split
      · omega
      · split <;> omega
  | succ d =>
    have hfar : 2 * half ≤ (2 * (d + 1) + 1) * half := Nat.mul_le_mul_right half (by omega)
    constructor
    · intro h
      exfalso
      repeat' split at h
      all_goals omega
    · omega

theorem roundDiv_le (num den : Nat) : roundDiv num den ≤ num / den + 1 := by
  unfold roundDiv
  simp only
  repeat' split
  all_goals omega

theorem roundUnits_one (n : Nat) : roundUnits n 1 = roundDiv n (spacing n) * spacing n := by
  simp [roundUnits]

/-- Rounding reaches a power of two from the tie below it on. -/
theorem two_pow_le_roundUnits_iff {n a : Nat} :
    2 ^ (a + 54) ≤ roundUnits n 1 ↔ (2 ^ 54 - 1) * 2 ^ a ≤ n := by
  have hpos : 0 < 2 ^ a := Nat.two_pow_pos a
  have h52 : 2 ^ (a + 52) = 2 ^ 52 * 2 ^ a := by rw [Nat.pow_add, Nat.mul_comm]
  have h53 : 2 ^ (a + 53) = 2 ^ 53 * 2 ^ a := by rw [Nat.pow_add, Nat.mul_comm]
  have h54 : 2 ^ (a + 54) = 2 ^ 54 * 2 ^ a := by rw [Nat.pow_add, Nat.mul_comm]
  rcases Nat.lt_or_ge n (2 ^ (a + 53)) with hsmall | hn
  · -- the nearest multiple is at most one step above
    have hlog : n.log2 ≤ a + 52 := by
      rcases Nat.eq_zero_or_pos n with rfl | hn
      · simp
      · exact Nat.le_of_lt_succ ((Nat.log2_lt (by omega)).mpr hsmall)
    have hstep : spacing n ≤ 2 ^ a := Nat.pow_le_pow_right (by decide) (by omega)
    have hbound : roundUnits n 1 ≤ n + spacing n := by
      rw [roundUnits_one]
      calc roundDiv n (spacing n) * spacing n
          ≤ (n / spacing n + 1) * spacing n := Nat.mul_le_mul_right _ (roundDiv_le _ _)
        _ = n / spacing n * spacing n + spacing n := by rw [Nat.add_mul, Nat.one_mul]
        _ ≤ n + spacing n := Nat.add_le_add_right (Nat.div_mul_le_self _ _) _
    constructor <;> intro h <;> exfalso <;> omega
  rcases Nat.lt_or_ge n (2 ^ (a + 54)) with hlarge | hlarge
  · -- here the step is twice `2 ^ a`, and half way counts up
    have hlog : n.log2 = a + 53 := by
      have hne : n ≠ 0 := by omega
      exact Nat.le_antisymm (Nat.le_of_lt_succ ((Nat.log2_lt hne).mpr hlarge))
        ((Nat.le_log2 hne).mpr hn)
    have hstep : spacing n = 2 * 2 ^ a := by
      have hexp : a + 53 - 52 = a + 1 := by omega
      show 2 ^ (n.log2 - 52) = 2 * 2 ^ a
      rw [hlog, hexp, Nat.pow_succ, Nat.mul_comm]
    have htop : 2 ^ (a + 54) = (2 ^ 53 - 1 + 1) * (2 * 2 ^ a) := by omega
    rw [roundUnits_one, hstep, htop, Nat.mul_le_mul_right_iff (by omega),
      le_roundDiv_iff (by decide) (htop ▸ hlarge)]
    have htie : 2 * (2 ^ 53 - 1) + 1 = 2 ^ 54 - 1 := by decide
    rw [htie]
  · have hreach := le_roundUnits hlarge
    constructor <;> intro <;> omega

theorem limit_le_roundUnits_iff {n a k : Nat} (hlimit : limit = Nat.pow 2 (a + k + 54))
    (hone : unitsPerOne = Nat.pow 2 k) :
    limit ≤ roundUnits (n * unitsPerOne) 1 ↔ (2 ^ 54 - 1) * 2 ^ a ≤ n := by
  rw [hlimit, hone]
  refine two_pow_le_roundUnits_iff.trans ?_
  rw [Nat.pow_add, ← Nat.mul_assoc]
  exact Nat.mul_le_mul_right_iff (Nat.two_pow_pos k)

theorem limit_eq : limit = Nat.pow 2 (970 + 1074 + 54) := by
  unfold limit
  with_reducible rfl

/-- The whole numbers past every finite binary64 number. -/
theorem ofInt?_eq_none_iff {n : Int} : ofInt? n = none ↔ (2 ^ 54 - 1) * 2 ^ 970 ≤ n.natAbs := by
  rw [← limit_le_roundUnits_iff limit_eq unitsPerOne_eq]
  unfold ofInt?
  simp only [ite_eq_left_iff, reduceCtorEq, imp_false, Nat.not_le, Nat.not_lt]

end Binary64

/-- A whole number that no binary64 number can stand for. -/
def Value.IsHuge (x : Value) : Prop := ∃ n, x = .int n ∧ Binary64.ofInt? n = none

theorem Value.isHuge_int {n : Int} : (Value.int n).IsHuge ↔ (2 ^ 54 - 1) * 2 ^ 970 ≤ n.natAbs := by
  rw [← Binary64.ofInt?_eq_none_iff]
  constructor
  · rintro ⟨m, hm, hnone⟩
    cases hm
    exact hnone
  · exact fun hnone => ⟨n, rfl, hnone⟩

theorem Value.not_isHuge {x : Value} (h : ∀ n, x ≠ .int n) : ¬x.IsHuge := by
  rintro ⟨n, rfl, -⟩
  exact h n rfl

/-! ## Operators -/

namespace Value

variable {x y : Value}

/-- By cases as `toNumber` has them. What it makes of a whole number is given as a
function, for to evaluate that function at a variable would not end. -/
theorem match_cases {α : Type} {P : Value → α → Prop} {b : Bool → α} {i : Int → α}
    {f : Binary64 → α} {o : Value → α} (hbool : ∀ t, P (.bool t) (b t))
    (hint : ∀ n, P (.int n) (i n)) (hfloat : ∀ r, P (.float r) (f r))
    (hother : ∀ v, (∀ n, v ≠ .int n) → P v (o v)) (x : Value) :
    P x (match x with
      | .bool t => b t
      | .int n => i n
      | .float r => f r
      | v => o v) := by
  cases x with
  | bool t => exact hbool t
  | int n => exact hint n
  | float r => exact hfloat r
  | _ => exact hother _ nofun

theorem toNumber_cases (x : Value) : (∃ n?, x.toNumber = .ok n? ∧ ¬x.IsHuge) ∨
    ∃ e, x.toNumber = .error e ∧ x.IsHuge := by
  unfold toNumber
  refine match_cases (P := fun x r => (∃ n?, r = Except.ok n? ∧ ¬x.IsHuge) ∨
    ∃ e, r = .error e ∧ x.IsHuge) ?_ ?_ ?_ ?_ x
  · exact fun t => .inl ⟨_, rfl, not_isHuge nofun⟩
  · intro n
    generalize hn : Binary64.ofInt? n = a?
    cases a? with
    | none => exact .inr ⟨_, rfl, n, rfl, hn⟩
    | some a =>
      refine .inl ⟨_, rfl, ?_⟩
      rintro ⟨m, hm, hnone⟩
      cases hm
      cases hn.symm.trans hnone
  · exact fun r => .inl ⟨_, rfl, not_isHuge nofun⟩
  · exact fun v hv => .inl ⟨_, rfl, not_isHuge hv⟩

/-- Two values are compared by order unless one of them is huge, and what is no number
compares as false. -/
theorem ordered_cases (r : Binary64 → Binary64 → Bool) (x y : Value) :
    (∃ t, ordered r x y = .ok t ∧ (¬x.IsHuge ∧ ¬y.IsHuge) ∧
      (x.toNumber = .ok none ∨ y.toNumber = .ok none → t = false)) ∨
    (∃ e, ordered r x y = .error e) ∧ (x.IsHuge ∨ y.IsHuge) := by
  unfold ordered
  rcases toNumber_cases x with ⟨m?, hx, hxs⟩ | ⟨e, hx, hhuge⟩
  · rcases toNumber_cases y with ⟨n?, hy, hys⟩ | ⟨e, hy, hhuge⟩
    · refine .inl ?_
      rw [hx, hy]
      cases m? with
      | none => exact ⟨false, rfl, ⟨hxs, hys⟩, fun _ => rfl⟩
      | some a =>
        cases n? with
        | none => exact ⟨false, rfl, ⟨hxs, hys⟩, fun _ => rfl⟩
        | some b => exact ⟨r a b, rfl, ⟨hxs, hys⟩, by simp⟩
    · rw [hx, hy]
      exact .inr ⟨⟨e, rfl⟩, .inr hhuge⟩
  · rw [hx]
    exact .inr ⟨⟨e, rfl⟩, .inl hhuge⟩

end Value

namespace Operator

/-- Whether an operator compares by order. -/
def isOrder : Operator → Bool
  | greaterThan | lessThan | greaterOrEqual | lessOrEqual => true
  | _ => false

variable {op : Operator} {x y : Value}

theorem compare_of_isOrder (h : op.isOrder = true) :
    ∃ r, ∀ x y, op.compare x y = Value.ordered r x y := by
  cases op <;> first
    | exact ⟨_, fun _ _ => rfl⟩
    | exact absurd h Bool.false_ne_true

/-- An operator that does not compare by order always comes to a truth value. -/
theorem compare_of_not_isOrder (h : op.isOrder = false) (x y : Value) :
    ∃ t, op.compare x y = .ok t := by
  cases op <;> first
    | exact ⟨_, rfl⟩
    | exact absurd h.symm Bool.false_ne_true

theorem compare_error_iff : (∃ e, op.compare x y = .error e) ↔
    op.isOrder = true ∧ (x.IsHuge ∨ y.IsHuge) := by
  cases hop : op.isOrder with
  | false =>
    obtain ⟨t, ht⟩ := compare_of_not_isOrder hop x y
    simp [ht]
  | true =>
    obtain ⟨r, hr⟩ := compare_of_isOrder hop
    rw [hr]
    rcases Value.ordered_cases r x y with ⟨t, ht, ⟨hx, hy⟩, -⟩ | ⟨⟨e, he⟩, hhuge⟩
    · simp [ht, hx, hy]
    · simp [he, hhuge]

/-- Two values are compared unless one of them is huge, and by order what is no number
compares as false. -/
theorem compare_of_not_huge (hx : ¬x.IsHuge) (hy : ¬y.IsHuge) : ∃ t, op.compare x y = .ok t ∧
    (op.isOrder = true → x.toNumber = .ok none ∨ y.toNumber = .ok none → t = false) := by
  cases hop : op.isOrder with
  | false =>
    obtain ⟨t, ht⟩ := compare_of_not_isOrder hop x y
    exact ⟨t, ht, nofun⟩
  | true =>
    obtain ⟨r, hr⟩ := compare_of_isOrder hop
    rw [hr]
    rcases Value.ordered_cases r x y with ⟨t, ht, -, hfalse⟩ | ⟨-, hhuge⟩
    · exact ⟨t, ht, fun _ => hfalse⟩
    · exact absurd hhuge (not_or.mpr ⟨hx, hy⟩)

end Operator

/-! ## Trees -/

/-- A leaf that comes to compare a huge number by order. -/
structure Leaf.Overflows (observations : List Observation) (l : Leaf) : Prop where
  byValue : l.valueIds = none
  byOrder : l.operator.isOrder = true
  present : l.value ≠ .null
  observed : ∃ o, firstOf l.typeId observations = some o ∧ o.value ≠ .null ∧
    (o.value.IsHuge ∨ l.value.IsHuge)

theorem Leaf.evaluate_error_iff {observations : List Observation} {l : Leaf} :
    (∃ e, l.evaluate observations = .error e) ↔ l.Overflows observations := by
  unfold Leaf.evaluate
  cases hfirst : firstOf l.typeId observations with
  | none =>
    constructor
    · rintro ⟨e, he⟩
      cases he
    · rintro ⟨-, -, -, o, ho, -⟩
      cases hfirst.symm.trans ho
  | some o =>
    simp only [Leaf.holdsOf]
    cases hids : l.valueIds with
    | some ids =>
      constructor
      · rintro ⟨e, he⟩
        cases he
      · intro h
        cases hids.symm.trans h.byValue
    | none =>
      simp only
      split
      case isTrue hnull =>
        -- nothing is compared with a value that is missing
        constructor
        · rintro ⟨e, he⟩
          cases he
        · rintro ⟨-, -, hvalue, o', ho', hobserved, -⟩
          cases hfirst.symm.trans ho'
          exact absurd hnull (by simp [hvalue, hobserved])
      case isFalse hnull =>
        rw [not_or] at hnull
        rw [Operator.compare_error_iff]
        constructor
        · rintro ⟨horder, hhuge⟩
          exact ⟨hids, horder, hnull.1, o, hfirst, hnull.2, hhuge⟩
        · rintro ⟨-, horder, -, o', ho', -, hhuge⟩
          cases hfirst.symm.trans ho'
          exact ⟨horder, hhuge⟩

namespace Condition

variable {observations : List Observation}

/-! Members are judged in order until one decides, so an error is that of some leaf. -/

mutual

theorem overflows_of_evaluate {e : TooLarge} : ∀ {c : Condition},
    evaluate observations c = .error e → ∃ l ∈ c.leaves, l.Overflows observations
  | .leaf l, h => ⟨l, by simp [leaves], Leaf.evaluate_error_iff.mp ⟨e, h⟩⟩
  | .group _ [], h => nomatch h
  | .group .and (c :: rest), h => overflows_of_allHold h
  | .group .or (c :: rest), h => overflows_of_anyHolds h

theorem overflows_of_allHold {e : TooLarge} : ∀ {cs : List Condition},
    allHold observations cs = .error e → ∃ l ∈ leavesOf cs, l.Overflows observations
  | [], h => nomatch h
  | c :: rest, h => by
    rw [allHold] at h
    cases hc : evaluate observations c with
    | error e' =>
      obtain ⟨l, hl, hover⟩ := overflows_of_evaluate hc
      exact ⟨l, List.mem_append_left _ hl, hover⟩
    | ok t =>
      rw [hc] at h
      cases t with
      | false => cases h
      | true =>
        obtain ⟨l, hl, hover⟩ := overflows_of_allHold h
        exact ⟨l, List.mem_append_right _ hl, hover⟩

theorem overflows_of_anyHolds {e : TooLarge} : ∀ {cs : List Condition},
    anyHolds observations cs = .error e → ∃ l ∈ leavesOf cs, l.Overflows observations
  | [], h => nomatch h
  | c :: rest, h => by
    rw [anyHolds] at h
    cases hc : evaluate observations c with
    | error e' =>
      obtain ⟨l, hl, hover⟩ := overflows_of_evaluate hc
      exact ⟨l, List.mem_append_left _ hl, hover⟩
    | ok t =>
      rw [hc] at h
      cases t with
      | true => cases h
      | false =>
        obtain ⟨l, hl, hover⟩ := overflows_of_anyHolds h
        exact ⟨l, List.mem_append_right _ hl, hover⟩

end

end Condition

/-- No leaf of a tree comes to compare a huge number by order. -/
def Criteria.Comparable (tree : Criteria) (observations : List Observation) : Prop :=
  ∀ l ∈ tree.leaves, ¬l.Overflows observations

theorem Criteria.Comparable.evaluate {tree : Criteria} {observations : List Observation}
    (h : tree.Comparable observations) : ∃ t, tree.evaluate observations = .ok t := by
  cases ht : tree.evaluate observations with
  | ok t => exact ⟨t, rfl⟩
  | error e =>
    obtain ⟨l, hl, hover⟩ := Condition.overflows_of_evaluate ht
    exact absurd hover (h l (tree.leaves_toCondition ▸ hl))

end PropertyRisk
