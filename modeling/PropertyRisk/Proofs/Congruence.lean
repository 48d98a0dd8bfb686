import PropertyRisk.Proofs.Rounding
import PropertyRisk.Proofs.Membership

/-!
# Equal values are interchangeable

Equality compares whole and binary64 numbers exactly, the order operators make a number of both
sides first, and the others work on texts. Scalars that are equal stand for the same in all three
ways, `Value.Interchangeable`, so that no operator tells them apart.
-/

namespace PropertyRisk

namespace Binary64

theorem relate_swap (r : Int → Int → Bool) :
    (fun a b => relate r b a) = relate (fun x y => r y x) := by
  funext a b
  unfold relate
  cases a.place <;> cases b.place <;> rfl

/-! ## Numbers that are whole -/

theorem natAbs_signed (negative : Bool) (n : Nat) : (signed negative n).natAbs = n := by
  cases negative <;> simp [signed]

theorem signed_inj {s t : Bool} {m n : Nat} :
    signed s m = signed t n ↔ m = n ∧ (s = t ∨ m = 0) := by
  cases s <;> cases t <;> simp [signed] <;> omega

theorem signed_mul (negative : Bool) (n k : Nat) :
    signed negative (n * k) = signed negative n * k := by
  cases negative <;> simp [signed]

/-- A number that equals an integer has as many units as that integer has. -/
theorem sameInt_iff {x : Binary64} {n : Int} : x.sameInt n = true ↔
    ∃ negative, x = .finite negative (n.natAbs * unitsPerOne) ∧ signed negative n.natAbs = n := by
  have hone : (unitsPerOne : Int) ≠ 0 := by exact_mod_cast unitsPerOne_pos.ne'
  constructor
  · intro h
    cases x with
    | nan => cases h
    | infinite => cases h
    | finite negative units =>
      have hplace : signed negative units = n * unitsPerOne := of_decide_eq_true h
      have hunits : units = n.natAbs * unitsPerOne := by
        have := congrArg Int.natAbs hplace
        rwa [natAbs_signed, Int.natAbs_mul, Int.natAbs_natCast] at this
      rw [hunits, signed_mul] at hplace
      exact ⟨negative, by rw [hunits], Int.eq_of_mul_eq_mul_right hone hplace⟩
  · rintro ⟨negative, rfl, hsign⟩
    simp only [sameInt, signed_mul, hsign, decide_true]

/-- Both zeros equal the integer. -/
theorem sameInt_zero (negative : Bool) : (finite negative 0).sameInt 0 = true := by
  refine sameInt_iff.mpr ⟨negative, by rw [Int.natAbs_zero, Nat.zero_mul], ?_⟩
  cases negative <;> rfl

variable {x : Binary64} {n : Int}

theorem toInt?_of_sameInt (h : x.sameInt n = true) : x.toInt? = some n := by
  obtain ⟨negative, rfl, hsign⟩ := sameInt_iff.mp h
  simp only [toInt?, Nat.mul_mod_left, if_true, Nat.mul_div_cancel _ unitsPerOne_pos, hsign]

theorem place_of_sameInt (h : x.sameInt n = true) : x.place = some (n * unitsPerOne) := by
  obtain ⟨negative, rfl, hsign⟩ := sameInt_iff.mp h
  simp only [place, signed_mul, hsign]

theorem sameInt_eq_decide (h : x.sameInt n = true) (m : Int) :
    x.sameInt m = decide (n = m) := by
  have hone : (unitsPerOne : Int) ≠ 0 := by exact_mod_cast unitsPerOne_pos.ne'
  obtain ⟨negative, rfl, hsign⟩ := sameInt_iff.mp h
  simp only [sameInt, signed_mul, hsign, Int.mul_eq_mul_right_iff hone]

/-- An integer that some number equals is made a number at that place. -/
theorem ofInt?_of_sameInt (hx : x.IsRepresentable) (h : x.sameInt n = true) :
    ∃ y, ofInt? n = some y ∧ y.place = x.place := by
  obtain ⟨negative, rfl, hsign⟩ := sameInt_iff.mp h
  cases hx with
  | finite _ hlimit hgrid =>
    -- the integer is on the grid because the number is, and is not rounded
    have hround := roundUnits_of_onGrid hgrid
    have hsome : ofInt? n = some (.finite (decide (n < 0)) (n.natAbs * unitsPerOne)) := by
      unfold ofInt?
      simp only [hround, if_neg (Nat.not_le.mpr hlimit)]
    refine ⟨_, hsome, ?_⟩
    rw [place_ofInt? hsome, nearest_of_onGrid hgrid, place_of_sameInt h]

/-- To equal a number that is whole is to equal that integer. -/
theorem same_of_sameInt (hx : x.IsRepresentable) (h : x.sameInt n = true) (y : Binary64) :
    x.same y = y.sameInt n := by
  have hplace := place_of_sameInt h
  cases y with
  | nan => simp [same, relate, place, sameInt]
  | finite negative units =>
    rw [Bool.eq_iff_iff, place_inj_iff hplace rfl, sameInt, decide_eq_true_iff, eq_comm]
  | infinite negative =>
    -- no finite number stands where the infinities do
    refine Bool.eq_false_iff.mpr fun hsame => ?_
    have hlimit := (place_inj_iff hplace rfl).mp hsame
    cases hx with
    | nan => cases h
    | infinite => cases h
    | finite s hbelow _ =>
      have hunits := congrArg Int.natAbs ((Option.some.inj hplace).trans hlimit)
      rw [natAbs_signed, natAbs_signed] at hunits
      exact absurd hunits hbelow.ne

/-- Numbers at one place are one number, or the two zeros. -/
theorem eq_or_zero_of_same {y : Binary64} (hx : x.IsRepresentable) (hy : y.IsRepresentable)
    (h : x.same y = true) : x = y ∨ (x.sameInt 0 = true ∧ y.sameInt 0 = true) := by
  cases hx with
  | nan => cases h
  | infinite s =>
    cases hy with
    | nan => cases h
    | infinite t =>
      obtain ⟨-, rfl | hzero⟩ := signed_inj.mp ((place_inj_iff rfl rfl).mp h)
      · exact .inl rfl
      · exact absurd hzero limit_pos.ne'
    | finite t hlimit =>
      exact absurd (signed_inj.mp ((place_inj_iff rfl rfl).mp h)).1 hlimit.ne'
  | finite s hlimit =>
    cases hy with
    | nan => cases h
    | infinite t => exact absurd (signed_inj.mp ((place_inj_iff rfl rfl).mp h)).1 hlimit.ne
    | finite t =>
      obtain ⟨rfl, rfl | rfl⟩ := signed_inj.mp ((place_inj_iff rfl rfl).mp h)
      · exact .inl rfl
      · exact .inr ⟨sameInt_zero s, sameInt_zero t⟩

end Binary64

namespace Value

/-- A text, a truth value, a whole number, or one of the binary64 numbers that there are. -/
inductive IsScalar : Value → Prop
  | text (s : String) : IsScalar (.text s)
  | bool (t : Bool) : IsScalar (.bool t)
  | int (n : Int) : IsScalar (.int n)
  | float {x : Binary64} (h : x.IsRepresentable) : IsScalar (.float x)

/-- Where a value stands in the order, if it is a number. -/
def standing (x : Value) : Except TooLarge (Option Int) :=
  x.toNumber.map (·.bind Binary64.place)

/-- Two values that equality, the texts and the order all take for the same. -/
structure Interchangeable (a b : Value) : Prop where
  equal (c : Value) : a.strictEqual c = b.strictEqual c
  text : a.comparable = b.comparable
  standing : a.standing = b.standing

theorem Interchangeable.refl (a : Value) : a.Interchangeable a := ⟨fun _ => rfl, rfl, rfl⟩

theorem Interchangeable.symm {a b : Value} (h : a.Interchangeable b) : b.Interchangeable a :=
  ⟨fun c => (h.equal c).symm, h.text.symm, h.standing.symm⟩

theorem Interchangeable.trans {a b c : Value} (h : a.Interchangeable b)
    (h' : b.Interchangeable c) : a.Interchangeable c :=
  ⟨fun d => (h.equal d).trans (h'.equal d), h.text.trans h'.text, h.standing.trans h'.standing⟩

/-! ## What the operators read of a value -/

theorem strictEqual_comm {a : Value} (ha : a.IsScalar) (c : Value) :
    a.strictEqual c = c.strictEqual a := by
  cases ha <;> cases c <;> simp [strictEqual, equal, eq_comm, Binary64.same_comm]

/-- The order of two values is that of the places where they stand. -/
theorem ordered_relate (r : Int → Int → Bool) (x y : Value) :
    ordered (Binary64.relate r) x y = (do
      let left ← x.standing
      let right ← y.standing
      return match left, right with
        | some m, some n => r m n
        | _, _ => false) := by
  unfold ordered standing
  generalize x.toNumber = left
  generalize y.toNumber = right
  rcases left with e | _ | m
  · rfl
  · rcases right with e | _ | n <;> rfl
  · rcases right with e | _ | n
    · rfl
    · cases hm : m.place <;> simp [Except.map, hm, bind, Except.bind, pure, Except.pure]
    · cases hm : m.place <;> cases hn : n.place <;>
        simp [Except.map, Binary64.relate, hm, hn, bind, Except.bind, pure, Except.pure]

end Value

namespace Operator

open Value

/-- What an order operator asks of the places of its sides. -/
def onPlaces? : Operator → Option (Int → Int → Bool)
  | greaterThan => some fun m n => decide (n < m)
  | lessThan => some fun m n => decide (m < n)
  | greaterOrEqual => some fun m n => decide (n ≤ m)
  | lessOrEqual => some fun m n => decide (m ≤ n)
  | _ => none

theorem compare_of_onPlaces {op : Operator} {r : Int → Int → Bool} (h : op.onPlaces? = some r)
    (x y : Value) : op.compare x y = ordered (Binary64.relate r) x y := by
  cases op with
  | lessThan | lessOrEqual => cases h; rfl
  | greaterThan | greaterOrEqual =>
    cases h
    exact congrArg (ordered · x y) (Binary64.relate_swap _)
  | _ => cases h

variable {a b c d : Value}

/-- An operator reads of its sides whether they are equal, their texts and where they stand. -/
theorem compare_congr (op : Operator) (hequal : a.strictEqual c = b.strictEqual d)
    (hleft : a.comparable = b.comparable ∧ a.standing = b.standing)
    (hright : c.comparable = d.comparable ∧ c.standing = d.standing) :
    op.compare a c = op.compare b d := by
  cases horder : op.onPlaces? with
  | some r =>
    rw [compare_of_onPlaces horder, compare_of_onPlaces horder, ordered_relate, ordered_relate,
      hleft.2, hright.2]
  | none =>
    cases op with
    | equals | notEquals => simp only [compare, hequal]
    | contains | notContains => simp only [compare, containsText, hleft.1, hright.1]
    | isIn | notIn => simp only [compare, amongParts, hleft.1, hright.1]
    | _ => cases horder

end Operator

namespace Value

/-! ## Equal scalars -/

variable {a b : Value}

theorem standing_int {n : Int} {x : Binary64} (h : Binary64.ofInt? n = some x) :
    (int n).standing = .ok x.place := by
  have hnumber (v : Value) : v = int n → v.toNumber = .ok (some x) := by
    unfold toNumber
    refine match_cases (P := fun v r => v = int n → r = Except.ok (some x)) ?_ ?_ ?_ ?_ v
    · exact nofun
    · rintro m hm
      cases hm
      rw [h]
    · exact nofun
    · exact fun w hw heq => absurd heq (hw n)
  rw [standing, hnumber _ rfl]
  rfl

/-- A whole number and the binary64 number that it is. -/
theorem interchangeable_of_sameInt {n : Int} {x : Binary64} (hx : x.IsRepresentable)
    (h : x.sameInt n = true) : (int n).Interchangeable (float x) where
  equal c := by
    cases c with
    | int m => exact (Binary64.sameInt_eq_decide h m).symm
    | float y => exact (Binary64.same_of_sameInt hx h y).symm
    | _ => rfl
  text := by simp only [comparable, Binary64.toInt?_of_sameInt h]; rfl
  standing := by
    obtain ⟨y, hy, hplace⟩ := Binary64.ofInt?_of_sameInt hx h
    rw [standing_int hy, hplace]
    rfl

theorem interchangeable_of_same {x y : Binary64} (hx : x.IsRepresentable)
    (hy : y.IsRepresentable) (h : x.same y = true) : (float x).Interchangeable (float y) := by
  rcases Binary64.eq_or_zero_of_same hx hy h with rfl | ⟨hleft, hright⟩
  · exact .refl _
  · exact (interchangeable_of_sameInt hx hleft).symm.trans (interchangeable_of_sameInt hy hright)

/-- Scalars that are equal are interchangeable. -/
theorem interchangeable_of_strictEqual (ha : a.IsScalar) (hb : b.IsScalar)
    (h : a.strictEqual b = true) : a.Interchangeable b := by
  cases ha with
  | text s =>
    cases hb with
    | text t =>
      obtain rfl : s = t := of_decide_eq_true h
      exact .refl _
    | _ => cases h
  | bool s =>
    cases hb with
    | bool t =>
      obtain rfl : s = t := beq_iff_eq.mp h
      exact .refl _
    | _ => cases h
  | int m =>
    cases hb with
    | int n =>
      obtain rfl : m = n := of_decide_eq_true h
      exact .refl _
    | float hy => exact interchangeable_of_sameInt hy h
    | _ => cases h
  | float hx =>
    cases hb with
    | int n => exact (interchangeable_of_sameInt hx h).symm
    | float hy => exact interchangeable_of_same hx hy h
    | _ => cases h

end Value

/-- Scalars that are equal cannot be told apart by any operator, on either side, and equality is
symmetric and transitive. -/
theorem Operator.compare_eq_of_equals {a b : Value} (ha : a.IsScalar) (hb : b.IsScalar)
    (h : equals.compare a b = .ok true) :
    (∀ op c, compare op a c = compare op b c ∧ compare op c a = compare op c b) ∧
      equals.compare b a = .ok true ∧
      ∀ c, equals.compare b c = .ok true → equals.compare a c = .ok true := by
  have hequal : a.strictEqual b = true := Except.ok.inj h
  have hab := Value.interchangeable_of_strictEqual ha hb hequal
  have hleft (op : Operator) (c : Value) : op.compare a c = op.compare b c :=
    compare_congr op (hab.equal c) ⟨hab.text, hab.standing⟩ ⟨rfl, rfl⟩
  have hright (op : Operator) (c : Value) : op.compare c a = op.compare c b := by
    refine compare_congr op ?_ ⟨rfl, rfl⟩ ⟨hab.text, hab.standing⟩
    rw [← Value.strictEqual_comm ha, ← Value.strictEqual_comm hb, hab.equal]
  refine ⟨fun op c => ⟨hleft op c, hright op c⟩, ?_, fun c hc => (hleft equals c).trans hc⟩
  exact congrArg Except.ok ((Value.strictEqual_comm hb a).trans hequal)

/-- The integer 10^22 and the number that is read from `1e22`. -/
theorem Operator.compare_eq_of_equals_power : ∃ x, Number.read? "1e22".toList = some x ∧
    equals.compare (.int (10 ^ 22)) (.float x) = .ok true ∧
    (∀ op c, compare op (.int (10 ^ 22)) c = compare op (.float x) c ∧
      compare op c (.int (10 ^ 22)) = compare op c (.float x)) ∧
    equals.compare (.float x) (.int (10 ^ 22)) = .ok true ∧
    ∀ c, equals.compare (.float x) c = .ok true → equals.compare (.int (10 ^ 22)) c = .ok true := by
  have hwhole : (Number.read? "1e22".toList).any (·.sameInt (10 ^ 22)) = true := by decide +kernel
  obtain ⟨x, hx, hsame⟩ := (Option.any_eq_true _ _).mp hwhole
  have hequal : equals.compare (.int (10 ^ 22)) (.float x) = .ok true := congrArg Except.ok hsame
  exact ⟨x, hx, hequal,
    compare_eq_of_equals (.int _) (.float (Number.isRepresentable_read? hx)) hequal⟩

end PropertyRisk
