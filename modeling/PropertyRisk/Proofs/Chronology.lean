import PropertyRisk.Proofs.Timestamps
import Mathlib.Data.String.Basic

/-!
# The order of written timestamps

`Stamp.text_le`: two timestamps in UTC come in the same order as instants and as
texts. Both orders go by year, month, day, hour, minute, second and fraction,
since the numbers are written at fixed widths, and the sign of an offset comes
before the point of a fraction.
-/

namespace PropertyRisk.Time

/-! ## Texts -/

/-- Texts of one length decide whatever follows them. -/
theorem append_lt_append {cs ds : List Char} (hl : cs.length = ds.length) (h : cs < ds)
    (xs ys : List Char) : cs ++ xs < ds ++ ys := by
  induction cs generalizing ds with
  | nil =>
    cases ds with
    | nil => exact absurd h (List.lt_irrefl _)
    | cons d ds => cases hl
  | cons c cs ih =>
    cases ds with
    | nil => cases hl
    | cons d ds =>
      rw [List.cons_append, List.cons_append, List.cons_lt_cons_iff]
      rcases List.cons_lt_cons_iff.mp h with hlt | ⟨rfl, hlt⟩
      · exact .inl hlt
      · exact .inr ⟨rfl, ih (by simpa using hl) hlt⟩

theorem isDigit_bounds {c : Char} (h : c.isDigit = true) : 48 ≤ c.toNat ∧ c.toNat ≤ 57 := by
  simp only [Char.isDigit, Bool.and_eq_true, decide_eq_true_eq] at h
  exact ⟨h.1, h.2⟩

/-- A number that is ahead stays ahead, whatever digits are added to both. -/
theorem ofDigitChars_lt {cs ds : List Char} (hc : ∀ c ∈ cs, c.isDigit = true)
    (hd : ∀ d ∈ ds, d.isDigit = true) (hl : cs.length = ds.length) {m n : Nat} (h : m < n) :
    Nat.ofDigitChars 10 cs m < Nat.ofDigitChars 10 ds n := by
  induction cs generalizing ds m n with
  | nil =>
    cases ds with
    | nil => simpa using h
    | cons d ds => cases hl
  | cons c cs ih =>
    cases ds with
    | nil => cases hl
    | cons d ds =>
      rw [Nat.ofDigitChars_cons, Nat.ofDigitChars_cons]
      have hcb := isDigit_bounds (hc c List.mem_cons_self)
      have hdb := isDigit_bounds (hd d List.mem_cons_self)
      refine ih (fun c' hc' => hc c' (List.mem_cons_of_mem _ hc'))
        (fun d' hd' => hd d' (List.mem_cons_of_mem _ hd')) (by simpa using hl) ?_
      show 10 * m + (c.toNat - 48) < 10 * n + (d.toNat - 48)
      omega

theorem lt_of_ofDigitChars_lt {cs ds : List Char} (hc : ∀ c ∈ cs, c.isDigit = true)
    (hd : ∀ d ∈ ds, d.isDigit = true) (hl : cs.length = ds.length) {n : Nat}
    (h : Nat.ofDigitChars 10 cs n < Nat.ofDigitChars 10 ds n) : cs < ds := by
  induction cs generalizing ds n with
  | nil =>
    cases ds with
    | nil => exact absurd h (Nat.lt_irrefl _)
    | cons d ds => cases hl
  | cons c cs ih =>
    cases ds with
    | nil => cases hl
    | cons d ds =>
      rw [Nat.ofDigitChars_cons, Nat.ofDigitChars_cons] at h
      have hcs : ∀ c' ∈ cs, c'.isDigit = true := fun c' hc' => hc c' (List.mem_cons_of_mem _ hc')
      have hds : ∀ d' ∈ ds, d'.isDigit = true := fun d' hd' => hd d' (List.mem_cons_of_mem _ hd')
      have hlen : cs.length = ds.length := by simpa using hl
      have hcb := isDigit_bounds (hc c List.mem_cons_self)
      have hdb := isDigit_bounds (hd d List.mem_cons_self)
      rw [List.cons_lt_cons_iff]
      rcases Nat.lt_trichotomy c.toNat d.toNat with hlt | heq | hgt
      · exact .inl hlt
      · cases Char.toNat_inj.mp heq
        exact .inr ⟨rfl, ih hcs hds hlen h⟩
      · -- a greater first digit cannot be made up for
        have hlater := ofDigitChars_lt hds hcs hlen.symm
          (show 10 * n + (d.toNat - '0'.toNat) < 10 * n + (c.toNat - '0'.toNat) by
            show 10 * n + (d.toNat - 48) < 10 * n + (c.toNat - 48)
            omega)
        exact absurd h (Nat.lt_asymm hlater)

theorem padded_lt {width m n : Nat} (hw : 0 < width) (h : m < n) (hn : n < 10 ^ width) :
    padded width m < padded width n := by
  have hm : m < 10 ^ width := Nat.lt_trans h hn
  have hvalue (k : Nat) : Nat.ofDigitChars 10 (padded width k) 0 = k := by
    rw [padded, Nat.ofDigitChars_append]
    simp
  refine lt_of_ofDigitChars_lt (padded_isDigit _ _) (padded_isDigit _ _)
    ((length_padded hw hm).trans (length_padded hw hn).symm) (n := 0) ?_
  rwa [hvalue, hvalue]

/-- A number written at a fixed width decides, unless it is the same. -/
theorem padded_append_lt {width m n : Nat} {xs ys : List Char} (hw : 0 < width)
    (hm : m < 10 ^ width) (hn : n < 10 ^ width) (h : m < n ∨ m = n ∧ xs < ys) :
    padded width m ++ xs < padded width n ++ ys := by
  rcases h with h | ⟨rfl, h⟩
  · exact append_lt_append ((length_padded hw hm).trans (length_padded hw hn).symm)
      (padded_lt hw h hn) _ _
  · exact List.append_left_lt h

theorem cons_lt {c : Char} {xs ys : List Char} (h : xs < ys) : c :: xs < c :: ys :=
  List.cons_lt_cons_iff.mpr (.inr ⟨rfl, h⟩)

/-! ## Dates and times -/

/-- The order of dates by year, month and day. -/
def Date.Before (d e : Date) : Prop :=
  d.year < e.year ∨ d.year = e.year ∧ (d.month < e.month ∨ d.month = e.month ∧ d.day < e.day)

/-- The order of times by their parts. -/
def TimeOfDay.Before (t u : TimeOfDay) : Prop :=
  t.hour < u.hour ∨ t.hour = u.hour ∧ (t.minute < u.minute ∨ t.minute = u.minute ∧
    (t.second < u.second ∨ t.second = u.second ∧ t.micro < u.micro))

theorem Date.before_or (d e : Date) : d.Before e ∨ d = e ∨ e.Before d := by
  obtain ⟨y, m, n, hd⟩ := d
  obtain ⟨y', m', n', he⟩ := e
  simp only [Before, Date.mk.injEq]
  omega

theorem TimeOfDay.before_or (t u : TimeOfDay) : t.Before u ∨ t = u ∨ u.Before t := by
  obtain ⟨h, m, s, f, ht⟩ := t
  obtain ⟨h', m', s', f', hu⟩ := u
  simp only [Before, TimeOfDay.mk.injEq]
  omega

theorem Date.chars_lt {d e : Date} (h : d.Before e) (xs ys : List Char) :
    d.chars ++ xs < e.chars ++ ys := by
  obtain ⟨hy, hm, hd⟩ := d.bounds
  obtain ⟨hy', hm', hd'⟩ := e.bounds
  refine append_lt_append (d.length_chars.trans e.length_chars.symm) ?_ xs ys
  refine padded_append_lt (by decide) hy hy' (h.imp_right (And.imp_right fun h => cons_lt ?_))
  refine padded_append_lt (by decide) hm hm' (h.imp_right (And.imp_right fun h => cons_lt ?_))
  exact padded_lt (by decide) h hd'

theorem fractionText_lt {m n : Nat} (h : m < n) (hn : n < 10 ^ 6) (xs ys : List Char) :
    fractionText m ++ '+' :: xs < fractionText n ++ '+' :: ys := by
  unfold fractionText
  rw [if_neg (show n ≠ 0 by omega)]
  split
  · exact List.cons_lt_cons_iff.mpr (.inl (by decide))
  · refine cons_lt (padded_append_lt (by decide) (Nat.lt_trans h hn) hn (.inl h))

theorem TimeOfDay.chars_lt {t u : TimeOfDay} (h : t.Before u) (xs ys : List Char) :
    t.chars ++ '+' :: xs < u.chars ++ '+' :: ys := by
  have ht := t.valid
  have hu := u.valid
  simp only [TimeOfDay.chars, List.append_assoc, List.cons_append]
  refine padded_append_lt (by decide) (by omega) (by omega)
    (h.imp_right (And.imp_right fun h => cons_lt ?_))
  refine padded_append_lt (by decide) (by omega) (by omega)
    (h.imp_right (And.imp_right fun h => cons_lt ?_))
  refine padded_append_lt (by decide) (by omega) (by omega)
    (h.imp_right (And.imp_right fun h => ?_))
  exact fractionText_lt h (by omega) xs ys

/-! ## Instants -/

theorem daysBeforeMonth_succ (year : Nat) {month : Nat} (h : 1 ≤ month) :
    daysBeforeMonth year (month + 1) = daysBeforeMonth year month + daysInMonth year month := by
  obtain ⟨n, rfl⟩ := Nat.exists_eq_add_of_le' h
  rfl

theorem daysBeforeMonth_le (year : Nat) {m n : Nat} (hm : 1 ≤ m) (h : m < n) :
    daysBeforeMonth year m + daysInMonth year m ≤ daysBeforeMonth year n := by
  induction n, h using Nat.le_induction with
  | base => exact Nat.le_of_eq (daysBeforeMonth_succ year hm).symm
  | succ n hn ih =>
    rw [daysBeforeMonth_succ year (by omega)]
    omega

theorem daysBeforeMonth_thirteen (year : Nat) : daysBeforeMonth year 13 = daysInYear year := by
  simp only [daysBeforeMonth, daysInMonth, daysInYear]
  split <;> rfl

theorem daysBeforeYear_succ {year : Nat} (h : 1 ≤ year) :
    daysBeforeYear (year + 1) = daysBeforeYear year + daysInYear year := by
  obtain ⟨y, rfl⟩ := Nat.exists_eq_add_of_le' h
  have hle : y / 100 ≤ y / 4 := Nat.div_le_div_left (by decide) (by decide)
  have hleap : isLeap (y + 1) = true ↔ 4 ∣ y + 1 ∧ (¬100 ∣ y + 1 ∨ 400 ∣ y + 1) := by
    simp [isLeap, Nat.dvd_iff_mod_eq_zero]
  simp only [daysBeforeYear, daysInYear, hleap, Nat.add_sub_cancel, Nat.succ_div]
  generalize y / 4 = p at *
  generalize y / 100 = q at *
  generalize y / 400 = r at *
  by_cases h4 : 4 ∣ y + 1 <;> by_cases h100 : 100 ∣ y + 1 <;> by_cases h400 : 400 ∣ y + 1 <;>
    simp only [h4, h100, h400, if_true, if_false, true_and, false_and, not_true_eq_false,
      not_false_eq_true, or_true, or_false] <;> omega

theorem daysBeforeYear_le {m n : Nat} (hm : 1 ≤ m) (h : m < n) :
    daysBeforeYear m + daysInYear m ≤ daysBeforeYear n := by
  induction n, h using Nat.le_induction with
  | base => exact Nat.le_of_eq (daysBeforeYear_succ hm).symm
  | succ n hn ih =>
    rw [daysBeforeYear_succ (by omega)]
    omega

theorem Date.dayNumber_lt {d e : Date} (h : d.Before e) : d.dayNumber < e.dayNumber := by
  have hd := d.valid
  have he := e.valid
  unfold Date.dayNumber
  rcases h with hy | ⟨hy, hm | ⟨hm, hday⟩⟩
  · have hyear := daysBeforeYear_le hd.1 hy
    have hmonth := daysBeforeMonth_le d.year hd.2.2.1 (show d.month < 13 by omega)
    rw [daysBeforeMonth_thirteen] at hmonth
    omega
  · have hmonth := daysBeforeMonth_le d.year hd.2.2.1 hm
    rw [hy] at hmonth hd ⊢
    omega
  · rw [hy, hm]
    omega

theorem TimeOfDay.micros_lt_day (t : TimeOfDay) : t.micros < microsPerDay := by
  have ht := t.valid
  simp only [TimeOfDay.micros, microsOf, microsPerDay]
  omega

theorem TimeOfDay.micros_lt {t u : TimeOfDay} (h : t.Before u) : t.micros < u.micros := by
  have ht := t.valid
  have hu := u.valid
  simp only [TimeOfDay.micros, microsOf]
  rcases h with h | ⟨h₁, h | ⟨h₂, h | ⟨h₃, h⟩⟩⟩ <;> omega

/-! ## Timestamps in UTC -/

namespace Stamp

variable {a b : Stamp}

/-- In UTC two timestamps are the same, or both orders agree on them. -/
theorem instant_text_lt (ha : a.offset = .utc) (hb : b.offset = .utc) :
    (a.instant < b.instant ∧ a.text < b.text) ∨ a = b ∨
      (b.instant < a.instant ∧ b.text < a.text) := by
  have hdate {a b : Stamp} (ha : a.offset = .utc) (hb : b.offset = .utc)
      (h : a.date.Before b.date) : a.instant < b.instant ∧ a.text < b.text := by
    have hday := Date.dayNumber_lt h
    have hmicros := a.time.micros_lt_day
    refine ⟨?_, String.lt_iff.mpr ?_⟩
    · simp only [instant, ha, hb, Offset.utc, microsPerDay] at hmicros ⊢
      omega
    · simpa [text, chars] using Date.chars_lt h _ _
  have htime {a b : Stamp} (ha : a.offset = .utc) (hb : b.offset = .utc) (hd : a.date = b.date)
      (h : a.time.Before b.time) : a.instant < b.instant ∧ a.text < b.text := by
    have hmicros := TimeOfDay.micros_lt h
    refine ⟨?_, String.lt_iff.mpr ?_⟩
    · simp only [instant, ha, hb, hd]
      omega
    · have hchars := cons_lt (c := 'T') (TimeOfDay.chars_lt h (Offset.sizeChars 0)
        (Offset.sizeChars 0))
      simpa [text, chars, ha, hb, hd, Offset.utc, Offset.chars_eq] using List.append_left_lt hchars
  -- the dates decide, and the times where the dates are the same
  rcases Date.before_or a.date b.date with h | hd | h
  · exact .inl (hdate ha hb h)
  · rcases TimeOfDay.before_or a.time b.time with h | ht | h
    · exact .inl (htime ha hb hd h)
    · obtain ⟨date, time, offset⟩ := a
      exact .inr (.inl (by cases b; simp_all))
    · exact .inr (.inr (htime hb ha hd.symm h))
  · exact .inr (.inr (hdate hb ha h))

theorem text_le (ha : a.offset = .utc) (hb : b.offset = .utc) (h : a.le b = true) :
    a.text ≤ b.text := by
  have hle : a.instant ≤ b.instant := by simpa [le] using h
  rcases instant_text_lt ha hb with ⟨-, ht⟩ | rfl | ⟨hi, -⟩
  · exact le_of_lt ht
  · exact le_rfl
  · omega

end Stamp

end PropertyRisk.Time
