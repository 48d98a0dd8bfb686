import PropertyRisk.Time.Calendar

/-!
# Timestamps

A timestamp is a local date and time together with its offset from UTC. Two
timestamps are compared by the instant they name. The written form has a
fraction only when there is one, and an offset with seconds and a fraction only
when they are not zero.
-/

namespace PropertyRisk.Time

structure TimeOfDay where
  hour : Nat
  minute : Nat
  second : Nat
  micro : Nat
  valid : hour < 24 ∧ minute < 60 ∧ second < 60 ∧ micro < 1000000
deriving DecidableEq, Repr

def TimeOfDay.of? (hour minute second micro : Nat) : Option TimeOfDay :=
  if valid : hour < 24 ∧ minute < 60 ∧ second < 60 ∧ micro < 1000000 then
    some ⟨hour, minute, second, micro, valid⟩
  else none

def TimeOfDay.midnight : TimeOfDay := ⟨0, 0, 0, 0, by decide⟩

/-- Microseconds of hours, minutes, seconds and microseconds. -/
def microsOf (hour minute second micro : Nat) : Nat :=
  ((hour * 60 + minute) * 60 + second) * 1000000 + micro

def TimeOfDay.micros (t : TimeOfDay) : Nat := microsOf t.hour t.minute t.second t.micro

def microsPerDay : Nat := 86400000000

/-- Microseconds east of UTC, less than a day either way, and none at all or a
second at least. -/
structure Offset where
  micros : Int
  bounded : micros.natAbs < microsPerDay
  perceptible : micros = 0 ∨ 1000000 ≤ micros.natAbs
deriving DecidableEq, Repr

def Offset.utc : Offset := ⟨0, by decide, .inl rfl⟩

/-- The offset of some microseconds. Less than a second counts as none. -/
def Offset.of? (micros : Int) : Option Offset :=
  if bounded : micros.natAbs < microsPerDay then
    if large : 1000000 ≤ micros.natAbs then some ⟨micros, bounded, .inr large⟩ else some .utc
  else none

structure Stamp where
  date : Date
  time : TimeOfDay
  offset : Offset
deriving DecidableEq, Repr

/-- The instant a timestamp names, in microseconds. -/
def Stamp.instant (s : Stamp) : Int :=
  (s.date.dayNumber : Int) * microsPerDay + s.time.micros - s.offset.micros

/-- The timestamp of an instant in UTC. -/
def Stamp.ofInstant? (instant : Nat) : Option Stamp := do
  let date ← Date.ofDayNumber? (instant / microsPerDay)
  let micros := instant % microsPerDay
  let seconds := micros / 1000000
  let time ← TimeOfDay.of? (seconds / 3600) (seconds / 60 % 60) (seconds % 60) (micros % 1000000)
  return ⟨date, time, .utc⟩

/-- The start of 1970 as an instant. -/
def unixEpoch : Nat := 719163 * microsPerDay

def Stamp.le (a b : Stamp) : Bool := decide (a.instant ≤ b.instant)

def Stamp.lt (a b : Stamp) : Bool := decide (a.instant < b.instant)

/-- A number with leading zeros up to a width. -/
def padded (width n : Nat) : List Char :=
  let digits := Nat.toDigits 10 n
  List.replicate (width - digits.length) '0' ++ digits

/-- A fraction of a second, absent when zero. -/
def fractionText (micro : Nat) : List Char :=
  if micro = 0 then [] else '.' :: padded 6 micro

def Date.chars (d : Date) : List Char :=
  padded 4 d.year ++ '-' :: (padded 2 d.month ++ '-' :: padded 2 d.day)

def TimeOfDay.chars (t : TimeOfDay) : List Char :=
  padded 2 t.hour ++ ':' :: (padded 2 t.minute ++ ':' :: (padded 2 t.second ++ fractionText t.micro))

def Offset.chars (o : Offset) : List Char :=
  let size := o.micros.natAbs
  let seconds := size / 1000000
  let tail :=
    if size % 60000000 = 0 then []
    else ':' :: (padded 2 (seconds % 60) ++ fractionText (size % 1000000))
  (if o.micros < 0 then '-' else '+') ::
    (padded 2 (seconds / 3600) ++ ':' :: (padded 2 (seconds / 60 % 60) ++ tail))

def Stamp.chars (s : Stamp) : List Char :=
  s.date.chars ++ 'T' :: (s.time.chars ++ s.offset.chars)

/-- The written form of a timestamp. -/
def Stamp.text (s : Stamp) : String := String.ofList s.chars

theorem Stamp.le_refl (s : Stamp) : s.le s = true := by simp [Stamp.le]

theorem Stamp.le_total (a b : Stamp) : (a.le b || b.le a) = true := by
  simp only [Stamp.le, Bool.or_eq_true, decide_eq_true_eq]
  omega

theorem Stamp.le_trans {a b c : Stamp} (h : a.le b = true) (k : b.le c = true) : a.le c = true := by
  simp only [Stamp.le, decide_eq_true_eq] at *
  omega

theorem Stamp.lt_eq_not_le (a b : Stamp) : a.lt b = !b.le a := by
  unfold Stamp.lt Stamp.le
  by_cases h : a.instant < b.instant
  · simp [h, Int.not_le.mpr h]
  · simp [h, Int.not_lt.mp h]

end PropertyRisk.Time
