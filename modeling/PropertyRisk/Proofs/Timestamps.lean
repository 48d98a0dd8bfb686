import PropertyRisk.Rule
import Mathlib.Algebra.Group.Nat.Defs
import Mathlib.Data.List.Basic

/-!
# Timestamps read back

`Stamp.read?_text`: the written form of a timestamp reads as that timestamp, its
offset included. A written form holds digits and a few signs only, so it has no
blanks to trim and can be encoded.
-/

namespace PropertyRisk

open Time

/-! ## Digits -/

namespace Number

theorem asciiDigit?_of_isDigit {c : Char} (h : c.isDigit = true) :
    asciiDigit? c = some (c.toNat - 48) := by
  simp [asciiDigit?, h]

theorem length_filterMap_digits {cs : List Char} (h : ∀ c ∈ cs, c.isDigit = true) :
    (cs.filterMap asciiDigit?).length = cs.length := by
  induction cs with
  | nil => rfl
  | cons c rest ih =>
    rw [List.filterMap_cons_some (asciiDigit?_of_isDigit (h c List.mem_cons_self))]
    simpa using ih fun d hd => h d (List.mem_cons_of_mem _ hd)

theorem foldl_filterMap_digits {cs : List Char} (h : ∀ c ∈ cs, c.isDigit = true) (n : Nat) :
    (cs.filterMap asciiDigit?).foldl (fun n d => 10 * n + d) n = Nat.ofDigitChars 10 cs n := by
  induction cs generalizing n with
  | nil => simp
  | cons c rest ih =>
    rw [List.filterMap_cons_some (asciiDigit?_of_isDigit (h c List.mem_cons_self)),
      List.foldl_cons, Nat.ofDigitChars_cons, ih fun d hd => h d (List.mem_cons_of_mem _ hd)]
    rfl

end Number

/-! ## Blanks -/

/-- A text without blanks at its ends is left as it is. -/
theorem Text.trimBy_eq_self {blank : Char → Bool} {cs : List Char}
    (hfirst : ∀ c, cs.head? = some c → blank c = false)
    (hlast : ∀ c, cs.getLast? = some c → blank c = false) : trimBy blank cs = cs := by
  have hdrop : cs.dropWhile blank = cs := by
    cases cs with
    | nil => rfl
    | cons c rest => exact List.dropWhile_cons_of_neg (by simp [hfirst c rfl])
  have hreverse : cs.reverse.dropWhile blank = cs.reverse := by
    cases h : cs.reverse with
    | nil => rfl
    | cons c rest =>
      have hc : cs.getLast? = some c := by rw [List.getLast?_eq_head?_reverse, h]; rfl
      exact List.dropWhile_cons_of_neg (by simp [hlast c hc])
  rw [trimBy, hdrop, hreverse, List.reverse_reverse]

namespace Time

theorem padded_isDigit (width n : Nat) : ∀ c ∈ padded width n, c.isDigit = true := by
  intro c hc
  rcases List.mem_append.mp hc with hc | hc
  · rw [List.eq_of_mem_replicate hc]; rfl
  · exact Nat.isDigit_of_mem_toDigits (by decide) (by decide) hc

theorem length_padded {width n : Nat} (hw : 0 < width) (h : n < 10 ^ width) :
    (padded width n).length = width := by
  have := (Nat.length_toDigits_le_iff (b := 10) (n := n) (by decide) hw).mpr h
  simp only [padded, List.length_append, List.length_replicate]
  omega

theorem ofDigits_padded (width n : Nat) :
    Number.ofDigits ((padded width n).filterMap Number.asciiDigit?) = n := by
  rw [Number.ofDigits, Number.foldl_filterMap_digits (padded_isDigit _ _), padded,
    Nat.ofDigitChars_append]
  simp

theorem takeNumber_append {cs : List Char} (h : ∀ c ∈ cs, c.isDigit = true) (rest : List Char) :
    takeNumber cs.length (cs ++ rest) =
      some (Number.ofDigits (cs.filterMap Number.asciiDigit?), rest) := by
  simp [takeNumber, Number.length_filterMap_digits h]

theorem takeNumber_padded {width n : Nat} {rest : List Char} (hw : 0 < width)
    (h : n < 10 ^ width) : takeNumber width (padded width n ++ rest) = some (n, rest) := by
  have ht := takeNumber_append (padded_isDigit width n) rest
  rwa [length_padded hw h, ofDigits_padded] at ht

theorem takeNumber_two {n : Nat} {rest : List Char} (h : n < 100) :
    takeNumber 2 (padded 2 n ++ rest) = some (n, rest) :=
  takeNumber_padded (by decide) h

theorem takeNumber_two_nil {n : Nat} (h : n < 100) :
    takeNumber 2 (padded 2 n) = some (n, []) := by
  have ht := @takeNumber_two n [] h
  rwa [List.append_nil] at ht

theorem wholeNumber_two {n : Nat} (h : n < 100) : wholeNumber 2 (padded 2 n) = some n := by
  rw [wholeNumber, takeNumber_two_nil h]

/-- A padded number is a digit with something after it. -/
theorem exists_padded_two {n : Nat} (h : n < 100) :
    ∃ c d, padded 2 n = [c, d] ∧ c.isDigit = true ∧ d.isDigit = true := by
  have hl : (padded 2 n).length = 2 := length_padded (by decide) h
  obtain ⟨c, d, hcd⟩ := List.length_eq_two.mp hl
  have hd := padded_isDigit 2 n
  rw [hcd] at hd
  exact ⟨c, d, hcd, hd c (by simp), hd d (by simp)⟩

/-! ## Dates -/

theorem Date.bounds (d : Date) : d.year < 10 ^ 4 ∧ d.month < 100 ∧ d.day < 100 := by
  have hv := d.valid
  have hm : daysInMonth d.year d.month ≤ 31 := by
    unfold daysInMonth
    split <;> (try split) <;> omega
  omega

theorem Date.of?_self (d : Date) : Date.of? d.year d.month d.day = some d := by
  rw [Date.of?, dif_pos d.valid]

theorem readDate_chars (d : Date) : readDate d.chars = some d := by
  obtain ⟨hy, hm, hd⟩ := d.bounds
  obtain ⟨c, e, hce, hc, -⟩ := exists_padded_two hm
  have hw : c ≠ 'W' := by rintro rfl; cases hc
  have hmd : readMonthDay true d.year (padded 2 d.month ++ '-' :: padded 2 d.day) = some d := by
    rw [readMonthDay, takeNumber_two hm]
    simp [wholeNumber_two hd, Date.of?_self]
  rw [readDate, Date.chars, takeNumber_padded (by decide) hy]
  rw [hce] at hmd ⊢
  simp only [List.cons_append]
  split
  · rename_i h; cases h
  · rename_i h; simp at h; exact absurd h.2.1 hw
  · rename_i h
    cases h
    exact hmd
  · rename_i h; simp at h
  · rename_i hdash _ h; cases h; exact absurd rfl (hdash _)

/-! ## Times and offsets -/

theorem readFraction_padded {micro : Nat} (h : micro < 1000000) :
    readFraction (padded 6 micro) = some micro := by
  have hl : (padded 6 micro).length = 6 := length_padded (by decide) h
  have hne : (padded 6 micro).isEmpty = false := by
    cases hp : padded 6 micro with
    | nil => simp [hp] at hl
    | cons => rfl
  have hall : (padded 6 micro).all Char.isDigit = true :=
    List.all_eq_true.mpr (padded_isDigit _ _)
  have htake : (padded 6 micro).take 6 = padded 6 micro := List.take_of_length_le (by omega)
  simp [readFraction, hne, hall, htake, Number.length_filterMap_digits (padded_isDigit _ _), hl,
    ofDigits_padded]

theorem readSecondAndFraction_chars {hour minute second micro : Nat} (hs : second < 100)
    (hm : micro < 1000000) :
    readSecondAndFraction hour minute (padded 2 second ++ fractionText micro) =
      some ⟨hour, minute, second, micro⟩ := by
  rw [readSecondAndFraction, takeNumber_two hs, fractionText]
  by_cases h : micro = 0
  · simp [h]
  · simp [h, readFraction_padded hm]

theorem readParts_chars {hour minute : Nat} {tail : List Char} (hh : hour < 100)
    (hm : minute < 100) :
    readParts (padded 2 hour ++ ':' :: (padded 2 minute ++ ':' :: tail)) =
      readSecondAndFraction hour minute tail := by
  rw [readParts, takeNumber_two hh]
  simp [readMinute, takeNumber_two hm]

theorem readParts_short {hour minute : Nat} (hh : hour < 100) (hm : minute < 100) :
    readParts (padded 2 hour ++ ':' :: padded 2 minute) = some ⟨hour, minute, 0, 0⟩ := by
  rw [readParts, takeNumber_two hh]
  simp [readMinute, takeNumber_two_nil hm]

theorem readParts_time (t : TimeOfDay) :
    readParts t.chars = some ⟨t.hour, t.minute, t.second, t.micro⟩ := by
  have hv := t.valid
  rw [TimeOfDay.chars, readParts_chars (by omega) (by omega),
    readSecondAndFraction_chars (by omega) hv.2.2.2]

/-- The written form of an offset after its sign. -/
def Offset.sizeChars (size : Nat) : List Char :=
  let seconds := size / 1000000
  let tail :=
    if size % 60000000 = 0 then []
    else ':' :: (padded 2 (seconds % 60) ++ fractionText (size % 1000000))
  padded 2 (seconds / 3600) ++ ':' :: (padded 2 (seconds / 60 % 60) ++ tail)

theorem Offset.chars_eq (o : Offset) : o.chars =
    (if o.micros < 0 then '-' else '+') :: Offset.sizeChars o.micros.natAbs := rfl

theorem readParts_size {size : Nat} (h : size < microsPerDay) :
    ∃ p, readParts (Offset.sizeChars size) = some p ∧
      microsOf p.hour p.minute p.second p.micro = size := by
  simp only [microsPerDay] at h
  rw [Offset.sizeChars]
  split
  · refine ⟨⟨size / 1000000 / 3600, size / 1000000 / 60 % 60, 0, 0⟩, ?_, ?_⟩
    · rw [List.append_nil]
      exact readParts_short (by omega) (by omega)
    · simp only [microsOf]; omega
  · refine ⟨⟨size / 1000000 / 3600, size / 1000000 / 60 % 60, size / 1000000 % 60,
      size % 1000000⟩, ?_, ?_⟩
    · rw [readParts_chars (by omega) (by omega)]
      exact readSecondAndFraction_chars (by omega) (by omega)
    · simp only [microsOf]; omega

theorem Offset.of?_self (o : Offset) : Offset.of? o.micros = some o := by
  rw [Offset.of?, dif_pos o.bounded]
  rcases o with ⟨micros, bounded, rfl | hp⟩
  · rfl
  · rw [dif_pos hp]

theorem readOffset_chars (o : Offset) :
    readOffset (decide (o.micros < 0)) (Offset.sizeChars o.micros.natAbs) = some o := by
  obtain ⟨p, hp, hs⟩ := readParts_size o.bounded
  rw [readOffset, hp]
  simp only [Option.bind_some, hs]
  have : (if decide (o.micros < 0) = true then -(o.micros.natAbs : Int) else o.micros.natAbs) =
      o.micros := by
    by_cases h : o.micros < 0
    · rw [decide_eq_true h, if_pos rfl]
      omega
    · rw [decide_eq_false h, if_neg Bool.false_ne_true]
      omega
  rw [this, Offset.of?_self]

/-! ## Written forms -/

/-- The characters of written forms. -/
def isWritten (c : Char) : Bool := c.isDigit || ['-', ':', '.', '+', 'T'].contains c

theorem isWritten_of_padded {width n : Nat} : ∀ c ∈ padded width n, isWritten c = true :=
  fun c hc => by simp [isWritten, padded_isDigit _ _ c hc]

theorem isWritten_fractionText {micro : Nat} : ∀ c ∈ fractionText micro, isWritten c = true := by
  unfold fractionText
  split
  · simp
  · intro c hc
    rcases List.mem_cons.mp hc with rfl | hc
    · rfl
    · exact isWritten_of_padded c hc

theorem Date.isWritten_chars (d : Date) : ∀ c ∈ d.chars, isWritten c = true := by
  intro c hc
  simp only [Date.chars, List.mem_append, List.mem_cons] at hc
  rcases hc with hc | rfl | hc | rfl | hc
  exacts [isWritten_of_padded c hc, rfl, isWritten_of_padded c hc, rfl, isWritten_of_padded c hc]

theorem TimeOfDay.isWritten_chars (t : TimeOfDay) : ∀ c ∈ t.chars, isWritten c = true := by
  intro c hc
  simp only [TimeOfDay.chars, List.mem_append, List.mem_cons] at hc
  rcases hc with hc | rfl | hc | rfl | hc | hc
  exacts [isWritten_of_padded c hc, rfl, isWritten_of_padded c hc, rfl, isWritten_of_padded c hc,
    isWritten_fractionText c hc]

theorem Offset.isWritten_chars (o : Offset) : ∀ c ∈ o.chars, isWritten c = true := by
  intro c hc
  rw [Offset.chars_eq, Offset.sizeChars] at hc
  rcases List.mem_cons.mp hc with rfl | hc
  · split <;> rfl
  · simp only [List.mem_append, List.mem_cons] at hc
    rcases hc with hc | rfl | hc | hc
    · exact isWritten_of_padded c hc
    · rfl
    · exact isWritten_of_padded c hc
    · split at hc
      · cases hc
      · simp only [List.mem_append, List.mem_cons] at hc
        rcases hc with rfl | hc | hc
        exacts [rfl, isWritten_of_padded c hc, isWritten_fractionText c hc]

theorem Stamp.isWritten_chars (s : Stamp) : ∀ c ∈ s.chars, isWritten c = true := by
  intro c hc
  simp only [Stamp.chars, List.mem_append, List.mem_cons] at hc
  rcases hc with hc | rfl | hc | hc
  exacts [s.date.isWritten_chars c hc, rfl, s.time.isWritten_chars c hc,
    s.offset.isWritten_chars c hc]

theorem isWritten_toNat {c : Char} (h : isWritten c = true) : 0x2b ≤ c.toNat ∧ c.toNat ≤ 0x54 := by
  simp only [isWritten, Bool.or_eq_true, List.contains_iff_mem, List.mem_cons,
    List.not_mem_nil, or_false] at h
  rcases h with h | rfl | rfl | rfl | rfl | rfl
  · simp only [Char.isDigit, Bool.and_eq_true, decide_eq_true_eq] at h
    have h1 : 48 ≤ c.toNat := h.1
    have h2 : c.toNat ≤ 57 := h.2
    omega
  all_goals decide

theorem not_isBlank_of_isWritten {c : Char} (h : isWritten c = true) : Text.isBlank c = false := by
  have := isWritten_toNat h
  simp [Text.isBlank, Text.isSpace]
  omega

theorem Stamp.trim_chars (s : Stamp) : Text.trimBy Text.isBlank s.chars = s.chars :=
  Text.trimBy_eq_self
    (fun c hc => not_isBlank_of_isWritten (s.isWritten_chars c (List.mem_of_mem_head? hc)))
    fun c hc => not_isBlank_of_isWritten (s.isWritten_chars c (List.mem_of_getLast? hc))

theorem Stamp.expandZulu_chars (s : Stamp) : expandZulu s.chars = s.chars := by
  rw [expandZulu, if_neg]
  intro h
  have := isWritten_toNat (s.isWritten_chars 'Z' (List.mem_of_getLast? h))
  simp at this

theorem isWhole_text (s : Stamp) : Text.isWhole s.text = true := by
  simp only [Text.isWhole, Stamp.text, String.toList_ofList, List.all_eq_true]
  intro c hc
  have := isWritten_toNat (s.isWritten_chars c hc)
  simp only [Text.half?, Option.isNone_iff_eq_none]
  rw [if_neg]
  simp only [Bool.and_eq_true, decide_eq_true_eq]
  omega

/-! ## Reading a whole timestamp -/

theorem Date.length_chars (d : Date) : d.chars.length = 10 := by
  obtain ⟨hy, hm, hd⟩ := d.bounds
  have hyear : (padded 4 d.year).length = 4 := length_padded (by decide) hy
  have hmonth : (padded 2 d.month).length = 2 := length_padded (by decide) hm
  have hday : (padded 2 d.day).length = 2 := length_padded (by decide) hd
  simp [Date.chars, hyear, hmonth, hday]

theorem splitPoint_chars (s : Stamp) : splitPoint s.chars = 10 := by
  obtain ⟨hy, hm, -⟩ := s.date.bounds
  have hl : (padded 4 s.date.year).length = 4 := length_padded (by decide) hy
  obtain ⟨c, e, hce, hc, -⟩ := exists_padded_two hm
  have hw : c ≠ 'W' := by rintro rfl; cases hc
  have hlen : s.chars.length ≠ 7 := by simp [Stamp.chars, Date.length_chars]; omega
  have h4 : s.chars[4]? = some '-' := by
    simp [Stamp.chars, Date.chars, hl]
  have h5 : s.chars[5]? = some c := by
    simp [Stamp.chars, Date.chars, List.getElem?_append_right, hl, hce]
  simp [splitPoint, hlen, h4, h5, hw]

theorem TimeOfDay.not_isSign_chars (t : TimeOfDay) : ∀ c ∈ t.chars, (!isSign c) = true := by
  have digit {width n : Nat} : ∀ c ∈ padded width n, (!isSign c) = true := by
    intro c hc
    have hd := padded_isDigit _ _ c hc
    simp only [isSign, Bool.not_eq_true', Bool.or_eq_false_iff, beq_eq_false_iff_ne]
    constructor <;> rintro rfl <;> cases hd
  intro c hc
  simp only [TimeOfDay.chars, List.mem_append, List.mem_cons] at hc
  rcases hc with hc | rfl | hc | rfl | hc | hc
  · exact digit c hc
  · rfl
  · exact digit c hc
  · rfl
  · exact digit c hc
  · unfold fractionText at hc
    split at hc
    · cases hc
    · rcases List.mem_cons.mp hc with rfl | hc
      · rfl
      · exact digit c hc

theorem readTime_chars (t : TimeOfDay) (o : Offset) : readTime (t.chars ++ o.chars) = some (t, o) := by
  have hsign : isSign (if o.micros < 0 then '-' else '+') = true := by split <;> rfl
  have htake : (t.chars ++ o.chars).takeWhile (!isSign ·) = t.chars := by
    rw [List.takeWhile_append_of_pos t.not_isSign_chars, Offset.chars_eq,
      List.takeWhile_cons_of_neg (by simp [hsign]), List.append_nil]
  have hdrop : (t.chars ++ o.chars).dropWhile (!isSign ·) = o.chars := by
    rw [List.dropWhile_append_of_pos t.not_isSign_chars, Offset.chars_eq,
      List.dropWhile_cons_of_neg (by simp [hsign])]
  have htime : TimeOfDay.of? t.hour t.minute t.second t.micro = some t := by
    rw [TimeOfDay.of?, dif_pos t.valid]
  have hminus : ((if o.micros < 0 then '-' else '+') == '-') = decide (o.micros < 0) := by
    split <;> simp_all
  rw [readTime, htake, hdrop, readParts_time]
  simp only [Option.bind_some, htime, Offset.chars_eq, hminus, readOffset_chars, Option.map_some]

theorem Stamp.read?_text (s : Stamp) : Stamp.read? s.text = some s := by
  have hlen : ¬s.chars.length < 7 := by simp [Stamp.chars, Date.length_chars]; omega
  have htake : s.chars.take 10 = s.date.chars := by
    rw [Stamp.chars, ← s.date.length_chars, List.take_left]
  have hdrop : s.chars.drop 10 = 'T' :: (s.time.chars ++ s.offset.chars) := by
    rw [Stamp.chars, ← s.date.length_chars, List.drop_left]
  rw [Stamp.read?, Stamp.text, String.toList_ofList, s.trim_chars, s.expandZulu_chars, readStamp,
    if_neg hlen]
  simp only [splitPoint_chars, htake, hdrop, readDate_chars, Option.bind_some, readTime_chars,
    Option.map_some]

end Time

theorem requireStampValue_text (s : Stamp) : requireStampValue (.text s.text) = .ok s := by
  simp [requireStampValue, requireStamp, Stamp.read?_text]

end PropertyRisk
