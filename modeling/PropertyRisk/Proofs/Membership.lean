import PropertyRisk.Proofs.Grammar
import PropertyRisk.Proofs.Evidence

/-!
# Leaves that list values

A list given as the value of a leaf is kept as one text, its items with commas between them, and
cut again at the commas when an observation is judged. `Condition.judges_membership`: if no text
among the items has a comma, the observed value is looked for among the texts of just these items.

The texts of the items are those that they are shown by, though, and an observed value has the text
of a comparison. The two differ for truth values and for whole numbers that are written with a
fraction, and for no other scalars. Such an item is not matched by itself. An empty list is kept as
the empty text, and is matched by it.
-/

namespace PropertyRisk

open Value (field?)

/-! ## The texts of numbers -/

namespace Number

theorem comma_not_mem_toDigits (n : Nat) : ',' ∉ Nat.toDigits 10 n := fun h =>
  absurd (Nat.isDigit_of_mem_toDigits (by decide) (by decide) h) (by decide)

theorem comma_not_mem_zeros (n : Nat) : ',' ∉ zeros n := fun h => by
  cases List.eq_of_mem_replicate h

theorem comma_not_mem_layOut {layout : Layout} {digits : List Char} {leading : Int}
    (h : ',' ∉ digits) : ',' ∉ layOut layout digits leading := by
  have htake (n : Nat) : ',' ∉ digits.take n := fun hm => h (List.mem_of_mem_take hm)
  have hdrop (n : Nat) : ',' ∉ digits.drop n := fun hm => h (List.mem_of_mem_drop hm)
  unfold layOut
  dsimp only
  split
  case isTrue =>
    split
    · simp [comma_not_mem_zeros, h]
    · split <;> simp [comma_not_mem_zeros, htake, hdrop]
  case isFalse =>
    have hsign : ',' ≠ (if leading < 0 then '-' else '+') := by split <;> decide
    rw [List.mem_append, not_or]
    constructor
    · split
      · exact List.not_mem_nil
      · split <;> simpa using h
      · simpa using h
    · simp [hsign, comma_not_mem_zeros, comma_not_mem_toDigits]

/-- A number that is written with a fraction or an exponent has a point or an `e`. -/
theorem mark_mem_layOut (layout : Layout) (digits : List Char) (leading : Int) :
    '.' ∈ layOut layout digits leading ∨ 'e' ∈ layOut layout digits leading := by
  unfold layOut
  dsimp only
  split
  case isTrue => split <;> simp
  case isFalse => simp

/-- A finite number is laid out, after a sign or none. -/
theorem toList_text_finite (negative : Bool) (units : Nat) : ∃ sign magnitude,
    (text (.finite negative units)).toList = sign ++ magnitude ∧ (sign = [] ∨ sign = ['-']) ∧
      (magnitude = ['0', '.', '0'] ∨
        ∃ n leading, magnitude = layOut shortestLayout (Nat.toDigits 10 n) leading) := by
  unfold text
  simp only [String.toList_ofList]
  generalize hmagnitude : (if units = 0 then ['0', '.', '0']
    else showUnits shortestLayout (shortest units)) = magnitude
  refine ⟨if negative then ['-'] else [], magnitude, ?_, ?_, ?_⟩
  · cases negative <;> rfl
  · cases negative
    · exact .inl rfl
    · exact .inr rfl
  · split at hmagnitude
    · exact .inl hmagnitude.symm
    · exact .inr ⟨_, _, hmagnitude.symm⟩

theorem comma_not_mem_text (x : Binary64) : ',' ∉ (text x).toList := by
  cases x with
  | nan => decide
  | infinite negative => cases negative <;> decide
  | finite negative units =>
    obtain ⟨sign, magnitude, htext, hsign, hmagnitude⟩ := toList_text_finite negative units
    rw [htext, List.mem_append, not_or]
    constructor
    · rcases hsign with rfl | rfl <;> decide
    · rcases hmagnitude with rfl | ⟨n, leading, rfl⟩
      · decide
      · exact comma_not_mem_layOut (comma_not_mem_toDigits n)

theorem mark_mem_text (negative : Bool) (units : Nat) :
    '.' ∈ (text (.finite negative units)).toList ∨
      'e' ∈ (text (.finite negative units)).toList := by
  obtain ⟨sign, magnitude, htext, -, hmagnitude⟩ := toList_text_finite negative units
  have hmark : '.' ∈ magnitude ∨ 'e' ∈ magnitude := by
    rcases hmagnitude with rfl | ⟨n, leading, rfl⟩
    · exact .inl (by decide)
    · exact mark_mem_layOut _ _ _
  rw [htext]
  exact hmark.imp (List.mem_append_right sign) (List.mem_append_right sign)

/-- An integer is written with digits and a sign. -/
theorem isDigit_of_mem_toString {n : Int} {c : Char} (h : c ∈ (toString n).toList) :
    c.isDigit = true ∨ c = '-' := by
  rw [Int.toString_eq_repr, Int.repr_eq_if] at h
  split at h
  · rw [Nat.repr_eq_ofList_toDigits, String.toList_ofList] at h
    exact .inl (Nat.isDigit_of_mem_toDigits (by decide) (by decide) h)
  · rw [String.toList_append, List.mem_append, Nat.repr_eq_ofList_toDigits] at h
    rcases h with h | h
    · exact .inr (by simpa using h)
    · rw [String.toList_ofList] at h
      exact .inl (Nat.isDigit_of_mem_toDigits (by decide) (by decide) h)

end Number

namespace Value

/-- A text, a number or a truth value. -/
def isScalar : Value → Bool
  | .text _ | .int _ | .float _ | .bool _ => true
  | _ => false

/-- Whether a value is compared by another text than it is shown by: a truth value, or a whole
number that is written with a fraction. -/
def isRespelt : Value → Bool
  | .bool _ => true
  | .float x => x.toInt?.isSome
  | _ => false

theorem comparable_eq_plain_iff (x : Value) : x.comparable = x.plain ↔ x.isRespelt = false := by
  cases x with
  | bool b => cases b <;> decide
  | float x =>
    cases hx : x.toInt? with
    | none => simp [comparable, plain, shown, isRespelt, hx]
    | some n =>
      simp only [comparable, plain, shown, isRespelt, hx, Option.isSome_some, Bool.true_eq_false,
        iff_false]
      intro heq
      cases x with
      | nan => cases hx
      | infinite => cases hx
      | finite negative units =>
        -- the text that it is shown by has a mark that no integer has
        rcases Number.mark_mem_text negative units with h | h <;> rw [← heq] at h <;>
          rcases Number.isDigit_of_mem_toString h with hd | hd <;> exact absurd hd (by decide)
  | _ => simp [comparable, isRespelt]

/-- Of the scalars only a text may have a comma. -/
theorem comma_not_mem_plain {x : Value} (hx : x.isScalar = true)
    (h : ∀ s, x = .text s → ',' ∉ s.toList) : ',' ∉ x.plain.toList := by
  cases x with
  | text s => exact h s rfl
  | int n =>
    intro hmem
    rcases Number.isDigit_of_mem_toString hmem with hd | hd <;> exact absurd hd (by decide)
  | float x => exact Number.comma_not_mem_text x
  | bool b => cases b <;> decide
  | _ => cases hx

/-- Only the empty text is compared as one. -/
theorem eq_empty_of_comparable {x : Value} (hx : x.isScalar = true) (h : x.comparable = "") :
    x = .text "" := by
  cases x with
  | text s => exact congrArg Value.text h
  | int n => exact absurd h (toString_int_ne_empty n)
  | bool b => cases b <;> exact absurd h (by decide)
  | float x =>
    unfold comparable at h
    dsimp only at h
    split at h
    · exact absurd h (toString_int_ne_empty _)
    · exact absurd h (Number.text_ne_empty x)
  | _ => cases hx

end Value

/-! ## Texts with commas -/

namespace Text

theorem parts_eq_splitOn (separator : Char) (cs : List Char) :
    parts separator cs = cs.splitOn separator := by
  induction cs with
  | nil => rw [parts, List.splitOn_nil]
  | cons c rest ih =>
    rw [parts, List.splitOn_cons_eq_if_modifyHead, ih]
    by_cases hc : c = separator
    · simp [hc]
    · rw [if_neg hc, if_neg (by simpa using hc)]
      -- the character belongs to the first part, and there always is one
      obtain ⟨first, others, hcut⟩ :=
        List.exists_cons_of_ne_nil (List.splitOn_ne_nil separator rest)
      rw [hcut]
      rfl

/-- Texts without commas are told by what they are joined to, if there are any. -/
theorem parts_joined {texts : List String} (hne : texts ≠ []) (h : ∀ t ∈ texts, ',' ∉ t.toList) :
    parts ',' (Value.joined "," texts).toList = texts.map String.toList := by
  rw [parts_eq_splitOn, Value.joined, String.toList_intercalate]
  refine List.splitOn_intercalate ',' ?_ (by simpa using hne)
  intro l hl
  obtain ⟨t, ht, rfl⟩ := List.mem_map.mp hl
  exact h t ht

end Text

/-! ## Leaves -/

/-- The operator that asks whether a value is among some, or whether it is not. -/
def Operator.membership (negated : Bool) : Operator := if negated then .notIn else .isIn

namespace Leaf

/-- The texts that a list of values is kept as. -/
def listed (items : List Value) : List String :=
  if items = [] then [""] else items.map Value.plain

/-- A value is mistaken by a list if it has a text of an item that is kept by another text than
it is compared by, or if it is the empty text and nothing is listed. -/
def Mistakes (items : List Value) (v : Value) : Prop :=
  (∃ x ∈ items, x.isRespelt = true ∧ (x.comparable = v.comparable ∨ x.plain = v.comparable)) ∨
    items = [] ∧ v = .text ""

/-- The fields of a leaf that asks whether a value is among the items, or is not. -/
structure Lists (negated : Bool) (items : List Value) (fields : List (String × Value)) : Prop where
  formed : Formed fields
  conditions : field? "conditions" fields = none
  operator : ∃ v, field? "operator" fields = some v ∧
    Text.capitals v.plain = (Operator.membership negated).name
  value : field? "value" fields = some (.list items)
  valueIds : ∀ v, field? "observation_value_ids" fields = some v → v = .null

variable {negated : Bool} {items : List Value} {fields : List (String × Value)} {l : Leaf}

theorem Mirrors.of_lists (h : l.Mirrors fields) (hlists : Lists negated items fields) :
    l.operator = .membership negated ∧
      l.value = .text (Value.joined "," (items.map Value.plain)) ∧ l.valueIds = none := by
  refine ⟨?_, ?_, ?_⟩
  · obtain ⟨v, hv, hname⟩ := hlists.operator
    have hsame : l.operator.name = (Operator.membership negated).name := by
      rw [h.operator, hv, ← hname]
      rfl
    have hread := Operator.ofName?_eq_some.mpr hsame
    exact Option.some.inj (hread.symm.trans (Operator.ofName?_name _))
  · rw [h.value, hlists.value]
    rfl
  · have hids := h.valueIds
    cases hgiven : field? "observation_value_ids" fields with
    | none =>
      rw [hgiven] at hids
      exact (Except.ok.inj hids).symm
    | some v =>
      rw [hgiven, hlists.valueIds v hgiven] at hids
      exact (Except.ok.inj hids).symm

theorem parts_listed (hscalar : ∀ x ∈ items, x.isScalar = true)
    (hcomma : ∀ s, Value.text s ∈ items → ',' ∉ s.toList) :
    Text.parts ',' (Value.joined "," (items.map Value.plain)).toList =
      (listed items).map String.toList := by
  unfold listed
  split
  case isTrue hempty => rw [hempty]; rfl
  case isFalse hne =>
    refine Text.parts_joined (by simpa using hne) fun t ht => ?_
    obtain ⟨x, hx, rfl⟩ := List.mem_map.mp ht
    exact Value.comma_not_mem_plain (hscalar x hx) fun s hs => hcomma s (hs ▸ hx)

theorem mem_listed_iff {v : Value} (hv : v.isScalar = true) (h : ¬Mistakes items v) :
    v.comparable ∈ listed items ↔ ∃ x ∈ items, x.comparable = v.comparable := by
  rw [Mistakes, not_or] at h
  obtain ⟨hspelt, hempty⟩ := h
  unfold listed
  split
  case isTrue hnil =>
    have htext : v.comparable ≠ "" := fun htext =>
      hempty ⟨hnil, Value.eq_empty_of_comparable hv htext⟩
    simp [hnil, htext]
  case isFalse =>
    rw [List.mem_map]
    refine exists_congr fun x => and_congr_right fun hx => ?_
    cases hrespelt : x.isRespelt with
    | false => rw [(Value.comparable_eq_plain_iff x).mpr hrespelt]
    | true =>
      -- the value has neither of the item's texts
      have hother := not_or.mp fun heq => hspelt ⟨x, hx, hrespelt, heq⟩
      simp only [hother]

/-- A list is looked through for the text of what was observed. -/
theorem evaluate_of_lists (h : l.Mirrors fields) (hlists : Lists negated items fields)
    (hscalar : ∀ x ∈ items, x.isScalar = true)
    (hcomma : ∀ s, Value.text s ∈ items → ',' ∉ s.toList) {os : List Observation} {o : Observation}
    (ho : firstOf l.typeId os = some o) (hvalue : o.value.isScalar = true) :
    l.evaluate os = .ok (decide (o.value.comparable ∈ listed items) != negated) := by
  obtain ⟨hoperator, hjoined, hids⟩ := h.of_lists hlists
  have hnull : o.value ≠ .null := fun hnull => by
    rw [hnull] at hvalue
    cases hvalue
  -- what was joined is cut at the same commas, and at no others
  have hamong : o.value.amongParts l.value = decide (o.value.comparable ∈ listed items) := by
    rw [Value.amongParts, hjoined, Value.comparable_text, parts_listed hscalar hcomma,
      Bool.eq_iff_iff, List.contains_iff_mem, decide_eq_true_iff,
      List.mem_map_of_injective fun _ _ => String.toList_inj.mp]
  rw [evaluate_of_first ho, holdsOf, hids]
  simp only [hjoined, reduceCtorEq, hnull, or_self, if_false]
  rw [← hjoined, hoperator]
  cases negated <;> simp [Operator.membership, Operator.compare, hamong]

end Leaf

namespace Condition

variable {negated : Bool} {items : List Value} {fields : List (String × Value)}

theorem readNode_lists (h : Leaf.Lists negated items fields) (path : NodePath) :
    ∃ l, readNode path (.object fields) = (some (.leaf l), []) ∧ l.Mirrors fields := by
  rcases Leaf.read_cases fields with ⟨l, hread, -, hmirrors⟩ | ⟨_, _, hbad, _⟩
  · refine ⟨l, ?_, hmirrors⟩
    simp only [readNode, readObject_eq, h.conditions, readLeaf, hread]
  · exact absurd h.formed hbad

/-- A leaf that lists scalars is judged on whether the text of what was observed is that of an
item, unless the list mistakes what was observed. An item is matched by itself, but not if it is a
truth value or a whole number with a fraction and stands alone. In any case what is looked for is
one of the texts that the list is kept as. -/
theorem judges_membership (path : NodePath) (h : Leaf.Lists negated items fields)
    (hscalar : ∀ x ∈ items, x.isScalar = true)
    (hcomma : ∀ s, Value.text s ∈ items → ',' ∉ s.toList) :
    ∃ l, readNode path (.object fields) = (some (.leaf l), []) ∧ l.Mirrors fields ∧
      ∀ os o, firstOf l.typeId os = some o → o.value.isScalar = true →
        (¬Leaf.Mistakes items o.value → evaluate os (.leaf l) =
          .ok (decide (∃ x ∈ items, x.comparable = o.value.comparable) != negated)) ∧
        (o.value ∈ items → o.value.isRespelt = false → evaluate os (.leaf l) = .ok (!negated)) ∧
        (items = [o.value] → o.value.isRespelt = true → evaluate os (.leaf l) = .ok negated) ∧
        evaluate os (.leaf l) =
          .ok (decide (o.value.comparable ∈ Leaf.listed items) != negated) := by
  obtain ⟨l, hread, hmirrors⟩ := readNode_lists h path
  refine ⟨l, hread, hmirrors, fun os o ho hvalue => ?_⟩
  have hjudged : evaluate os (.leaf l) =
      .ok (decide (o.value.comparable ∈ Leaf.listed items) != negated) :=
    Leaf.evaluate_of_lists hmirrors h hscalar hcomma ho hvalue
  refine ⟨fun hmistakes => ?_, fun hmem hspelt => ?_, fun halone hrespelt => ?_, hjudged⟩
  · rw [hjudged]
    simp only [Leaf.mem_listed_iff hvalue hmistakes]
  · have hlisted : o.value.comparable ∈ Leaf.listed items := by
      rw [Leaf.listed, if_neg (List.ne_nil_of_mem hmem), List.mem_map]
      exact ⟨o.value, hmem, ((Value.comparable_eq_plain_iff _).mpr hspelt).symm⟩
    rw [hjudged, decide_eq_true hlisted, Bool.true_bne]
  · have hunlisted : o.value.comparable ∉ Leaf.listed items := by
      rw [Leaf.listed, halone, if_neg (List.cons_ne_nil _ _), List.map_singleton,
        List.mem_singleton, Value.comparable_eq_plain_iff, hrespelt]
      exact nofun
    rw [hjudged, decide_eq_false hunlisted, Bool.false_bne]

/-- A leaf on an alarm that lists some values. -/
def alarmFields (operator : String) (items : List Value) : List (String × Value) :=
  [("observation_type_id", .text "alarm"), ("operator", .text operator), ("value", .list items)]

theorem lists_alarmFields (negated : Bool) (items : List Value) :
    Leaf.Lists negated items (alarmFields (Operator.membership negated).name items) where
  formed := by
    refine ⟨⟨_, rfl, by decide⟩, ?_, nofun, nofun⟩
    rintro v ⟨⟩
    exact ⟨.membership negated, by cases negated <;> decide⟩
  conditions := rfl
  operator := ⟨_, rfl, by cases negated <;> decide⟩
  value := rfl
  valueIds := nofun

/-- A count is found when its text was observed, and a name when it was not to be. -/
theorem alarm_judged :
    (∃ l, readNode [] (.object (alarmFields "IN" [.text "none", .int 3])) = (some (.leaf l), []) ∧
      evaluate [⟨"alarm", none, .text "3"⟩] (.leaf l) = .ok true) ∧
    ∃ l, readNode [] (.object (alarmFields "NOT_IN" [.text "none", .bool true])) =
        (some (.leaf l), []) ∧
      evaluate [⟨"alarm", none, .text "none"⟩] (.leaf l) = .ok false := by
  have hfirst {l : Leaf} {o : Observation} {operator : String} {items : List Value}
      (h : l.Mirrors (alarmFields operator items)) (ho : o.typeId = "alarm") :
      firstOf l.typeId [o] = some o := by
    obtain ⟨v, hv, htype⟩ := h.typeId
    cases hv
    rw [htype, firstOf]
    exact List.find?_cons_of_pos (decide_eq_true ho)
  constructor
  · obtain ⟨l, hread, hmirrors, hjudged⟩ :=
      judges_membership [] (lists_alarmFields false [.text "none", .int 3]) (by decide) (by simp)
    refine ⟨l, hread, ?_⟩
    exact (hjudged _ _ (hfirst hmirrors rfl) rfl).1 (by simp [Leaf.Mistakes, Value.isRespelt])
  · obtain ⟨l, hread, hmirrors, hjudged⟩ :=
      judges_membership [] (lists_alarmFields true [.text "none", .bool true]) (by decide) (by simp)
    refine ⟨l, hread, ?_⟩
    exact (hjudged _ _ (hfirst hmirrors rfl) rfl).2.1 List.mem_cons_self rfl

/-- A truth value that is listed is not found, and in an empty list the empty text is. -/
theorem alarm_misjudged :
    ((readNode [] (.object (alarmFields "IN" [.bool true]))).1.map
      (evaluate [⟨"alarm", none, .bool true⟩]) = some (.ok false) ∧
      ∃ x ∈ [Value.bool true], x.comparable = (Value.bool true).comparable) ∧
    (readNode [] (.object (alarmFields "IN" []))).1.map
      (evaluate [⟨"alarm", none, .text ""⟩]) = some (.ok true) := by
  exact ⟨⟨by decide +kernel, _, List.mem_singleton_self _, rfl⟩, by decide +kernel⟩

end Condition

end PropertyRisk
