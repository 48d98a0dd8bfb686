import PropertyRisk.Condition.Reading
import Mathlib.Data.List.Infix

/-!
# Whose problem a message tells

The message of a problem starts with the place of a node: the path of the node from the root,
then a colon, or the name of the field that is wrong and a colon. `NodePath.owns_message`: no
other node is told by the message, so the nodes of malformed documents can be told apart by what
is said of them.
-/

namespace PropertyRisk

namespace NodePath

/-- What may follow the path of a node in a message about it. -/
def places : List String := [":", ".conditions:", ".observation_value_ids:"]

/-- The message is about the node at the path. -/
def owns (path : NodePath) (message : String) : Bool :=
  places.any fun place => message.startsWith (text path ++ place)

/-- The characters of a path below the root. -/
def chars (path : NodePath) : List Char :=
  path.flatMap fun i => ".conditions[".toList ++ (toString i).toList ++ ']' :: []

theorem foldl_text (path : NodePath) (s : String) :
    (path.foldl (fun s i => s ++ ".conditions[" ++ toString i ++ "]") s).toList =
      s.toList ++ chars path := by
  induction path generalizing s with
  | nil => simp [chars]
  | cons i rest ih =>
    rw [List.foldl_cons, ih]
    simp [chars, String.toList_append]

theorem toList_text (path : NodePath) : (text path).toList = "root".toList ++ chars path :=
  foldl_text path "root"

theorem chars_cons (i : Nat) (rest : NodePath) :
    chars (i :: rest) = ".conditions[".toList ++ ((toString i).toList ++ ']' :: chars rest) := by
  simp [chars]

theorem toList_toString (n : Nat) : (toString n).toList = Nat.toDigits 10 n := by
  rw [Nat.toString_eq_ofList_toDigits, String.toList_ofList]

theorem bracket_not_mem_digits (n : Nat) : ']' ∉ (toString n).toList := by
  intro hmem
  rw [toList_toString] at hmem
  exact absurd (Nat.isDigit_of_mem_toDigits (by decide) (by decide) hmem) (by decide)

theorem eq_of_toString_eq {m n : Nat} (h : (toString m).toList = (toString n).toList) : m = n := by
  rw [toList_toString, toList_toString] at h
  rw [← Nat.ofDigitChars_ten_toDigits (n := m), h, Nat.ofDigitChars_ten_toDigits]

/-- Two texts up to the first mark are the same if what starts with one starts with the other. -/
theorem prefix_of_mark {α : Type} {mark : α} : ∀ {xs ys as bs : List α},
    mark ∉ xs → mark ∉ ys → xs ++ mark :: as <+: ys ++ mark :: bs → xs = ys ∧ as <+: bs
  | [], [], _, _, _, _, h => ⟨rfl, (List.cons_prefix_cons.mp h).2⟩
  | [], y :: ys, _, _, _, hys, h =>
    absurd ((List.cons_prefix_cons.mp h).1 ▸ List.mem_cons_self) hys
  | x :: xs, [], _, _, hxs, _, h =>
    absurd ((List.cons_prefix_cons.mp h).1 ▸ List.mem_cons_self) hxs
  | x :: xs, y :: ys, _, _, hxs, hys, h => by
    rw [List.cons_append, List.cons_append] at h
    obtain ⟨rfl, htail⟩ := List.cons_prefix_cons.mp h
    obtain ⟨rfl, hrest⟩ := prefix_of_mark (fun hx => hxs (List.mem_cons_of_mem _ hx))
      (fun hy => hys (List.mem_cons_of_mem _ hy)) htail
    exact ⟨rfl, hrest⟩

/-- What follows the path in a message is never taken for one more step of the path. -/
theorem eq_of_chars_append {place rest : List Char} {other : List Char}
    (hplace : place ∈ places.map String.toList) (hother : other ∈ places.map String.toList) :
    ∀ {p q : NodePath}, chars p ++ place <+: chars q ++ (other ++ rest) → p = q
  | [], [], _ => rfl
  | [], j :: q, h => by
    -- the name of a field is followed by a bracket in a path and by a colon in a place
    exfalso
    rw [chars_cons] at h
    simp only [places, List.map_cons, List.map_nil, List.mem_cons, List.not_mem_nil,
      or_false] at hplace
    rcases hplace with rfl | rfl | rfl <;> simp [chars] at h
  | i :: p, [], h => by
    exfalso
    rw [chars_cons] at h
    simp only [places, List.map_cons, List.map_nil, List.mem_cons, List.not_mem_nil,
      or_false] at hother
    rcases hother with rfl | rfl | rfl <;> simp [chars] at h
  | i :: p, j :: q, h => by
    rw [chars_cons, chars_cons] at h
    simp only [List.append_assoc, List.cons_append, List.prefix_append_right_inj] at h
    -- the digits of a place end at the bracket that closes it
    obtain ⟨hdigits, hrest⟩ :=
      prefix_of_mark (bracket_not_mem_digits i) (bracket_not_mem_digits j) h
    rw [eq_of_toString_eq hdigits, eq_of_chars_append hplace hother hrest]

end NodePath

namespace NodeProblem

/-- A message goes on after the path with one of the places. -/
theorem toList_message (p : NodeProblem) : ∃ place ∈ NodePath.places, ∃ rest,
    p.message.toList = (NodePath.text p.path ++ place).toList ++ rest := by
  obtain ⟨path, fault⟩ := p
  cases fault with
  | conditionsNotList =>
    exact ⟨".conditions:", by decide, " expected a list".toList, by simp [message]⟩
  | valueIdsNotList =>
    exact ⟨".observation_value_ids:", by decide, " expected a list".toList, by simp [message]⟩
  | notObject kind =>
    exact ⟨":", by decide, (" expected an object, got " ++ kind).toList, by simp [message]⟩
  | badJoin =>
    exact ⟨":", by decide, " join_operator must be AND or OR".toList, by simp [message]⟩
  | typeMissing =>
    exact ⟨":", by decide, " observation_type_id is required".toList, by simp [message]⟩
  | unknownOperator given =>
    exact ⟨":", by decide, (" unknown operator " ++ given.shown).toList, by simp [message]⟩
  | unknownKind given =>
    exact ⟨":", by decide, (" unknown value_type " ++ given.shown).toList, by simp [message]⟩
  | rootNotGroup =>
    exact ⟨":", by decide, " the top level of a rule must be a condition group".toList,
      by simp [message]⟩

end NodeProblem

/-- A message is about the node where the problem is, and about no other. -/
theorem NodePath.owns_message (path : NodePath) (p : NodeProblem) :
    path.owns p.message = true ↔ p.path = path := by
  obtain ⟨other, hother, rest, hmessage⟩ := p.toList_message
  simp only [owns, List.any_eq_true, String.startsWith_string_iff, hmessage]
  constructor
  · rintro ⟨place, hplace, hprefix⟩
    simp only [String.toList_append, toList_text, List.append_assoc,
      List.prefix_append_right_inj] at hprefix
    have hsame := eq_of_chars_append (List.mem_map_of_mem hplace) (List.mem_map_of_mem hother) hprefix
    exact hsame.symm
  · rintro rfl
    exact ⟨other, hother, List.prefix_append _ _⟩

end PropertyRisk
