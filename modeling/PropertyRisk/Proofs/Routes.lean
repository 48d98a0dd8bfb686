import PropertyRisk.Http.Service
import Mathlib.Data.String.Basic

/-!
# Where paths lead

The segments of a path are the stretches between its slashes, which tell the endpoints
at it (`Endpoint.ofPath_of_words`). No endpoint is for the method whose responses have no
document.
-/

namespace PropertyRisk

open String in
theorem Text.splitOnAux_slash (l m r : List Char) (acc : List String) :
    splitOnAux (ofList (l ++ m ++ r)) "/" ⟨utf8Len l⟩ ⟨utf8Len l + utf8Len m⟩ 0 acc =
      acc.reverse ++ (List.splitOnPPrepend (· == '/') r m.reverse).map ofList := by
  -- `m` is what was read since the last slash; a slash moves it to `acc`.
  induction r generalizing l m acc with
  | nil =>
    have hend := atEnd_of_valid (l ++ m) []
    have hextract := extract_of_valid l m []
    simp only [utf8Len_append, List.append_nil, iff_true] at hend hextract ⊢
    rw [splitOnAux, if_pos hend, hextract]
    simp
  | cons c t ih =>
    have hget := get_of_valid (l ++ m) (c :: t)
    have hnext := next_of_valid (l ++ m) c t
    have hend := atEnd_of_valid (l ++ m) (c :: t)
    have hextract := extract_of_valid l m (c :: t)
    have hslash : Pos.Raw.get "/" 0 = '/' := rfl
    simp only [utf8Len_append, reduceCtorEq, iff_false, List.headD_cons] at hget hnext hend
    rw [splitOnAux, if_neg hend, hget, hslash, List.splitOnPPrepend_cons_eq_if]
    by_cases hc : c = '/'
    · subst hc
      have hlast : Pos.Raw.atEnd "/" (Pos.Raw.next "/" 0) = true := rfl
      have hback : Pos.Raw.unoffsetBy ⟨utf8Len l + utf8Len m + Char.utf8Size '/'⟩
          (Pos.Raw.next "/" 0) = ⟨utf8Len l + utf8Len m⟩ := rfl
      have hrest := ih (l ++ m ++ ['/']) [] (ofList m :: acc)
      simp only [utf8Len_append, utf8Len_cons, utf8Len_nil, List.append_nil, Nat.zero_add,
        Nat.add_zero, List.append_assoc, List.cons_append, List.nil_append, ← Nat.add_assoc]
        at hrest hextract hnext ⊢
      simp only [beq_self_eq_true, if_true, hnext, hlast, hback, hextract, hrest]
      simp
    · have hrest := ih l (m ++ [c]) acc
      simp only [utf8Len_append, utf8Len_cons, utf8Len_nil, Nat.zero_add, List.append_assoc,
        List.cons_append, List.nil_append, ← Nat.add_assoc] at hrest hnext ⊢
      simp only [beq_iff_eq, hc, if_false, Pos.Raw.unoffsetBy_zero, hnext, hrest]
      simp

/-- The stretches between the slashes of a text, told by its characters. -/
theorem Text.splitOn_slash (s : String) :
    s.splitOn "/" = (s.toList.splitOn '/').map String.ofList := by
  have h := splitOnAux_slash [] [] s.toList []
  have hsep : ("/" == "") = false := rfl
  simp only [List.append_nil, List.nil_append, List.reverse_nil, String.ofList_toList,
    String.utf8Len_nil] at h
  rw [String.splitOn, hsep, List.splitOn]
  exact h

namespace Http

/-- The endpoints at a path are those at its words, none of which is empty. -/
theorem Endpoint.ofPath_of_words (words : List String) {path : String}
    (hend : withoutLineEnd path = path)
    (hwords : (path.toList.splitOn '/').map String.ofList = "" :: "api" :: "v1" :: words)
    (hfull : words.contains "" = false) : ofPath path = atWord words ++ atId words := by
  have hsegments : segments path = words := by
    rw [segments, Text.splitOn_slash, hwords]
    simp only [hfull, Bool.false_eq_true, if_false]
  rw [ofPath, hend, hsegments]

/-! ## No endpoint for a response without a document -/

theorem Endpoint.lookup_head_atWord (parts : List String) : (atWord parts).lookup .head = none := by
  unfold atWord
  split <;> rfl

theorem Endpoint.lookup_head_atId (parts : List String) : (atId parts).lookup .head = none := by
  unfold atId
  split <;> rfl

theorem Endpoint.lookup_head (path : String) : (ofPath path).lookup .head = none := by
  rw [ofPath, List.lookup_append, lookup_head_atWord, lookup_head_atId]
  rfl

theorem route_head (path : String) (e : Endpoint) : route .head path ≠ .endpoint e := by
  have hnone := Endpoint.lookup_head path
  unfold route
  split
  · split <;> simp
  · rw [hnone]
    simp

end Http

end PropertyRisk
