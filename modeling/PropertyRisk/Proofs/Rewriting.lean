import PropertyRisk.Proofs.Comparable
import Mathlib.Logic.Relation

/-!
# Rewriting a tree

`Condition.Equivalent.judged_alike`: trees that come from one another by rearranging groups are
judged the same, on all observations that their leaves can be compared with.

The laws are not those of conjunction and disjunction, since a group without members does not
hold: it is neutral under `or`, but not under `and`, and a nested group may be dissolved only if
it has members. Order decides which error is met first, so where a leaf overflows, members cannot
be moved at all.
-/

namespace PropertyRisk

namespace Condition

variable {os : List Observation} {c d : Condition} {cs ds : List Condition}

/-- No leaf of the tree comes to compare a huge number by order. -/
def Comparable (os : List Observation) (c : Condition) : Prop :=
  ∀ l ∈ c.leaves, ¬l.Overflows os

/-- Where no leaf compares by order, all observations will do. -/
theorem comparable_of_unordered (h : ∀ l ∈ c.leaves, l.operator.isOrder = false) :
    c.Comparable os :=
  fun l hl hover => Bool.false_ne_true ((h l hl).symm.trans hover.byOrder)

theorem Comparable.evaluate (h : c.Comparable os) : ∃ t, c.evaluate os = .ok t := by
  cases ht : c.evaluate os with
  | ok t => exact ⟨t, rfl⟩
  | error e =>
    obtain ⟨l, hl, hover⟩ := overflows_of_evaluate ht
    exact absurd hover (h l hl)

theorem mem_leaves_group {j : Join} {l : Leaf} :
    l ∈ (group j cs).leaves ↔ ∃ c ∈ cs, l ∈ c.leaves := by
  rw [leaves, leavesOf_eq_flatMap, List.mem_flatMap]

theorem Comparable.member {j : Join} (h : (group j cs).Comparable os) (hc : c ∈ cs) :
    c.Comparable os :=
  fun l hl => h l (mem_leaves_group.mpr ⟨c, hc, hl⟩)

theorem exists_mem_append {P : Condition → Prop} :
    (∃ c ∈ cs ++ ds, P c) ↔ (∃ c ∈ cs, P c) ∨ ∃ c ∈ ds, P c := by
  simp only [List.mem_append, or_and_right, exists_or]

/-! ## What a group comes to -/

theorem allHold_eq_true_iff : allHold os cs = .ok true ↔ ∀ c ∈ cs, evaluate os c = .ok true := by
  induction cs with
  | nil => simp [allHold]
  | cons c rest ih =>
    rw [allHold, List.forall_mem_cons, ← ih]
    split <;> simp_all

theorem anyHolds_eq_true_iff (h : ∀ c ∈ cs, ∃ t, evaluate os c = .ok t) :
    anyHolds os cs = .ok true ↔ ∃ c ∈ cs, evaluate os c = .ok true := by
  induction cs with
  | nil => simp [anyHolds]
  | cons c rest ih =>
    rw [List.forall_mem_cons] at h
    obtain ⟨⟨t, ht⟩, hrest⟩ := h
    rw [anyHolds, ht, List.exists_mem_cons_iff, ht, ← ih hrest]
    cases t <;> simp

/-- A group joined by `and` holds just if it has members and all of them hold. -/
theorem evaluate_and_iff :
    evaluate os (.group .and cs) = .ok true ↔ cs ≠ [] ∧ ∀ c ∈ cs, evaluate os c = .ok true := by
  cases cs with
  | nil => simp [evaluate]
  | cons c rest =>
    rw [evaluate, allHold_eq_true_iff]
    simp

/-- Under `and` an empty group is not neutral: no group that has one holds. -/
theorem evaluate_and_of_empty {k : Join} (h : group k [] ∈ cs) :
    evaluate os (.group .and cs) ≠ .ok true := by
  rw [Ne, evaluate_and_iff]
  rintro ⟨-, hall⟩
  cases hall _ h

/-- A group joined by `or` holds just if a member holds, where none comes to an error. -/
theorem evaluate_or_iff (h : ∀ c ∈ cs, ∃ t, evaluate os c = .ok t) :
    evaluate os (.group .or cs) = .ok true ↔ ∃ c ∈ cs, evaluate os c = .ok true := by
  cases cs with
  | nil => simp [evaluate]
  | cons c rest => rw [evaluate, anyHolds_eq_true_iff h]

/-- Two trees that come to truth values are told apart by what makes them hold. -/
theorem evaluate_eq_of_iff (hc : ∃ t, evaluate os c = .ok t) (hd : ∃ t, evaluate os d = .ok t)
    (h : evaluate os c = .ok true ↔ evaluate os d = .ok true) : evaluate os c = evaluate os d := by
  obtain ⟨t, ht⟩ := hc
  obtain ⟨u, hu⟩ := hd
  have htu : t = u := Bool.eq_iff_iff.mpr (by simpa [ht, hu] using h)
  rw [ht, hu, htu]

theorem members_congr (h : cs.map (evaluate os) = ds.map (evaluate os)) :
    allHold os cs = allHold os ds ∧ anyHolds os cs = anyHolds os ds := by
  induction cs generalizing ds with
  | nil =>
    rw [List.map_eq_nil_iff.mp h.symm]
    exact ⟨rfl, rfl⟩
  | cons c rest ih =>
    cases ds with
    | nil => cases h
    | cons d ds =>
      obtain ⟨hd, hrest⟩ := List.cons.inj h
      rw [allHold, allHold, anyHolds, anyHolds, hd, (ih hrest).1, (ih hrest).2]
      exact ⟨rfl, rfl⟩

/-- A group is judged on what its members come to, one after the other. -/
theorem evaluate_group_congr (j : Join) (h : cs.map (evaluate os) = ds.map (evaluate os)) :
    evaluate os (.group j cs) = evaluate os (.group j ds) := by
  cases cs with
  | nil => rw [List.map_eq_nil_iff.mp h.symm]
  | cons c rest =>
    cases ds with
    | nil => cases h
    | cons d ds =>
      cases j with
      | and => exact (members_congr h).1
      | or => exact (members_congr h).2

/-! ## Places in a tree -/

/-- A tree with a place left open, at any depth. -/
inductive Context
  | here
  | inside (join : Join) (before : List Condition) (rest : Context) (after : List Condition)

namespace Context

def fill (c : Condition) : Context → Condition
  | .here => c
  | .inside join before rest after => .group join (before ++ rest.fill c :: after)

/-- What is put in a place counts just by what it comes to. -/
theorem evaluate_fill_congr (h : evaluate os c = evaluate os d) :
    ∀ C : Context, evaluate os (C.fill c) = evaluate os (C.fill d)
  | .here => h
  | .inside join before rest after => by
    -- the members come to the same as before, at the open place too
    refine evaluate_group_congr join ?_
    rw [List.map_append, List.map_append, List.map_cons, List.map_cons,
      rest.evaluate_fill_congr h]

theorem mem_leaves_fill {l : Leaf} (h : l ∈ c.leaves) : ∀ C : Context, l ∈ (C.fill c).leaves
  | .here => h
  | .inside _ _ rest _ => mem_leaves_group.mpr ⟨rest.fill c, by simp, rest.mem_leaves_fill h⟩

theorem mem_leaves_fill_congr {l : Leaf} (h : l ∈ c.leaves ↔ l ∈ d.leaves) :
    ∀ C : Context, l ∈ (C.fill c).leaves ↔ l ∈ (C.fill d).leaves
  | .here => h
  | .inside _ before rest after => by
    simp only [fill, mem_leaves_group, exists_mem_append, List.exists_mem_cons_iff,
      rest.mem_leaves_fill_congr h]

end Context

/-! ## Rewritings -/

/-- A group is rewritten, at the top of a tree. A nested group without members is not dissolved,
since it does not hold. -/
inductive Rearranges : Condition → Condition → Prop
  | permuted {j : Join} {cs ds : List Condition} (h : cs.Perm ds) :
      Rearranges (.group j cs) (.group j ds)
  | repeated {j : Join} {before after : List Condition} {c : Condition}
      (h : c ∈ before ++ after) :
      Rearranges (.group j (before ++ after)) (.group j (before ++ c :: after))
  | flattened {j : Join} {before ds after : List Condition} (h : ds ≠ []) :
      Rearranges (.group j (before ++ .group j ds :: after)) (.group j (before ++ (ds ++ after)))
  | wrapped {j : Join} {c : Condition} : Rearranges c (.group j [c])
  | padded {k : Join} {before after : List Condition} :
      Rearranges (.group .or (before ++ after)) (.group .or (before ++ .group k [] :: after))

/-- One rewriting, somewhere in a tree. -/
inductive Rewrites : Condition → Condition → Prop
  | inside (C : Context) {c d : Condition} (h : Rearranges c d) : Rewrites (C.fill c) (C.fill d)

/-- One tree becomes the other by rewritings, each made or undone. -/
def Equivalent : Condition → Condition → Prop := Relation.EqvGen Rewrites

theorem mem_repeat {before after : List Condition} (h : c ∈ before ++ after) (x : Condition) :
    x ∈ before ++ after ↔ x ∈ before ++ c :: after := by
  rw [List.mem_append, List.mem_append, List.mem_cons]
  constructor
  · exact Or.imp_right .inr
  · rintro (hx | rfl | hx)
    · exact .inl hx
    · exact List.mem_append.mp h
    · exact .inr hx

/-- Rewriting leaves the leaves there are, though not how many times and in which order. -/
theorem Rearranges.mem_leaves {l : Leaf} (h : Rearranges c d) : l ∈ c.leaves ↔ l ∈ d.leaves := by
  cases h with
  | permuted h => simp only [mem_leaves_group, h.mem_iff]
  | repeated h => simp only [mem_leaves_group, mem_repeat h]
  | flattened => simp only [mem_leaves_group, exists_mem_append, List.exists_mem_cons_iff]
  | wrapped => simp [mem_leaves_group]
  | @padded k before after =>
    have hempty : l ∉ (group k []).leaves := by simp [mem_leaves_group]
    simp only [mem_leaves_group (j := .or), exists_mem_append, List.exists_mem_cons_iff, hempty,
      false_or]

/-- Groups with the same members, be it in another order or more than once, are judged the
same. -/
theorem evaluate_group_of_mem_iff {j : Join} (hc : (group j cs).Comparable os)
    (h : ∀ c, c ∈ cs ↔ c ∈ ds) : evaluate os (.group j cs) = evaluate os (.group j ds) := by
  have hcs (c) (hmem : c ∈ cs) : ∃ t, evaluate os c = .ok t := (hc.member hmem).evaluate
  have hds : (group j ds).Comparable os := fun l hl => by
    obtain ⟨d, hd, hld⟩ := mem_leaves_group.mp hl
    exact hc.member ((h d).mpr hd) l hld
  refine evaluate_eq_of_iff hc.evaluate hds.evaluate ?_
  cases j with
  | and =>
    have hnil : cs = [] ↔ ds = [] := by
      rw [List.eq_nil_iff_forall_not_mem, List.eq_nil_iff_forall_not_mem]
      exact forall_congr' fun c => not_congr (h c)
    simp only [evaluate_and_iff, h, ne_eq, hnil]
  | or =>
    rw [evaluate_or_iff hcs, evaluate_or_iff fun d hd => hcs d ((h d).mpr hd)]
    simp only [h]

theorem Rearranges.evaluate (h : Rearranges c d) (hc : c.Comparable os) :
    c.evaluate os = d.evaluate os := by
  have hd : d.Comparable os := fun l hl => hc l (h.mem_leaves.mpr hl)
  cases h with
  | permuted h => exact evaluate_group_of_mem_iff hc fun _ => h.mem_iff
  | repeated h => exact evaluate_group_of_mem_iff hc (mem_repeat h)
  | @flattened j before ds after hne =>
    refine evaluate_eq_of_iff hc.evaluate hd.evaluate ?_
    cases j with
    | and =>
      -- a group without members would not hold, and take the group around it with it
      simp only [evaluate_and_iff, List.forall_mem_append, List.forall_mem_cons]
      simp [hne]
    | or =>
      -- it does not matter whether a member that holds is one of the group or of the nested one
      have hnested := hc.member (c := .group .or ds) (by simp)
      rw [evaluate_or_iff fun c hmem => (hc.member hmem).evaluate,
        evaluate_or_iff fun d hmem => (hd.member hmem).evaluate]
      simp only [exists_mem_append, List.exists_mem_cons_iff,
        evaluate_or_iff fun d hmem => (hnested.member hmem).evaluate]
  | @wrapped j c =>
    refine evaluate_eq_of_iff hc.evaluate hd.evaluate ?_
    cases j with
    | and => simp [evaluate_and_iff]
    | or =>
      rw [evaluate_or_iff fun d hmem => (hd.member hmem).evaluate]
      simp
  | @padded k before after =>
    refine evaluate_eq_of_iff hc.evaluate hd.evaluate ?_
    rw [evaluate_or_iff fun c hmem => (hc.member hmem).evaluate,
      evaluate_or_iff fun d hmem => (hd.member hmem).evaluate]
    have hempty : evaluate os (.group k []) ≠ .ok true := by simp [Condition.evaluate]
    simp only [exists_mem_append, List.exists_mem_cons_iff, hempty, false_or]

theorem Rewrites.mem_leaves {l : Leaf} (h : Rewrites c d) : l ∈ c.leaves ↔ l ∈ d.leaves := by
  obtain ⟨C, h⟩ := h
  exact C.mem_leaves_fill_congr h.mem_leaves

theorem Rewrites.evaluate (h : Rewrites c d) (hc : c.Comparable os) :
    c.evaluate os = d.evaluate os := by
  obtain ⟨C, h⟩ := h
  exact C.evaluate_fill_congr (h.evaluate fun l hl => hc l (C.mem_leaves_fill hl))

theorem Equivalent.mem_leaves {l : Leaf} (h : Equivalent c d) : l ∈ c.leaves ↔ l ∈ d.leaves := by
  induction h with
  | rel _ _ h => exact h.mem_leaves
  | refl _ => rfl
  | symm _ _ _ ih => exact ih.symm
  | trans _ _ _ _ _ ih ih' => exact ih.trans ih'

/-- Equivalent trees come to the same truth value, where nothing overflows in one of them. -/
theorem Equivalent.judged_alike (h : Equivalent c d) (hc : c.Comparable os) :
    ∃ t, c.evaluate os = .ok t ∧ d.evaluate os = .ok t := by
  have heq : c.evaluate os = d.evaluate os := by
    -- no leaf is new at any step, so none overflows at any
    induction h with
    | rel _ _ h => exact h.evaluate hc
    | refl _ => rfl
    | symm _ _ h ih => exact (ih fun l hl => hc l (Equivalent.mem_leaves h |>.mp hl)).symm
    | trans _ _ _ h _ ih ih' =>
      exact (ih hc).trans (ih' fun l hl => hc l (Equivalent.mem_leaves h |>.mpr hl))
  obtain ⟨t, ht⟩ := hc.evaluate
  exact ⟨t, ht, heq ▸ ht⟩

def water : Condition := .leaf { typeId := "water", value := .text "yes" }

def oldRoof : Condition :=
  .leaf { typeId := "roof", operator := .notEquals, value := .text "new" }

/-- The inner group is dissolved, its members are moved and one is said twice. An empty group
stands beside them, and a group around it all. -/
theorem wetRoof_judged :
    (Equivalent (.group .or [.group .and [oldRoof, .group .and [water]]])
        (.group .and [.group .or [.group .and [], .group .and [water, oldRoof, water]]]) ∧
      Comparable [⟨"roof", none, .text "old"⟩, ⟨"water", none, .text "yes"⟩]
        (.group .or [.group .and [oldRoof, .group .and [water]]])) ∧
    ∃ t, evaluate [⟨"roof", none, .text "old"⟩, ⟨"water", none, .text "yes"⟩]
          (.group .or [.group .and [oldRoof, .group .and [water]]]) = .ok t ∧
      evaluate [⟨"roof", none, .text "old"⟩, ⟨"water", none, .text "yes"⟩]
          (.group .and [.group .or [.group .and [], .group .and [water, oldRoof, water]]]) =
        .ok t := by
  have hequiv : Equivalent (.group .or [.group .and [oldRoof, .group .and [water]]])
      (.group .and [.group .or [.group .and [], .group .and [water, oldRoof, water]]]) := by
    refine .trans _ _ _ (.rel _ _ (.inside (.inside .or [] .here [])
      (@Rearranges.flattened .and [oldRoof] [water] [] (by simp)))) ?_
    refine .trans _ _ _ (.rel _ _ (.inside (.inside .or [] .here [])
      (.permuted (.swap water oldRoof [])))) ?_
    refine .trans _ _ _ (.rel _ _ (.inside (.inside .or [] .here [])
      (@Rearranges.repeated .and [water, oldRoof] [] water (by simp)))) ?_
    refine .trans _ _ _ (.rel _ _ (.inside .here
      (@Rearranges.padded .and [] [.group .and [water, oldRoof, water]]))) ?_
    exact .rel _ _ (.inside .here .wrapped)
  have hcomparable : Comparable [⟨"roof", none, .text "old"⟩, ⟨"water", none, .text "yes"⟩]
      (.group .or [.group .and [oldRoof, .group .and [water]]]) :=
    comparable_of_unordered (by decide)
  exact ⟨⟨hequiv, hcomparable⟩, hequiv.judged_alike hcomparable⟩

end Condition

end PropertyRisk
