import PropertyRisk.Proofs.Judgements

/-!
# The order in which vulnerabilities are listed

Both stores list what a property has by the time of detection. The order of two
vulnerabilities depends on nothing but these two, so deleting some leaves the others
in the order in which they were listed.
-/

namespace PropertyRisk

/-! ## Sorting a part of a list -/

section

variable {α : Type} {r : α → α → Bool}
  (trans : ∀ a b c, r a b = true → r b c = true → r a c = true)
  (total : ∀ a b, (r a b || r b a) = true)

include trans total

/-- An element is sorted in just before what must not come ahead of it. -/
theorem mergeSort_cons_eq (a : α) (xs : List α) : (a :: xs).mergeSort r =
    (xs.mergeSort r).filter (!r a ·) ++ a :: (xs.mergeSort r).filter (r a) := by
  obtain ⟨before, after, hsort, hrest, hbefore⟩ := List.mergeSort_cons trans total a xs
  have hsorted : (before ++ a :: after).Pairwise fun b c => r b c = true :=
    hsort ▸ List.pairwise_mergeSort trans total (a :: xs)
  -- so the comparison with the element tells on which side of it the others are
  have hafter : ∀ b ∈ after, r a b = true :=
    (List.pairwise_cons.mp (List.pairwise_append.mp hsorted).2.1).1
  have hfirst : before.filter (!r a ·) = before := List.filter_eq_self.mpr hbefore
  have hnone : after.filter (!r a ·) = [] := by simpa using hafter
  have hnone' : before.filter (r a) = [] := by simpa using hbefore
  rw [hsort, hrest, List.filter_append, List.filter_append, hfirst, hnone, hnone',
    List.filter_eq_self.mpr hafter, List.append_nil, List.nil_append]

/-- Stable sorting commutes with leaving elements out. -/
theorem filter_mergeSort (q : α → Bool) (xs : List α) :
    (xs.mergeSort r).filter q = (xs.filter q).mergeSort r := by
  induction xs with
  | nil => simp
  | cons a rest ih =>
    cases hq : q a with
    | false =>
      -- the others are in the same order with it and without it
      obtain ⟨before, after, hsort, hrest, -⟩ := List.mergeSort_cons trans total a rest
      rw [hrest, List.filter_append] at ih
      rw [hsort, List.filter_append, List.filter_cons_of_neg (by simp [hq]), ih,
        List.filter_cons_of_neg (by simp [hq])]
    | true =>
      rw [mergeSort_cons_eq trans total, List.filter_append, List.filter_cons_of_pos hq,
        List.filter_cons_of_pos hq, mergeSort_cons_eq trans total, ← ih]
      simp only [List.filter_filter, Bool.and_comm]

end

/-! ## In memory -/

namespace Memory

theorem stampAll_filter {xs : List Vulnerability} {stamped : List (Time.Stamp × Vulnerability)}
    (h : stampAll xs = .ok stamped) (q : Vulnerability → Bool) :
    stampAll (xs.filter q) = .ok (stamped.filter (q ·.2)) := by
  induction xs generalizing stamped with
  | nil =>
    cases h
    rfl
  | cons x rest ih =>
    unfold stampAll at h
    split at h
    · cases h
    · rename_i stamp hx
      split at h
      · cases h
      · rename_i others hrest
        cases h
        cases hq : q x with
        | false => simpa [hq] using ih hrest
        | true => simp [hq, stampAll, hx, ih hrest]

theorem byDetection_filter {xs ys : List Vulnerability} (h : byDetection xs = .ok ys)
    (q : Vulnerability → Bool) : byDetection (xs.filter q) = .ok (ys.filter q) := by
  unfold byDetection at h
  split at h
  · cases h
  · rename_i stamped hs
    cases h
    have hsorted := filter_mergeSort (r := fun a b : Time.Stamp × Vulnerability => a.1.le b.1)
      (fun _ _ _ => Time.Stamp.le_trans) (fun _ _ => Time.Stamp.le_total _ _) (q ·.2) stamped
    simp only [byDetection, stampAll_filter hs q, ← hsorted, List.filter_map]
    rfl

end Memory

/-! ## In tables -/

namespace Tables

/-- What a text column holds. -/
def columnText : Value → String
  | .text s => s
  | _ => ""

/-- Vulnerabilities are listed by the text of their detection time, those of one time by id. -/
def foundBefore (x y : Vulnerability) : Bool :=
  decide (columnText x.detectedAt < columnText y.detectedAt) ||
    (decide (columnText x.detectedAt = columnText y.detectedAt) &&
      decide (columnText x.id ≤ columnText y.id))

theorem foundBefore_iff {x y : Vulnerability} : foundBefore x y = true ↔
    toLex (columnText x.detectedAt, columnText x.id) ≤
      toLex (columnText y.detectedAt, columnText y.id) := by
  simp [foundBefore, Prod.Lex.toLex_le_toLex]

theorem byDetection_eq (rows : List VulnerabilityRow) : byDetection rows =
    (rows.map VulnerabilityRow.toVulnerability).mergeSort foundBefore :=
  List.map_mergeSort fun _ _ _ _ => rfl

theorem foundBefore_trans (x y z : Vulnerability) (hxy : foundBefore x y = true)
    (hyz : foundBefore y z = true) : foundBefore x z = true :=
  foundBefore_iff.mpr ((foundBefore_iff.mp hxy).trans (foundBefore_iff.mp hyz))

theorem foundBefore_total (x y : Vulnerability) : (foundBefore x y || foundBefore y x) = true := by
  rw [Bool.or_eq_true, foundBefore_iff, foundBefore_iff]
  exact le_total _ _

theorem filter_mergeSort_found (xs : List Vulnerability) (q : Vulnerability → Bool) :
    (xs.mergeSort foundBefore).filter q = (xs.filter q).mergeSort foundBefore :=
  filter_mergeSort foundBefore_trans foundBefore_total q xs

end Tables

/-! ## Either store -/

namespace Backing

/-- Vulnerabilities in the order in which a store lists them. -/
def inOrder : Backing → List Vulnerability → Except Error (List Vulnerability)
  | memory => Memory.byDetection
  | tables => fun xs => .ok (xs.mergeSort Tables.foundBefore)

theorem inOrder_filter : ∀ (b : Backing) {xs ys : List Vulnerability}, b.inOrder xs = .ok ys →
    ∀ q : Vulnerability → Bool, b.inOrder (xs.filter q) = .ok (ys.filter q)
  | memory, _, _, h, q => Memory.byDetection_filter h q
  | tables, xs, _, h, q => by
    cases h
    exact congrArg Except.ok (Tables.filter_mergeSort_found xs q).symm

/-- The table of vulnerabilities is there. -/
def HasFindings : (b : Backing) → b.Store → Prop
  | memory => fun _ => True
  | tables => fun t : Tables => t.vulnerabilities.state = .whole

theorem hasFindings_of_ready : ∀ (b : Backing) {w : World b.Store}, b.view.Ready w →
    b.HasFindings w.store
  | memory, _, _ => trivial
  | tables, _, h => h.whole.vulnerabilities

theorem run_listForProperty : ∀ (b : Backing) {w : World b.Store} {p : Value},
    b.HasFindings w.store → b.view.Settled p →
    (b.storage.perform (.listVulnerabilitiesForProperty p none)).run w =
      (b.inOrder ((b.view.records w.store).vulnerabilities.records.filter (·.propertyId.equal p)),
        w)
  | memory, w, p, _, _ => Memory.run_look (fun m => m.ofProperty p none) w
  | tables, w, p, h, hp => by
    refine (Tables.run_listForProperty h hp.1).trans ?_
    show _ = (Except.ok (((Shelf.records (Shelf.relabel _ _ _)).filter _).mergeSort _), w)
    rw [Shelf.records_relabel, List.filter_map, Tables.byDetection_eq]
    rfl

/-- What a store lists for a property. -/
structure ListsFor (b : Backing) (w : World b.Store) (p : Value) (xs : List Vulnerability) :
    Prop where
  perm : xs.Perm ((b.vulnerabilities w.store).filter (·.propertyId.equal p))
  run : (b.storage.perform (.listVulnerabilitiesForProperty p none)).run w = (.ok xs, w)

variable {b : Backing} {w u : World b.Store} {p : Value} {xs : List Vulnerability}

theorem exists_lists (h : b.view.Ready w) (hst : Stamped (b.vulnerabilities w.store))
    (hp : b.view.Settled p) : ∃ xs, b.ListsFor w p xs := by
  rw [← b.records_vulnerabilities] at hst
  obtain ⟨xs, hperm, hrun⟩ := b.lawful.listForProperty h hst hp
  rw [b.records_vulnerabilities] at hperm
  rw [b.view_storage] at hrun
  exact ⟨xs, hperm, hrun⟩

namespace ListsFor

theorem listed (hl : b.ListsFor w p xs) : xs.Perm
    ((b.view.records w.store).vulnerabilities.records.filter (·.propertyId.equal p)) := by
  rw [b.records_vulnerabilities]
  exact hl.perm

theorem mem_iff (hl : b.ListsFor w p xs) {x : Vulnerability} : x ∈ xs ↔
    x ∈ (b.view.records w.store).vulnerabilities.records ∧ x.propertyId.equal p = true := by
  rw [hl.listed.mem_iff, List.mem_filter]

theorem nodup (hl : b.ListsFor w p xs) (h : b.view.Ready w) : xs.Nodup :=
  h.nodup_listed hl.listed

/-- What is left of a property is listed as it was. -/
theorem dropping (hl : b.ListsFor w p xs) (h : b.view.Ready w) (hu : b.view.Ready u)
    (hp : b.view.Settled p) {gone : Vulnerability → Bool}
    (hrecords : b.view.records u.store = (b.view.records w.store).dropping gone) :
    b.ListsFor u p (xs.filter (!gone ·)) := by
  have hleft : b.vulnerabilities u.store = (b.vulnerabilities w.store).filter (!gone ·) := by
    rw [← b.records_vulnerabilities, hrecords, Memory.records_dropping, b.records_vulnerabilities]
  constructor
  · rw [hleft, List.filter_comm]
    exact hl.perm.filter _
  · have hsorted := congrArg Prod.fst
      ((run_listForProperty b (b.hasFindings_of_ready h) hp).symm.trans hl.run)
    rw [b.records_vulnerabilities] at hsorted
    have hkept := inOrder_filter b hsorted (!gone ·)
    rw [List.filter_comm, ← hleft] at hkept
    rw [run_listForProperty b (b.hasFindings_of_ready hu) hp, b.records_vulnerabilities, hkept]

end ListsFor

end Backing

end PropertyRisk
