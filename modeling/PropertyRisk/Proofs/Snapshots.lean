import PropertyRisk.Proofs.Chronology
import PropertyRisk.Proofs.Listing
import PropertyRisk.Proofs.Moments

/-!
# What was known of a property at a time

Whatever calls were made while the clock told the time in UTC, forward or back, what both stores
list of a property is in the order of the instants of detection: SQL text order and that of the
instants are one on the texts that the clock writes. The state of a property at a time is the part
of this list up to that instant, so it is a beginning of every later one:
`Backing.snapshots_grow`.
-/

namespace PropertyRisk

open Op (Triple Keeps)
open Engine

/-! ## Lists in order -/

section

variable {α : Type} {f : α → Int} {xs : List α} {i j : Int}

/-- What is not past a bound is a beginning of a list in order. -/
theorem filter_le_prefix (h : xs.Pairwise (f · ≤ f ·)) (i : Int) :
    xs.filter (decide <| f · ≤ i) <+: xs := by
  induction xs with
  | nil => exact List.prefix_rfl
  | cons x rest ih =>
    obtain ⟨hfirst, hrest⟩ := List.pairwise_cons.mp h
    by_cases hx : f x ≤ i
    · rw [List.filter_cons_of_pos (by simpa using hx)]
      exact (List.prefix_cons_inj x).mpr (ih hrest)
    · -- the others are past the bound as well
      have hnone : rest.filter (decide <| f · ≤ i) = [] := by
        refine List.filter_eq_nil_iff.mpr fun y hy hle => ?_
        have := hfirst y hy
        have := of_decide_eq_true hle
        omega
      rw [List.filter_cons_of_neg (by simpa using hx), hnone]
      exact List.nil_prefix

theorem filter_le_prefix_filter (h : xs.Pairwise (f · ≤ f ·)) (hle : i ≤ j) :
    xs.filter (decide <| f · ≤ i) <+: xs.filter (decide <| f · ≤ j) := by
  have hpart : (xs.filter (decide <| f · ≤ j)).filter (decide <| f · ≤ i) =
      xs.filter (decide <| f · ≤ i) := by
    rw [List.filter_filter]
    refine List.filter_congr fun x _ => ?_
    rw [← Bool.decide_and]
    exact decide_eq_decide.mpr ⟨And.left, fun hx => ⟨hx, hx.trans hle⟩⟩
  rw [← hpart]
  exact filter_le_prefix (h.filter _) i

end

/-! ## Detection times -/

/-- The instant at which a vulnerability was detected, if its time can be read. -/
def Vulnerability.foundAt (x : Vulnerability) : Int := (instantOf x.detectedAt).toOption.getD 0

/-- The time of detection is one that a clock in UTC has told. -/
def Vulnerability.IsTimed (x : Vulnerability) : Prop :=
  ∃ t : Time.Stamp, t.offset = .utc ∧ x.detectedAt = .text t.text

theorem foundAt_of_stamp {x : Vulnerability} {t : Time.Stamp}
    (h : requireStampValue x.detectedAt = .ok t) : x.foundAt = t.instant := by
  simp [Vulnerability.foundAt, instantOf, h]
  rfl

theorem instantOf_foundAt {x : Vulnerability} {t : Time.Stamp}
    (h : requireStampValue x.detectedAt = .ok t) : instantOf x.detectedAt = .ok x.foundAt := by
  rw [foundAt_of_stamp h]
  exact instantOf_eq_ok.mpr ⟨t, h, rfl⟩

theorem stamped_of_timed {xs : List Vulnerability} (h : ∀ x ∈ xs, x.IsTimed) : Stamped xs :=
  fun x hx => by
    obtain ⟨t, -, ht⟩ := h x hx
    exact ⟨t, ht ▸ requireStampValue_text t⟩

/-- To leave out what has a later timestamp is to leave out what was found later. -/
theorem map_filter_stampAll {xs : List Vulnerability} {stamped : List (Time.Stamp × Vulnerability)}
    (h : stampAll xs = .ok stamped) (cutoff : Time.Stamp) :
    (stamped.filter (·.1.le cutoff)).map (·.2) =
      xs.filter (decide <| ·.foundAt ≤ cutoff.instant) := by
  induction xs generalizing stamped with
  | nil =>
    cases h
    rfl
  | cons x rest ih =>
    unfold stampAll at h
    split at h
    · cases h
    · rename_i stamp hx
      split at h
      · cases h
      · rename_i others hrest
        cases h
        have hle : stamp.le cutoff = decide (x.foundAt ≤ cutoff.instant) := by
          rw [foundAt_of_stamp hx]
          rfl
        rw [List.filter_cons, List.filter_cons, ← ih hrest]
        simp only [hle]
        split <;> rfl

/-! ## The order of both stores -/

theorem Memory.sorted_byDetection {xs ys : List Vulnerability} (hst : PropertyRisk.Stamped xs)
    (h : byDetection xs = .ok ys) : ys.Pairwise (·.foundAt ≤ ·.foundAt) := by
  obtain ⟨stamped, hs, -, hread⟩ := stampAll_of_stamped hst
  simp only [byDetection, hs, Except.ok.injEq] at h
  rw [← h, List.pairwise_map]
  have hsorted := @List.pairwise_mergeSort _ (fun a b : Time.Stamp × Vulnerability => a.1.le b.1)
    (fun _ _ _ => Time.Stamp.le_trans) (fun _ _ => Time.Stamp.le_total _ _) stamped
  refine hsorted.imp_of_mem fun {a b} ha hb hle => ?_
  rw [foundAt_of_stamp (hread a (List.mem_mergeSort.mp ha)),
    foundAt_of_stamp (hread b (List.mem_mergeSort.mp hb))]
  exact of_decide_eq_true hle

/-- Texts of the clock are in the order of their instants. -/
theorem Tables.foundAt_le {x y : Vulnerability} (hx : x.IsTimed) (hy : y.IsTimed)
    (h : foundBefore x y = true) : x.foundAt ≤ y.foundAt := by
  obtain ⟨t, ht, hxt⟩ := hx
  obtain ⟨u, hu, hyu⟩ := hy
  have htext : t.text ≤ u.text := by
    have hle := foundBefore_iff.mp h
    rw [hxt, hyu] at hle
    exact Prod.Lex.monotone_fst _ _ hle
  rw [foundAt_of_stamp (hxt ▸ requireStampValue_text t),
    foundAt_of_stamp (hyu ▸ requireStampValue_text u)]
  rcases Time.Stamp.instant_text_lt ht hu with ⟨hlt, -⟩ | rfl | ⟨-, hlt⟩
  · exact hlt.le
  · exact le_rfl
  · exact absurd hlt (not_lt.mpr htext)

namespace Backing

/-- Both stores list what the clock has timed by the instants of detection. -/
theorem exists_inOrder : ∀ (b : Backing) {xs : List Vulnerability}, (∀ x ∈ xs, x.IsTimed) →
    ∃ ys, b.inOrder xs = .ok ys ∧ ys.Perm xs ∧ ys.Pairwise (·.foundAt ≤ ·.foundAt)
  | memory, _, h => by
    obtain ⟨ys, hys, hperm⟩ := Memory.byDetection_of_stamped (stamped_of_timed h)
    exact ⟨ys, hys, hperm, Memory.sorted_byDetection (stamped_of_timed h) hys⟩
  | tables, xs, h => by
    refine ⟨_, rfl, List.mergeSort_perm _ _, ?_⟩
    have hsorted := List.pairwise_mergeSort Tables.foundBefore_trans Tables.foundBefore_total xs
    exact hsorted.imp_of_mem fun hx hy =>
      Tables.foundAt_le (h _ (List.mem_mergeSort.mp hx)) (h _ (List.mem_mergeSort.mp hy))

end Backing

/-! ## Lists up to an instant -/

theorem Memory.ofProperty_upTo {m : Memory} {p time : Value} {ys : List Vulnerability}
    {cutoff : Time.Stamp} (htime : requireStampValue time = .ok cutoff)
    (hst : PropertyRisk.Stamped (m.vulnerabilities.records.filter (·.propertyId.equal p)))
    (hys : byDetection (m.vulnerabilities.records.filter (·.propertyId.equal p)) = .ok ys) :
    m.ofProperty p (some time) = .ok (ys.filter (decide <| ·.foundAt ≤ cutoff.instant)) := by
  obtain ⟨stamped, hs, -, -⟩ := stampAll_of_stamped hst
  simp only [ofProperty, htime, hs, map_filter_stampAll hs]
  exact byDetection_filter hys _

theorem Tables.run_listUpTo {w : World Tables} {p q time : Value} {cutoff : Time.Stamp}
    (h : w.store.vulnerabilities.state = .whole) (hp : Cell.number p = .ok q)
    (htime : requireStampValue time = .ok cutoff)
    (hst : Stamped (byDetection
      (w.store.vulnerabilities.rows.records.filter (·.propertyId.equal q)))) :
    (listForProperty p (some time)).run w =
      (.ok ((byDetection (w.store.vulnerabilities.rows.records.filter
        (·.propertyId.equal q))).filter (decide <| ·.foundAt ≤ cutoff.instant)), w) := by
  obtain ⟨stamped, hs, -, -⟩ := stampAll_of_stamped hst
  rw [run_listForProperty_until h hp, htime, hs, ← map_filter_stampAll hs]
  rfl

namespace Backing

variable {b : Backing} {w : World b.Store} {p time : Value} {xs : List Vulnerability}
  {cutoff : Time.Stamp}

/-- What a store lists of a property up to an instant is the part of its list that was found by
then. -/
theorem run_listUpTo : ∀ (b : Backing) {w : World b.Store} {xs : List Vulnerability},
    b.HasFindings w.store → b.view.Settled p → Stamped xs →
    (b.storage.perform (.listVulnerabilitiesForProperty p none)).run w = (.ok xs, w) →
    requireStampValue time = .ok cutoff →
    (b.storage.perform (.listVulnerabilitiesForProperty p (some time))).run w =
      (.ok (xs.filter (decide <| ·.foundAt ≤ cutoff.instant)), w)
  | memory, w, xs, _, _, hst, hrun, htime => by
    have hlisted : w.store.ofProperty p none = .ok xs :=
      congrArg Prod.fst ((Memory.run_look (fun m => m.ofProperty p none) w).symm.trans hrun)
    have hleft := Memory.ofProperty_upTo htime
      (hst.sublist fun _ => (Memory.perm_of_byDetection hlisted).mem_iff.mpr) hlisted
    exact (Memory.run_look (fun m => m.ofProperty p (some time)) w).trans
      (congrArg (·, w) hleft)
  | tables, w, xs, h, hp, hst, hrun, htime => by
    cases (Tables.run_listForProperty h hp.1).symm.trans hrun
    exact Tables.run_listUpTo h hp.1 htime hst

/-- A list of what a property has, oldest first. -/
structure Recounts (b : Backing) (w : World b.Store) (p : Value) (xs : List Vulnerability) : Prop
    extends b.ListsFor w p xs where
  found : ∀ x ∈ xs, instantOf x.detectedAt = .ok x.foundAt
  oldestFirst : xs.Pairwise (·.foundAt ≤ ·.foundAt)

theorem exists_recounts (h : b.HasFindings w.store) (hp : b.view.Settled p)
    (ht : ∀ x ∈ (b.view.records w.store).vulnerabilities.records, x.IsTimed) :
    ∃ xs, b.Recounts w p xs := by
  have htimed : ∀ x ∈ (b.view.records w.store).vulnerabilities.records.filter
      (·.propertyId.equal p), x.IsTimed := fun x hx => ht x (List.mem_filter.mp hx).1
  obtain ⟨xs, hxs, hperm, hsorted⟩ := b.exists_inOrder htimed
  refine ⟨xs, ⟨b.records_vulnerabilities w.store ▸ hperm, ?_⟩, fun x hx => ?_, hsorted⟩
  · rw [run_listForProperty b h hp, hxs]
  · obtain ⟨t, ht⟩ := stamped_of_timed htimed x (hperm.mem_iff.mp hx)
    exact instantOf_foundAt ht

/-- The state of a property at a time is the part of its list up to that instant. -/
theorem Recounts.run_stateAt (hxs : b.Recounts w p xs) (h : b.HasFindings w.store)
    (hp : b.view.Settled p) (htime : requireStampValue time = .ok cutoff) :
    (Assessments.stateAt b.storage p time).run w =
      (.ok ⟨p, cutoff.text, xs.filter (decide <| ·.foundAt ≤ cutoff.instant)⟩, w) := by
  have hst : Stamped xs := fun x hx => (instantOf_eq_ok.mp (hxs.found x hx)).imp fun _ ht => ht.1
  unfold Assessments.stateAt
  rw [htime, Op.run_bind, Op.run_ofExcept]
  simp only
  rw [Op.run_bind, b.run_listUpTo h hp hst hxs.run (requireStampValue_text cutoff)]
  rfl

/-! ## Calls made in UTC -/

/-- Whatever was found was found at a time that a clock in UTC told. -/
structure Clocked (b : Backing) (w : World b.Store) : Prop where
  numbered : b.view.Numbered w
  there : b.HasFindings w.store
  timed : ∀ x ∈ (b.view.records w.store).vulnerabilities.records, x.IsTimed

/-- No request takes the table of vulnerabilities away. -/
theorem keeps_hasFindings : ∀ {b : Backing} {w : World b.Store}, b.HasFindings w.store →
    ∀ r : Request α, Keeps (fun u => b.HasFindings u.store) (b.storage.perform r) w
  | memory, _, _, _ => Triple.of_forall (fun _ _ _ => trivial) fun _ _ _ => trivial
  | tables, w, h, r => by
    have hspares : Tables.Spares (fun t => t.vulnerabilities.state) r := by
      cases r <;> first
        | exact trivial
        | exact fun _ _ => rfl
    exact (Tables.keeps_beside hspares).imp fun t ht => ht.2.trans h

namespace Clocked

variable {c : Call} {q : Request α} {u : World b.Store}

theorem timed_of_turns (h : b.Clocked w) (hutc : w.clock.offset = .utc)
    (hd : ∀ d, q.opens? = some d → d.detectedAt = .text w.clock.text)
    (ht : b.view.Turns b.tag b.spot w q u) :
    ∀ x ∈ (b.view.records u.store).vulnerabilities.records, x.IsTimed := by
  intro y hy
  obtain ⟨-, he⟩ := ht
  cases he with
  | same hsame => exact h.timed y (hsame ▸ hy)
  | opened hopens hid hx hissued hput =>
    rcases Shelf.mem_records_put (hput ▸ hy) with rfl | hy
    · refine ⟨w.clock, hutc, ?_⟩
      rw [hx.detectedAt, hd _ hopens, Value.orElse_stamp, b.tag_text]
    · exact h.timed y hy
  | changed hchange hs hold hsame hstatus hput =>
    rcases Shelf.mem_records_put (hput ▸ hy) with rfl | hy
    · obtain ⟨t, hutc, ht⟩ := h.timed _ (Shelf.mem_records_of_get? hold)
      exact ⟨t, hutc, hsame.detectedAt.trans ht⟩
    · exact h.timed y hy
  | deleted herase => exact h.timed y (Shelf.mem_records_of_erase (herase ▸ hy))

/-- What a request keeps that dates what it opens by the clock. -/
theorem keeps (h : b.Clocked w) (hutc : w.clock.offset = .utc) (hq : c.Asks q)
    (hd : ∀ d, q.opens? = some d → d.detectedAt = .text w.clock.text) :
    Keeps (fun u => b.Clocked u ∧ u.clock = w.clock) (b.storage.perform q) w := by
  have hturns := b.keeps_turns h.numbered.shelved hq.proper.workflow
  exact (hturns.both (keeps_hasFindings h.there q)).imp fun u ⟨ht, hthere⟩ =>
    ⟨⟨h.numbered.step b.tag_text hq.proper ht, hthere, h.timed_of_turns hutc hd ht⟩, ht.1.clock⟩

theorem tick (h : b.Clocked w) (clock : Time.Stamp) : b.Clocked { w with clock } :=
  ⟨h.numbered.tick clock, h.there, h.timed⟩

theorem empty (b : Backing) (clock : Time.Stamp) (issued : Nat) {idOf : Nat → String}
    (hinj : Function.Injective idOf) (hwhole : ∀ n, Text.isWhole (idOf n) = true) :
    b.Clocked ⟨b.empty, clock, issued, idOf⟩ := by
  have hrecords : b.view.records b.empty = {} := b.records_empty
  refine ⟨.empty (congrArg Memory.vulnerabilities hrecords) hinj
    fun n => b.plain_of_isWhole (hwhole n), ?_, hrecords ▸ nofun⟩
  cases b
  · trivial
  · rfl

end Clocked

/-- What is agreed with a store during a call: time stands still, and what is opened is dated by
it. -/
def clocking (b : Backing) (clock : Time.Stamp) : Contract (World b.Store) where
  inv u := b.Clocked u ∧ u.clock = clock
  may q := (∃ c : Call, c.Asks q) ∧ ∀ d, q.opens? = some d → d.detectedAt = .text clock.text

theorem meets_clocking {clock : Time.Stamp} (hutc : clock.offset = .utc) :
    b.storage.faulty.Meets (b.clocking clock).first := by
  refine (meets_of_keeps ?_).faulty fun _ _ => trivial
  rintro α q w ⟨⟨c, hq⟩, hd⟩ ⟨h, rfl⟩
  exact h.keeps hutc hq hd

theorem Visited.clocked (h : b.Visited (fun w _ _ => w.clock.offset = .utc) w) : b.Clocked w := by
  induction h with
  | empty clock issued idOf hinj hwhole => exact .empty b clock issued hinj hwhole
  | tick clock _ ih => exact ih.tick clock
  | @call w policy plan c hutc _ ih =>
    refine (Call.upheld_as_dated (meets_clocking hutc) (fun _ _ => trivial) ?_ policy
      (s := (w, plan)) ⟨ih, rfl⟩).keeps.state.1
    intro α q hq _ hdates
    refine ⟨⟨c, hq⟩, fun d hd => ?_⟩
    -- only this request has a time of detection, and the clock has told it
    cases q <;> cases hd
    obtain ⟨⟨u, rest⟩, stamp, ⟨-, hclock⟩, hnow, hd⟩ := hdates
    have htold : u.clock.text = stamp.text :=
      Except.ok.inj (congrArg Prod.fst ((b.run_now_faulty u rest).symm.trans hnow))
    rw [hd, ← htold, hclock]

/-! ## Growing beginnings -/

/-- In every state that calls made in UTC lead to, what a store lists of a property is all of it,
oldest first; its state at a time is the part of this that was found by then, a beginning of the
state at any later time and of the list. -/
theorem snapshots_grow {earlier later : String} {t u : Time.Stamp}
    (h : b.Visited (fun w _ _ => w.clock.offset = .utc) w) (hp : b.view.Settled p)
    (ht : Time.Stamp.read? earlier = some t) (hu : Time.Stamp.read? later = some u)
    (hle : t.instant ≤ u.instant) :
    ∃ xs, b.Recounts w p xs ∧
      (Assessments.stateAt b.storage p (.text earlier)).run w =
        (.ok ⟨p, t.text, xs.filter (decide <| ·.foundAt ≤ t.instant)⟩, w) ∧
      (Assessments.stateAt b.storage p (.text later)).run w =
        (.ok ⟨p, u.text, xs.filter (decide <| ·.foundAt ≤ u.instant)⟩, w) ∧
      xs.filter (decide <| ·.foundAt ≤ t.instant) <+: xs.filter (decide <| ·.foundAt ≤ u.instant) ∧
      xs.filter (decide <| ·.foundAt ≤ u.instant) <+: xs := by
  have hread {s : String} {stamp : Time.Stamp} (hs : Time.Stamp.read? s = some stamp) :
      requireStampValue (.text s) = .ok stamp := by
    simp [requireStampValue, requireStamp, hs]
  have hclocked := h.clocked
  obtain ⟨xs, hxs⟩ := exists_recounts hclocked.there hp hclocked.timed
  exact ⟨xs, hxs, hxs.run_stateAt hclocked.there hp (hread ht),
    hxs.run_stateAt hclocked.there hp (hread hu), filter_le_prefix_filter hxs.oldestFirst hle,
    filter_le_prefix hxs.oldestFirst _⟩

/-- A number that no integer column can hold is not asked for, though nothing is stored of it. -/
theorem stateAt_oversized : tables.Visited (fun w _ _ => w.clock.offset = .utc) (start tables) ∧
    tables.vulnerabilities (start tables).store = [] ∧
    (Assessments.stateAt tables.storage (.int (2 ^ 63)) (.text "2026-01-15T12:00:00+00:00")).run
      (start tables) = (.error (.fault .tooLarge), start tables) := by
  have hread : requireStampValue (.text "2026-01-15T12:00:00+00:00") =
      .ok ⟨⟨2026, 1, 15, by decide⟩, ⟨12, 0, 0, 0, by decide⟩, .utc⟩ := by decide +kernel
  refine ⟨.empty _ 0 letters letters_injective isWhole_letters, rfl, ?_⟩
  rw [Assessments.stateAt, hread]
  rfl

/-! ## A clock that goes back -/

def midday : Time.Stamp := { (start tables).clock with time := ⟨12, 0, 0, 0, by decide⟩ }

/-- Noon by a clock that is an hour ahead. -/
def middayAbroad : Time.Stamp :=
  ⟨midday.date, ⟨13, 0, 0, 0, by decide⟩, ⟨3600000000, by decide, by decide⟩⟩

/-- Half a second later. -/
def halfPast : Time.Stamp := ⟨midday.date, ⟨12, 0, 0, 500000, by decide⟩, .utc⟩

def discovery : Call := .createVulnerability (.text "leak") (.text "visit") (.int 7) .null

/-- Two discoveries, the later of which is the earlier one by the clock. -/
def rewound : World Tables :=
  tables.after {} [] discovery
    { tables.after {} [] discovery { start tables with clock := halfPast } with clock := midday }

theorem snapshots_rewound : ∃ xs, tables.Recounts rewound (.int 7) xs ∧
    (Assessments.stateAt tables.storage (.int 7) (.text "2024-01-01T13:00+01:00")).run rewound =
      (.ok ⟨.int 7, middayAbroad.text, xs.filter (decide <| ·.foundAt ≤ middayAbroad.instant)⟩,
        rewound) ∧
    (Assessments.stateAt tables.storage (.int 7) (.text "20240101T120000,5Z")).run rewound =
      (.ok ⟨.int 7, halfPast.text, xs.filter (decide <| ·.foundAt ≤ halfPast.instant)⟩, rewound) ∧
    xs.filter (decide <| ·.foundAt ≤ middayAbroad.instant) <+:
      xs.filter (decide <| ·.foundAt ≤ halfPast.instant) ∧
    xs.filter (decide <| ·.foundAt ≤ halfPast.instant) <+: xs := by
  have hvisited : tables.Visited (fun w _ _ => w.clock.offset = .utc) rewound :=
    .call _ _ rfl <| .tick _ <| .call _ _ rfl <| .tick _ <|
      .empty _ 0 letters letters_injective isWhole_letters
  have hearlier : Time.Stamp.read? "2024-01-01T13:00+01:00" = some middayAbroad := by decide +kernel
  have hlater : Time.Stamp.read? "20240101T120000,5Z" = some halfPast := by decide +kernel
  have hle : middayAbroad.instant ≤ halfPast.instant := by decide +kernel
  exact snapshots_grow hvisited ⟨Cell.number_int (by decide), nofun⟩ hearlier hlater hle

/-- The one at midday was stored last. -/
example : (tables.vulnerabilities rewound.store).map (·.detectedAt) =
    [.text halfPast.text, .text midday.text] := by decide +kernel

end Backing

end PropertyRisk
