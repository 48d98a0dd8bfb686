import PropertyRisk.Proofs.Punctual
import PropertyRisk.Proofs.Snapshots
import PropertyRisk.Proofs.WellFormed

/-!
# Lists in the order of time

Tables are listed in the order of texts: the rules by when they were made, vulnerabilities by when
they were found. Texts that a clock in UTC writes compare as their instants do, though some have a
fraction and others none: `Time.Stamp.compare_text`. So whatever calls were made while the clock
told the time in UTC, forward or back, each of these lists has the oldest first:
`Backing.lists_oldest_first`.
-/

namespace PropertyRisk

open Op (Triple Keeps)
open Engine

/-! ## Texts of timestamps -/

theorem Time.Stamp.compare_text {x y : Time.Stamp} (hx : x.offset = .utc) (hy : y.offset = .utc) :
    compare x.text y.text = compare x.instant y.instant := by
  rcases Time.Stamp.instant_text_lt hx hy with ⟨hinstant, htext⟩ | rfl | ⟨hinstant, htext⟩
  · rw [compare_lt_iff_lt.mpr hinstant, compare_lt_iff_lt.mpr htext]
  · rw [compare_eq_iff_eq.mpr rfl, compare_eq_iff_eq.mpr rfl]
  · rw [compare_gt_iff_gt.mpr hinstant, compare_gt_iff_gt.mpr htext]

/-- Times that a clock in UTC has told, none of them before the one ahead of it. -/
def OldestFirst (times : List Value) : Prop :=
  ∃ stamps : List Time.Stamp, times = stamps.map (.text ·.text) ∧
    (∀ t ∈ stamps, t.offset = .utc) ∧ stamps.Pairwise (·.instant ≤ ·.instant)

theorem OldestFirst.sublist {xs ys : List Value} (h : OldestFirst ys) (hs : xs.Sublist ys) :
    OldestFirst xs := by
  obtain ⟨stamps, rfl, hutc, hsorted⟩ := h
  obtain ⟨left, hleft, rfl⟩ := List.sublist_map_iff.mp hs
  exact ⟨left, rfl, fun t ht => hutc t (hleft.subset ht), hsorted.sublist hleft⟩

/-- The texts of timestamps in UTC, in the order of texts. -/
theorem oldestFirst_of_texts {texts : List String}
    (htold : ∀ s ∈ texts, ∃ t : Time.Stamp, t.offset = .utc ∧ s = t.text)
    (hsorted : texts.Pairwise (· ≤ ·)) : OldestFirst (texts.map .text) := by
  induction texts with
  | nil => exact ⟨[], rfl, nofun, .nil⟩
  | cons s rest ih =>
    obtain ⟨hfirst, hrest⟩ := List.pairwise_cons.mp hsorted
    obtain ⟨t, ht, rfl⟩ := htold s List.mem_cons_self
    obtain ⟨stamps, hstamps, hutc, hsorted⟩ := ih (fun s hs => htold s (.tail _ hs)) hrest
    refine ⟨t :: stamps, by rw [List.map_cons, hstamps, List.map_cons],
      List.forall_mem_cons.mpr ⟨ht, hutc⟩, List.pairwise_cons.mpr ⟨fun u hu => ?_, hsorted⟩⟩
    -- the first text is not after that of `u`, so neither is its instant
    have hmem : u.text ∈ rest := by
      have hu : Value.text u.text ∈ rest.map .text := hstamps ▸ List.mem_map_of_mem hu
      simpa using hu
    have hle := compare_le_iff_le.mpr (hfirst _ hmem)
    rw [Time.Stamp.compare_text ht (hutc u hu)] at hle
    exact compare_le_iff_le.mp hle

/-! ## Rows in the order of their texts -/

namespace Tables

theorem pairwise_sortedByTexts (first second : α → String) (rows : List α) :
    (sortedByTexts first second rows).Pairwise (first · ≤ first ·) := by
  let key (row : α) : String ×ₗ String := toLex (first row, second row)
  have hkey (a b : α) : (decide (first a < first b) ||
      (decide (first a = first b) && decide (second a ≤ second b))) = decide (key a ≤ key b) := by
    simp [key, Prod.Lex.toLex_le_toLex]
  have hsorted : (rows.mergeSort fun a b => decide (key a ≤ key b)).Pairwise
      fun a b => decide (key a ≤ key b) = true :=
    List.pairwise_mergeSort (fun a b c => by simpa using le_trans)
      (fun a b => by simpa using le_total _ _) rows
  simp only [sortedByTexts, hkey]
  exact hsorted.imp fun hle => Prod.Lex.monotone_fst _ _ (of_decide_eq_true hle)

/-- Rows in the order of a time column that a clock in UTC has filled. -/
theorem oldestFirst_sortedByTexts {time id : α → String} {rows : List α}
    (htold : ∀ row ∈ rows, ∃ t : Time.Stamp, t.offset = .utc ∧ time row = t.text) :
    OldestFirst ((sortedByTexts time id rows).map (.text <| time ·)) := by
  have hmap : (sortedByTexts time id rows).map (.text <| time ·) =
      ((sortedByTexts time id rows).map time).map Value.text := List.map_map.symm
  rw [hmap]
  refine oldestFirst_of_texts (fun s hs => ?_)
    (List.pairwise_map.mpr (pairwise_sortedByTexts time id rows))
  obtain ⟨row, hrow, rfl⟩ := List.mem_map.mp hs
  exact htold row ((List.mergeSort_perm _ _).mem_iff.mp hrow)

theorem oldestFirst_byDetection {rows : List VulnerabilityRow}
    (h : ∀ row ∈ rows, row.toVulnerability.IsTimed) :
    OldestFirst ((byDetection rows).map (·.detectedAt)) := by
  have hmap : (byDetection rows).map (·.detectedAt) =
      (sortedByTexts VulnerabilityRow.detectedAt VulnerabilityRow.id rows).map
        (.text ·.detectedAt) := List.map_map
  rw [hmap]
  refine oldestFirst_sortedByTexts fun row hrow => ?_
  obtain ⟨t, hutc, ht⟩ := h row hrow
  exact ⟨t, hutc, Value.text.inj ht⟩

end Tables

/-! ## Rules made in UTC -/

/-- The time of creation is one that a clock in UTC has told. -/
def Rule.IsTimed (r : Rule) : Prop :=
  ∃ t : Time.Stamp, t.offset = .utc ∧ r.createdAt = .text t.text

namespace Backing

variable {b : Backing} {w u : World b.Store}

/-- Whatever rules there are were made at times that a clock in UTC told. -/
structure RulesTimed (b : Backing) (w : World b.Store) : Prop where
  punctual : b.Punctual w
  timed : ∀ r ∈ (b.view.records w.store).rules.records, r.IsTimed

namespace RulesTimed

variable {c : Call} {q : Request α}

theorem timed_of_effect (h : b.RulesTimed w) (hutc : w.clock.offset = .utc) (hq : c.Asks q)
    (he : b.RuleEffect w u q) : ∀ r ∈ (b.view.records u.store).rules.records, r.IsTimed := by
  intro r hr
  cases he with
  | same hsame => exact h.timed r (hsame ▸ hr)
  | created hd hissued hput =>
    rcases Shelf.mem_records_put (hput ▸ hr) with rfl | hr
    · exact ⟨w.clock, hutc, rfl⟩
    · exact h.timed r hr
  | changed hchange hs hold hrevised hput =>
    cases q <;> cases hchange
    rcases Shelf.mem_records_put (hput ▸ hr) with rfl | hr
    · -- a change leaves alone when the rule was made
      obtain ⟨tree, hproper, -⟩ := hq.2.proper
      rw [revised_of_proper hproper hrevised]
      obtain ⟨t, hutc, ht⟩ := h.timed _ (Shelf.mem_records_of_get? hold)
      refine ⟨t, hutc, ?_⟩
      rw [← ht]
      simp only [Rule.changed, View.kept, hproper.createdAt, Option.getD_none]
    · exact h.timed r hr
  | deleted hd hs herase => exact h.timed r (Shelf.mem_records_of_erase (herase ▸ hr))

/-- What a request of a call keeps. -/
theorem keeps (h : b.RulesTimed w) (hutc : w.clock.offset = .utc) (hq : c.Asks q) :
    Keeps (fun u => b.RulesTimed u ∧ u.clock = w.clock) (b.storage.perform q) w := by
  have heffect := keeps_ruleEffect h.punctual.inOrder (h.punctual.numbered.plain _)
    (parsed_of_asks hq)
  exact ((h.punctual.keeps hq).both heffect).imp fun u ⟨hu, _, hfollows, he⟩ =>
    ⟨⟨hu, h.timed_of_effect hutc hq he⟩, hfollows.clock⟩

end RulesTimed

/-- What is agreed with a store during a call: time stands still. -/
def ruleClocking (b : Backing) (clock : Time.Stamp) : Contract (World b.Store) where
  inv u := b.RulesTimed u ∧ u.clock = clock
  may q := ∃ c : Call, c.Asks q

theorem meets_ruleClocking {clock : Time.Stamp} (hutc : clock.offset = .utc) :
    b.storage.faulty.Meets (b.ruleClocking clock).first := by
  refine (meets_of_keeps ?_).faulty fun _ _ => trivial
  rintro α q w ⟨c, hq⟩ ⟨h, rfl⟩
  exact h.keeps hutc hq

theorem Visited.rulesTimed (h : b.Visited (fun w _ _ => w.clock.offset = .utc) w) :
    b.RulesTimed w := by
  induction h with
  | empty clock issued idOf hinj hwhole =>
    have hrecords : b.view.records b.empty = {} := b.records_empty
    exact ⟨.empty b clock issued hinj hwhole, hrecords ▸ nofun⟩
  | tick clock _ ih => exact ⟨ih.punctual.tick clock, ih.timed⟩
  | @call w policy plan c hutc _ ih =>
    exact (Call.upheld (meets_ruleClocking hutc) (fun _ _ => trivial) (fun hq => ⟨c, hq⟩) policy
      (s := (w, plan)) ⟨ih, rfl⟩).keeps.state.1

end Backing

/-! ## Lists -/

namespace Tables

/-- A request that lists is answered with just what it is to list, in the order of time. -/
def ListsInOrder (w : World Tables) (q : Request (List α)) (time : α → Value) (all : List α) :
    Prop :=
  ∃ xs, (storage.perform q).run w = (.ok xs, w) ∧ xs.Perm all ∧ OldestFirst (xs.map time)

/-- All rules, the vulnerabilities of a rule, and those of a property, up to an instant or not, are
listed with the oldest first. -/
structure ListsOldestFirst (w : World Tables) : Prop where
  rules : ListsInOrder w .listRules (·.createdAt) (records w.store).rules.records
  ofRule : ∀ {id key}, view.name .listVulnerabilitiesForRule id = .ok key →
    ListsInOrder w (.listVulnerabilitiesForRule id) (·.detectedAt)
      ((records w.store).vulnerabilities.records.filter fun x => key.any (x.ruleId = .text ·))
  ofProperty : ∀ {p q}, Cell.number p = .ok q →
    ListsInOrder w (.listVulnerabilitiesForProperty p none) (·.detectedAt)
      ((records w.store).vulnerabilities.records.filter (·.propertyId.equal q))
  upTo : ∀ {p q time cutoff}, Cell.number p = .ok q → requireStampValue time = .ok cutoff →
    ListsInOrder w (.listVulnerabilitiesForProperty p (some time)) (·.detectedAt)
      ((records w.store).vulnerabilities.records.filter fun x =>
        x.propertyId.equal q && decide (x.foundAt ≤ cutoff.instant))

variable {w : World Tables}

theorem listsInOrder_rules (h : ReadsRules w.store)
    (ht : ∀ r ∈ (records w.store).rules.records, r.IsTimed) :
    ListsInOrder w .listRules (·.createdAt) (records w.store).rules.records := by
  simp only [records, Shelf.records_relabel] at ht ⊢
  refine ⟨_, run_listRules h, (List.mergeSort_perm _ _).map _, ?_⟩
  rw [List.map_map]
  refine oldestFirst_sortedByTexts fun row hrow => ?_
  obtain ⟨t, hutc, ht⟩ := ht _ (List.mem_map_of_mem hrow)
  exact ⟨t, hutc, Value.text.inj ht⟩

/-- Some of the rows, listed by the time of detection. -/
theorem ListsInOrder.of_rows {q : Request (List Vulnerability)} {part : VulnerabilityRow → Bool}
    {isListed : Vulnerability → Bool}
    (ht : ∀ x ∈ (records w.store).vulnerabilities.records, x.IsTimed)
    (hrun : (storage.perform q).run w =
      (.ok (byDetection (w.store.vulnerabilities.rows.records.filter part)), w))
    (hpart : ∀ row, part row = isListed row.toVulnerability) :
    ListsInOrder w q (·.detectedAt) ((records w.store).vulnerabilities.records.filter isListed) := by
  simp only [records, Shelf.records_relabel] at ht ⊢
  refine ⟨_, hrun, (byDetection_perm _).trans (.of_eq ?_), oldestFirst_byDetection fun row hrow =>
    ht _ (List.mem_map_of_mem (List.mem_of_mem_filter hrow))⟩
  rw [List.filter_map]
  exact congrArg _ (List.filter_congr fun row _ => hpart row)

theorem ListsInOrder.upTo {p q time : Value} {cutoff : Time.Stamp}
    (h : w.store.vulnerabilities.state = .whole)
    (ht : ∀ x ∈ (records w.store).vulnerabilities.records, x.IsTimed) (hp : Cell.number p = .ok q)
    (hlists : ListsInOrder w (.listVulnerabilitiesForProperty p none) (·.detectedAt)
      ((records w.store).vulnerabilities.records.filter (·.propertyId.equal q)))
    (htime : requireStampValue time = .ok cutoff) :
    ListsInOrder w (.listVulnerabilitiesForProperty p (some time)) (·.detectedAt)
      ((records w.store).vulnerabilities.records.filter fun x =>
        x.propertyId.equal q && decide (x.foundAt ≤ cutoff.instant)) := by
  obtain ⟨xs, hrun, hperm, hsorted⟩ := hlists
  cases (run_listForProperty h hp).symm.trans hrun
  have hst : PropertyRisk.Stamped (byDetection
      (w.store.vulnerabilities.rows.records.filter (·.propertyId.equal q))) :=
    stamped_of_timed fun x hx => ht x (List.mem_of_mem_filter (hperm.mem_iff.mp hx))
  refine ⟨_, run_listUpTo h hp htime hst, ?_, hsorted.sublist (List.filter_sublist.map _)⟩
  rw [← List.filter_filter, List.filter_comm]
  exact hperm.filter _

end Tables

namespace Backing

/-- Texts of timestamps in UTC compare as their instants do, so whatever calls were made in UTC, a
store in tables lists the oldest first. -/
theorem lists_oldest_first :
    (∀ x y : Time.Stamp, x.offset = .utc → y.offset = .utc →
      compare x.text y.text = compare x.instant y.instant) ∧
    ∀ w : World Tables, tables.Visited (fun w _ _ => w.clock.offset = .utc) w →
      Tables.ListsOldestFirst w := by
  refine ⟨fun x y hx hy => Time.Stamp.compare_text hx hy, fun w h => ?_⟩
  have hclocked := h.clocked
  have hrules := h.rulesTimed
  have hwhole : w.store.vulnerabilities.state = .whole := hclocked.there
  have hproperty {p q : Value} (hp : Cell.number p = .ok q) :
      Tables.ListsInOrder w (.listVulnerabilitiesForProperty p none) (·.detectedAt)
        ((Tables.records w.store).vulnerabilities.records.filter (·.propertyId.equal q)) :=
    .of_rows hclocked.timed (Tables.run_listForProperty hwhole hp) fun _ => rfl
  constructor
  · exact Tables.listsInOrder_rules hrules.punctual.inOrder.reads hrules.timed
  · intro id key hkey
    refine .of_rows hclocked.timed (Tables.run_listForRule hwhole hkey) fun row => ?_
    cases key <;> simp [VulnerabilityRow.toVulnerability, eq_comm]
  · exact hproperty
  · exact fun hp htime => (hproperty hp).upTo hwhole hclocked.timed hp htime

/-! ## Rules made while the clock goes back -/

def vigilance (name : String) : Call :=
  .createRule
    { name := .text name, description := .text "A leak that has burst."
      tree := .object [("join_operator", .text "AND"), ("conditions", .list
        [.object [("observation_type_id", .text "a"),
          ("observation_value_ids", .list [.text "aa"])]])]
      effectiveFrom := .text "2024-01-01" }

/-- Two rules, the later of which is the earlier one by the clock, and a discovery for it. -/
def watchful : World Tables :=
  tables.after {} [] discovery
    (tables.after {} [] (vigilance "Second")
      { tables.after {} [] (vigilance "First") { leaky with clock := halfPast } with
        clock := midday })

theorem watchful_oldest_first :
    compare midday.text halfPast.text = compare midday.instant halfPast.instant ∧
      Tables.ListsOldestFirst watchful := by
  refine ⟨lists_oldest_first.1 midday halfPast rfl rfl, lists_oldest_first.2 watchful ?_⟩
  exact .call _ _ (by decide +kernel) <| .call _ _ rfl <| .tick _ <| .call _ _ rfl <| .tick _ <|
    .call _ _ (by decide +kernel) <| .call _ _ rfl <|
      .empty _ 0 letters letters_injective isWhole_letters

/-- The one with a fraction was made later by the clock, and stored first. -/
example : (Tables.records watchful.store).rules.records.map (fun r => (r.name, r.createdAt)) =
    [(.text "First", .text "2024-01-01T12:00:00.500000+00:00"),
      (.text "Second", .text "2024-01-01T12:00:00+00:00")] := by decide +kernel

end Backing

end PropertyRisk
