import PropertyRisk.Proofs.MemoryLaws
import PropertyRisk.Proofs.TableLaws

/-!
# The two stores, and what stays true of them

A `Backing` is one of the two stores. The records of a store that can be worked
with stay so when one is put under its own id or taken away, and the supply of
ids stays unused as long as new records are put under ids from it.
-/

namespace PropertyRisk

inductive Backing
  | memory
  | tables
deriving DecidableEq, Repr

namespace Backing

def Store : Backing → Type
  | memory => Memory
  | tables => Tables

def view : (b : Backing) → View b.Store
  | memory => Memory.view
  | tables => Tables.view

def storage : (b : Backing) → Storage (World b.Store)
  | memory => Memory.storage
  | tables => Tables.storage

/-- The vulnerabilities that a store keeps. -/
def vulnerabilities : (b : Backing) → b.Store → List Vulnerability
  | memory => fun m : Memory => m.vulnerabilities.records
  | tables => fun t : Tables =>
    t.vulnerabilities.rows.records.map VulnerabilityRow.toVulnerability

/-- What a store keeps of a text that refers to something. -/
def tag : Backing → Value → Value
  | memory => fun x => x
  | tables => Tables.tag

/-- What a store keeps of a property's number. -/
def spot : Backing → Value → Value
  | memory => fun x => x
  | tables => Tables.spot

theorem tag_text : ∀ (b : Backing) (s : String), b.tag (.text s) = .text s
  | memory, _ => rfl
  | tables, s => Tables.tag_text s

theorem tag_null : ∀ b : Backing, b.tag .null = .null
  | memory => rfl
  | tables => rfl

/-- A store without records. -/
def empty : (b : Backing) → b.Store
  | memory => ({} : Memory)
  | tables => ({} : Tables)

theorem lawful : ∀ b : Backing, b.view.Lawful
  | memory => Memory.lawful
  | tables => Tables.lawful

theorem view_storage : ∀ b : Backing, b.view.storage = b.storage
  | memory => rfl
  | tables => rfl

theorem records_vulnerabilities : ∀ (b : Backing) (s : b.Store),
    (b.view.records s).vulnerabilities.records = b.vulnerabilities s
  | memory, _ => rfl
  | tables, _ => Shelf.records_relabel ..

theorem plain_of_isWhole : ∀ (b : Backing) {s : String}, Text.isWhole s = true → b.view.Plain s
  | memory, _, _ => trivial
  | tables, _, h => h

theorem records_empty : ∀ b : Backing, b.view.records b.empty = {}
  | memory => rfl
  | tables => rfl

theorem whole_empty : ∀ b : Backing, b.view.Whole b.empty
  | memory => trivial
  | tables => ⟨⟨rfl, nofun⟩, rfl, rfl, rfl, rfl, rfl, rfl, nofun⟩

end Backing

namespace View

variable {S : Type} {v : View S} {w w' : World S} {m : Memory} {s : String}

/-! ## Shelves -/

namespace Shelved

variable {idOf : α → Value} {shelf : Shelf Key α} {a b : α}

theorem nil : v.Shelved idOf ([] : Shelf Key α) := ⟨Shelf.distinct_nil, nofun⟩

theorem put (h : v.Shelved idOf shelf) (hs : v.Plain s) (ha : idOf a = .text s) :
    v.Shelved idOf (shelf.put (.text s) a) where
  distinct := Shelf.distinct_put h.distinct
  own := by
    rintro ⟨k, b⟩ hp
    rcases (Shelf.mem_put_iff h.distinct).mp hp with ⟨rfl, rfl⟩ | ⟨-, hp⟩
    · exact ⟨s, hs, rfl, ha⟩
    · exact h.own _ hp

theorem erase (h : v.Shelved idOf shelf) (key : Key) : v.Shelved idOf (shelf.erase key) where
  distinct := Shelf.distinct_erase h.distinct
  own := by
    rintro ⟨k, b⟩ hp
    exact h.own _ (Shelf.mem_erase_iff.mp hp).2

theorem drop (h : v.Shelved idOf shelf) (operation : Operation) (id : Value) :
    v.Shelved idOf (v.drop operation id shelf) := by
  unfold View.drop
  split
  · exact h.erase _
  · exact h

theorem id_of_get? (h : v.Shelved idOf shelf) (ha : shelf.get? (.text s) = some a) :
    v.Plain s ∧ idOf a = .text s := by
  obtain ⟨t, ht, hk, hid⟩ := h.own _ (Shelf.mem_of_get? ha)
  cases hk
  exact ⟨ht, hid⟩

/-- A record is found under its id. -/
theorem get?_of_mem (h : v.Shelved idOf shelf) (ha : a ∈ shelf.records) :
    ∃ s, v.Plain s ∧ idOf a = .text s ∧ shelf.get? (.text s) = some a := by
  obtain ⟨k, hk⟩ := Shelf.mem_records.mp ha
  obtain ⟨s, hs, rfl, hid⟩ := h.own _ hk
  exact ⟨s, hs, hid, (Shelf.get?_eq_some_iff h.distinct).mpr hk⟩

theorem eq_of_id (h : v.Shelved idOf shelf) (ha : a ∈ shelf.records) (hb : b ∈ shelf.records)
    (hid : idOf a = idOf b) : a = b := by
  obtain ⟨s, -, hsa, hga⟩ := h.get?_of_mem ha
  obtain ⟨t, -, htb, hgb⟩ := h.get?_of_mem hb
  have hst : s = t := Value.text.inj (hsa.symm.trans (hid.trans htb))
  subst hst
  exact Option.some.inj (hga.symm.trans hgb)

/-- No id comes twice, since each is that of a key. -/
theorem nodup_ids (h : v.Shelved idOf shelf) : (shelf.records.map idOf).Nodup := by
  rw [Shelf.records, List.map_map]
  refine List.Nodup.map_on (fun p hp q hq he => ?_) (List.Nodup.of_map _ h.distinct)
  obtain ⟨i, -, hip, hi⟩ := h.own p hp
  obtain ⟨j, -, hjq, hj⟩ := h.own q hq
  have hij : i = j := Value.text.inj (hi.symm.trans (he.trans hj))
  exact Prod.ext (hip.trans (hij ▸ hjq.symm))
    (h.eq_of_id (Shelf.mem_records.mpr ⟨p.1, hp⟩) (Shelf.mem_records.mpr ⟨q.1, hq⟩) he)

theorem nodup_records (h : v.Shelved idOf shelf) : shelf.records.Nodup :=
  List.Nodup.of_map _ h.nodup_ids

end Shelved

theorem mem_of_mem_drop {operation : Operation} {id : Value} {shelf : Shelf Key α} {p : Key × α}
    (h : p ∈ v.drop operation id shelf) : p ∈ shelf := by
  unfold View.drop at h
  split at h
  · exact (Shelf.mem_erase_iff.mp h).2
  · exact h

theorem mem_records_of_drop {operation : Operation} {id : Value} {shelf : Shelf Key α} {a : α}
    (h : a ∈ (v.drop operation id shelf).records) : a ∈ shelf.records := by
  obtain ⟨k, hk⟩ := Shelf.mem_records.mp h
  exact Shelf.mem_records.mpr ⟨k, mem_of_mem_drop hk⟩

/-! ## Records -/

namespace Kept

theorem empty : v.Kept {} := ⟨.nil, .nil, .nil, nofun, nofun⟩

theorem put_rule (h : v.Kept m) (hs : v.Plain s) {r : Rule} (hr : r.id = .text s) :
    v.Kept { m with rules := m.rules.put (.text s) r } :=
  { h with rules := h.rules.put hs hr }

theorem drop_rule (h : v.Kept m) (operation : Operation) (id : Value) :
    v.Kept { m with rules := v.drop operation id m.rules } :=
  { h with rules := h.rules.drop operation id }

theorem put_vulnerability (h : v.Kept m) (hs : v.Plain s) {x : Vulnerability}
    (hid : x.id = .text s) (hx : v.Finding x) :
    v.Kept { m with vulnerabilities := m.vulnerabilities.put (.text s) x } where
  rules := h.rules
  vulnerabilities := h.vulnerabilities.put hs hid
  assessments := h.assessments
  findings y hy := (Shelf.mem_records_put hy).elim (fun he => he ▸ hx) (h.findings y)
  settled := h.settled

theorem drop_vulnerability (h : v.Kept m) (operation : Operation) (id : Value) :
    v.Kept { m with vulnerabilities := v.drop operation id m.vulnerabilities } where
  rules := h.rules
  vulnerabilities := h.vulnerabilities.drop operation id
  assessments := h.assessments
  findings y hy := h.findings y (mem_records_of_drop hy)
  settled := h.settled

theorem put_assessment (h : v.Kept m) (hs : v.Plain s) {a : Assessment} (hid : a.id = .text s)
    (ha : v.Settled a.propertyId) :
    v.Kept { m with assessments := m.assessments.put (.text s) a } where
  rules := h.rules
  vulnerabilities := h.vulnerabilities
  assessments := h.assessments.put hs hid
  findings := h.findings
  settled y hy := (Shelf.mem_records_put hy).elim (fun he => he ▸ ha) (h.settled y)

theorem congr {n : Memory} (h : v.Kept m) (hr : n.rules = m.rules)
    (hv : n.vulnerabilities = m.vulnerabilities) (ha : n.assessments = m.assessments) :
    v.Kept n where
  rules := hr ▸ h.rules
  vulnerabilities := hv ▸ h.vulnerabilities
  assessments := ha ▸ h.assessments
  findings := hv ▸ h.findings
  settled := ha ▸ h.settled

end Kept

/-- Another state of a vulnerability is found by the same references. -/
theorem Finding.same {x y : Vulnerability} (h : v.Finding x) (hs : x.Same y) : v.Finding y where
  ruleId := hs.ruleId ▸ h.ruleId
  assessmentId := hs.assessmentId ▸ h.assessmentId
  status := hs.status h.status

/-! ## Worlds -/

namespace Becomes

theorem refl (h : v.Whole w.store) : v.Becomes w (v.records w.store) w :=
  ⟨h, rfl, rfl, rfl, Nat.le_refl _⟩

theorem trans {n : Memory} {u : World S} (h : v.Becomes w m w') (k : v.Becomes w' n u) :
    v.Becomes w n u :=
  ⟨k.whole, k.records, k.clock.trans h.clock, k.idOf.trans h.idOf, Nat.le_trans h.issued k.issued⟩

theorem ready (h : v.Becomes w m w') (hm : v.Kept m) : v.Ready w' :=
  ⟨h.whole, h.records ▸ hm⟩

/-- The supply stays unused if what is in use was so before or has been issued. -/
theorem supplied (h : v.Becomes w m w') (hw : v.Supplied w)
    (hm : ∀ s, m.Uses s → (v.records w.store).Uses s ∨ ∃ n ≤ w'.issued, s = w.idOf n) :
    v.Supplied w' where
  injective := h.idOf ▸ hw.injective
  plain := h.idOf ▸ hw.plain
  unused n hn hu := by
    rw [h.records, h.idOf] at hu
    rcases hm _ hu with hu | ⟨k, hk, he⟩
    · exact hw.unused n (Nat.lt_of_le_of_lt h.issued hn) hu
    · have := hw.injective he
      omega

end Becomes

/-- A list that is taken from what is stored has each record once. -/
theorem Ready.nodup_listed (h : v.Ready w) {xs : List Vulnerability} {p : Vulnerability → Bool}
    (hperm : xs.Perm ((v.records w.store).vulnerabilities.records.filter p)) : xs.Nodup :=
  hperm.nodup_iff.mpr (h.kept.vulnerabilities.nodup_records.filter _)

/-- What a rule has found is on the list of it. -/
theorem mem_listed {xs : List Vulnerability} {id : Value}
    (hperm : xs.Perm (m.vulnerabilities.records.filter (·.ruleId = id))) (x : Vulnerability) :
    x ∈ xs ↔ x ∈ m.vulnerabilities.records ∧ x.ruleId = id := by
  simp [hperm.mem_iff]

theorem Ready.kept_get? (h : v.Ready w) {a : Assessment}
    (ha : (v.records w.store).assessments.get? (.text s) = some a) : v.Settled a.propertyId :=
  h.kept.settled a (Shelf.mem_records_of_get? ha)

/-- A world that can be worked in: its store is ready, its ids are fresh, and the
times of its vulnerabilities can be read. -/
structure Steady (v : View S) (w : World S) : Prop where
  ready : v.Ready w
  supplied : v.Supplied w
  stamped : (v.records w.store).Stamped

theorem Steady.put_rule (h : v.Steady w) {r : Rule} (hs : v.Plain s) (hr : r.id = .text s)
    (hu : (v.records w.store).Uses s ∨ ∃ n ≤ w'.issued, s = w.idOf n)
    (hb : v.Becomes w { v.records w.store with
      rules := (v.records w.store).rules.put (.text s) r } w') : v.Steady w' where
  ready := hb.ready (h.ready.kept.put_rule hs hr)
  supplied := hb.supplied h.supplied fun t hm => by
    rcases hm with hm | hm
    · rcases Shelf.mem_keys_put.mp hm with hk | hm
      · cases hk
        exact hu
      · exact .inl (.inl hm)
    · exact .inl (.inr hm)
  stamped := hb.records ▸ h.stamped

theorem Steady.put_assessment (h : v.Steady w) {a : Assessment}
    (hid : a.id = .text (w.idOf (w.issued + 1))) (ha : v.Settled a.propertyId)
    (hissued : w'.issued = w.issued + 1)
    (hb : v.Becomes w { v.records w.store with
      assessments := (v.records w.store).assessments.put (.text (w.idOf (w.issued + 1))) a } w') :
    v.Steady w' where
  ready := hb.ready (h.ready.kept.put_assessment (h.supplied.plain _) hid ha)
  supplied := hb.supplied h.supplied fun s hm => by
    rcases hm with hm | hm | hm | hm
    · exact .inl (.inl hm)
    · exact .inl (.inr (.inl hm))
    · rcases Shelf.mem_keys_put.mp hm with hk | hm
      · exact .inr ⟨_, Nat.le_of_eq hissued.symm, Key.text.inj hk⟩
      · exact .inl (.inr (.inr (.inl hm)))
    · exact .inl (.inr (.inr (.inr hm)))
  stamped := hb.records ▸ h.stamped

/-- A new assessment does not take the place of another one. -/
theorem Supplied.get?_put_assessment (h : v.Supplied w) {a c : Assessment}
    (hc : (v.records w.store).assessments.get? (.text s) = some c) :
    ((v.records w.store).assessments.put (.text (w.idOf (w.issued + 1))) a).get? (.text s) =
      some c := by
  have hne : Key.text s ≠ Key.text (w.idOf (w.issued + 1)) := by
    intro he
    cases he
    exact h.unused _ (Nat.lt_succ_self _) (.inr (.inr (.inl (Shelf.mem_keys_of_get? hc))))
  rw [Shelf.get?_put, if_neg hne, hc]

theorem Steady.put_opened (h : v.Steady w) {ruleId i : String} {p : Value} (hrule : v.Plain ruleId)
    (hi : v.Plain i) (hused : (v.records w.store).Uses ruleId) (hissued : w'.issued = w.issued + 1)
    (hb : v.Becomes w { v.records w.store with
      vulnerabilities := (v.records w.store).vulnerabilities.put (.text (w.idOf (w.issued + 1)))
        (.opened (w.idOf (w.issued + 1)) ruleId i p w.clock.text) } w') :
    v.Steady w' := by
  have hfound : v.Finding (.opened (w.idOf (w.issued + 1)) ruleId i p w.clock.text) :=
    ⟨⟨ruleId, hrule, rfl⟩, ⟨i, hi, rfl⟩, ⟨_, rfl⟩⟩
  refine ⟨hb.ready (h.ready.kept.put_vulnerability (h.supplied.plain _) rfl hfound), ?_, ?_⟩
  · refine hb.supplied h.supplied fun s hm => ?_
    rcases hm with hm | hm | hm | ⟨x, hx, hm⟩
    · exact .inl (.inl hm)
    · rcases Shelf.mem_keys_put.mp hm with hk | hm
      · exact .inr ⟨_, Nat.le_of_eq hissued.symm, Key.text.inj hk⟩
      · exact .inl (.inr (.inl hm))
    · exact .inl (.inr (.inr (.inl hm)))
    · rcases Shelf.mem_records_put hx with rfl | hx
      · cases hm
        exact .inl hused
      · exact .inl (.inr (.inr (.inr ⟨x, hx, hm⟩)))
  · rw [hb.records]
    intro x hx
    rcases Shelf.mem_records_put hx with rfl | hx
    · exact ⟨w.clock, requireStampValue_text _⟩
    · exact h.stamped x hx

/-! ## Asking by a key -/

section

variable (law : v.Lawful)
include law

/-- What is found under a text is kept under that key. -/
theorem Shelved.get?_of_look {idOf : α → Value} {shelf : Shelf Key α} {a : α} {operation : Operation}
    (h : v.Shelved idOf shelf) (ha : v.look operation (.text s) shelf = .ok (some a)) :
    v.Plain s ∧ shelf.get? (.text s) = some a := by
  obtain ⟨t, hn, hget⟩ := look_eq_some.mp ha
  cases law.text_of_name hn
  exact ⟨(h.id_of_get? hget).1, hget⟩

theorem get?_of_getRule (h : v.Ready w) {r : Rule}
    (hr : (v.storage.perform (.getRule (.text s))).run w = (.ok (some r), w)) :
    v.Plain s ∧ (v.records w.store).rules.get? (.text s) = some r :=
  h.kept.rules.get?_of_look law (congrArg Prod.fst ((law.getRule (.text s) h).symm.trans hr))

theorem get?_of_getAssessment (h : v.Ready w) {a : Assessment}
    (ha : (v.storage.perform (.getAssessment (.text s))).run w = (.ok (some a), w)) :
    v.Plain s ∧ (v.records w.store).assessments.get? (.text s) = some a :=
  h.kept.assessments.get?_of_look law
    (congrArg Prod.fst ((law.getAssessment (.text s) h).symm.trans ha))

/-- Asked for by its key, a rule is what the shelf has there. -/
theorem run_getRule_text (h : v.Ready w) (hs : v.Plain s) :
    (v.storage.perform (.getRule (.text s))).run w =
      (.ok ((v.records w.store).rules.get? (.text s)), w) := by
  rw [law.getRule _ h, look_of_name (law.name_text hs)]

theorem run_getAssessment_text (h : v.Ready w) (hs : v.Plain s) :
    (v.storage.perform (.getAssessment (.text s))).run w =
      (.ok ((v.records w.store).assessments.get? (.text s)), w) := by
  rw [law.getAssessment _ h, look_of_name (law.name_text hs)]

end

end View

namespace Backing

/-! ## A small store -/

/-- A rule that asks for water. -/
def waterRule (id : String) : Rule where
  id := .text id
  name := .text "Water"
  description := .text "Water comes in."
  tree := ⟨.and, [.leaf { typeId := "water", value := .text "yes" }]⟩
  effectiveFrom := .text "2024-01-01T00:00:00+00:00"
  effectiveTo := .null
  isActive := .bool true
  version := 1
  createdAt := .text "2024-01-01T00:00:00+00:00"
  updatedAt := "2024-01-01T00:00:00+00:00"

/-- Of two rules that ask for water, one has found two vulnerabilities. -/
def leaks : World Memory where
  store :=
    { rules := [(.text "leak", waterRule "leak"), (.text "flood", waterRule "flood")]
      vulnerabilities :=
        [(.text "v", .opened "v" "leak" "a" (.int 7) "2024-01-01T00:00:00+00:00"),
          (.text "w", .opened "w" "leak" "a" (.int 7) "2024-01-01T00:00:00+00:00")]
      assessments :=
        [(.text "a", ⟨.text "a", .int 7, [{ typeId := "water", value := .text "yes" }],
          .text "2024-01-01T00:00:00+00:00"⟩)]
      observationTypes :=
        [(.text "water", ⟨.text "water", .text "Water", .text "ENUM", .null, .bool false⟩)] }
  clock := ⟨⟨2024, 1, 2, by decide⟩, .midnight, .utc⟩
  issued := 0
  idOf n := String.ofList (List.replicate n 'x')

theorem mem_leaks {x : Vulnerability} : x ∈ memory.vulnerabilities leaks.store ↔
    x = .opened "v" "leak" "a" (.int 7) "2024-01-01T00:00:00+00:00" ∨
      x = .opened "w" "leak" "a" (.int 7) "2024-01-01T00:00:00+00:00" := by
  simp [vulnerabilities, leaks, Shelf.records]

theorem stamped_leaks : Stamped (memory.vulnerabilities leaks.store) := by
  intro x hx
  refine ⟨⟨⟨2024, 1, 1, by decide⟩, .midnight, .utc⟩, ?_⟩
  rcases mem_leaks.mp hx with rfl | rfl <;> exact by decide +kernel

theorem ready_leaks : memory.view.Ready leaks where
  whole := trivial
  kept.rules := by
    refine ⟨show [Key.text "leak", Key.text "flood"].Nodup by decide, ?_⟩
    simp [view, Memory.view, leaks, waterRule]
  kept.vulnerabilities := by
    refine ⟨show [Key.text "v", Key.text "w"].Nodup by decide, ?_⟩
    simp [view, Memory.view, leaks, Vulnerability.opened]
  kept.assessments := ⟨List.nodup_singleton _, by simp [view, Memory.view, leaks]⟩
  kept.findings x hx := by
    rcases mem_leaks.mp hx with rfl | rfl <;>
      exact ⟨⟨_, trivial, rfl⟩, ⟨_, trivial, rfl⟩, ⟨_, rfl⟩⟩
  kept.settled _ _ := trivial

theorem steady_leaks : memory.view.Steady leaks where
  ready := ready_leaks
  supplied.injective m n h := by simpa [leaks] using congrArg String.length h
  supplied.plain _ := trivial
  supplied.unused n _ hu := by
    have hall : (leaks.idOf n).toList.all (· = 'x') = true := by simp [leaks]
    have hused : leaks.idOf n ∈ ["leak", "flood", "v", "w", "a"] := by
      rcases hu with hu | hu | hu | ⟨x, hx, hu⟩
      · have hmem : Key.text (leaks.idOf n) ∈ [Key.text "leak", .text "flood"] := hu
        simp only [List.mem_cons, List.not_mem_nil, or_false, Key.text.injEq] at hmem
        rcases hmem with h | h <;> simp [h]
      · have hmem : Key.text (leaks.idOf n) ∈ [Key.text "v", .text "w"] := hu
        simp only [List.mem_cons, List.not_mem_nil, or_false, Key.text.injEq] at hmem
        rcases hmem with h | h <;> simp [h]
      · have hmem : Key.text (leaks.idOf n) ∈ [Key.text "a"] := hu
        simp only [List.mem_cons, List.not_mem_nil, or_false, Key.text.injEq] at hmem
        simp [hmem]
      · have hrule : x.ruleId = .text "leak" := by
          rcases mem_leaks.mp hx with rfl | rfl <;> rfl
        simp [Value.text.inj (hu.symm.trans hrule)]
    simp only [List.mem_cons, List.not_mem_nil, or_false] at hused
    rcases hused with h | h | h | h | h <;> rw [h] at hall <;> exact absurd hall (by decide)
  stamped := stamped_leaks

end Backing

end PropertyRisk
