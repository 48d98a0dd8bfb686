import PropertyRisk.Proofs.SoundCalls

/-!
# Every vulnerability has its grounds

`Backing.founded_of_reached`: whatever calls were made since the store was
empty, and whatever they ended in, each stored vulnerability names an assessment
of its property that is stored, and its rule is gone or triggers on what was
observed there. The store may be either of the two.
-/

namespace PropertyRisk

open Engine

namespace View.Sound

variable {S : Type} {v : View S} {w : World S} {as : List Assessment}

theorem empty (hwhole : v.Whole w.store) (hm : v.records w.store = {})
    (hinj : Function.Injective w.idOf) (hplain : ∀ n, v.Plain (w.idOf n)) : v.Sound [] w where
  ready := ⟨hwhole, hm ▸ .empty⟩
  supplied := ⟨hinj, hplain, fun n _ hu => by
    rw [hm] at hu
    rcases hu with hu | hu | hu | ⟨x, hx, -⟩ <;> contradiction⟩
  stamped := hm ▸ nofun
  grounds := hm ▸ nofun
  recorded := nofun

/-- Time has no part in it. -/
theorem tick (h : v.Sound as w) (clock : Time.Stamp) : v.Sound as { w with clock } where
  ready := ⟨h.ready.whole, h.ready.kept⟩
  supplied := ⟨h.supplied.injective, h.supplied.plain, h.supplied.unused⟩
  stamped := h.stamped
  grounds := h.grounds
  recorded := h.recorded

end View.Sound

namespace Backing

variable {b : Backing} {as : List Assessment} {w : World b.Store} {x : Vulnerability}

/-- The states that calls lead to from an empty store, with the assessments that
were recorded on the way. A call may end in an error, and time may pass as it
likes between calls; the ids of the supply differ and can be encoded. -/
inductive Reached (b : Backing) : List Assessment → World b.Store → Prop
  | empty (clock : Time.Stamp) (issued : Nat) (idOf : Nat → String)
      (hinj : Function.Injective idOf) (hwhole : ∀ n, Text.isWhole (idOf n) = true) :
      Reached b [] ⟨b.empty, clock, issued, idOf⟩
  | tick {as : List Assessment} {w : World b.Store} (clock : Time.Stamp) :
      Reached b as w → Reached b as { w with clock }
  | call {as : List Assessment} {w : World b.Store} (policy : Policy) {c : Call} :
      c.Permitted as → Reached b as w →
      Reached b (c.recorded as ((c.run policy b.storage).run w).1)
        ((c.run policy b.storage).run w).2

/-- What a vulnerability was found by: an assessment of its property, on which
its rule triggers, unless there is no such rule any more. -/
def Founded (b : Backing) (w : World b.Store) (x : Vulnerability) : Prop :=
  ∃ a, (b.storage.perform (.getAssessment x.assessmentId)).run w = (.ok (some a), w) ∧
    a.propertyId = x.propertyId ∧
    ((b.storage.perform (.getRule x.ruleId)).run w = (.ok none, w) ∨
      ∃ r, (b.storage.perform (.getRule x.ruleId)).run w = (.ok (some r), w) ∧
        r.tree.evaluate a.observations = .ok true)

theorem Reached.sound (h : b.Reached as w) : b.view.Sound as w := by
  induction h with
  | empty clock issued idOf hinj hwhole =>
    exact .empty b.whole_empty b.records_empty hinj fun n => b.plain_of_isWhole (hwhole n)
  | tick clock _ ih => exact ih.tick clock
  | call policy hc _ ih =>
    have hstep := View.sound_call b.lawful ih policy hc
    rw [b.view_storage] at hstep
    exact hstep

/-- In a sound state the store answers what the grounds of a vulnerability say. -/
theorem founded_of_sound (h : b.view.Sound as w) (hx : x ∈ b.vulnerabilities w.store) :
    b.Founded w x := by
  have law := b.lawful
  have hmem : x ∈ (b.view.records w.store).vulnerabilities.records :=
    (b.records_vulnerabilities w.store).symm ▸ hx
  obtain ⟨s, a, hs, ha, hp, hall⟩ := h.grounds x hmem
  obtain ⟨t, ht, hr⟩ := (h.ready.kept.findings x hmem).ruleId
  have hplain := (h.ready.kept.assessments.id_of_get? ha).1
  have hassessment := View.run_getAssessment_text law h.ready hplain
  have hrule := View.run_getRule_text law h.ready ht
  rw [ha, ← hs, b.view_storage] at hassessment
  rw [← hr, b.view_storage] at hrule
  refine ⟨a, hassessment, hp, ?_⟩
  cases hg : (b.view.records w.store).rules.get? (.text t) with
  | none => exact .inl (hg ▸ hrule)
  | some r => exact .inr ⟨r, hg ▸ hrule, hall t r hr hg⟩

theorem founded_of_reached (h : b.Reached as w) (hx : x ∈ b.vulnerabilities w.store) :
    b.Founded w x :=
  founded_of_sound h.sound hx

/-! ## A short run -/

/-- Calls that hand over no record may be made at any time. -/
theorem Reached.runAll (policy : Policy) {calls : List Call}
    (hc : ∀ c ∈ calls, ∀ as, c.Permitted as) (h : b.Reached as w) :
    ∃ as, b.Reached as (Call.runAll policy b.storage calls w).2 := by
  induction calls generalizing as w with
  | nil => exact ⟨as, h⟩
  | cons c rest ih =>
    exact ih (fun d hd => hc d (List.mem_cons_of_mem _ hd)) (h.call policy (hc c List.mem_cons_self as))

/-- Ids that grow by a letter. -/
def letters (n : Nat) : String := String.ofList (List.replicate n 'a')

theorem letters_injective : Function.Injective letters := fun m n h => by
  simpa [letters] using congrArg String.length h

theorem isWhole_letters (n : Nat) : Text.isWhole (letters n) = true := by
  simp [letters, Text.isWhole, List.all_replicate, Text.half?]

/-- A store at the start of a year. -/
def start (b : Backing) : World b.Store :=
  ⟨b.empty, ⟨⟨2024, 1, 1, by decide⟩, .midnight, .utc⟩, 0, letters⟩

/-- A rule on leaks, and an assessment on which it triggers. -/
def leak : List Call :=
  [.createObservationType (.text "leak") (.text "ENUM") .null (.bool false),
    .createRule
      { name := .text "Leak", description := .text "Water comes in."
        tree := .object [("join_operator", .text "AND"), ("conditions", .list
          [.object [("observation_type_id", .text "a"), ("value", .text "yes")]])] },
    .recordAssessment (.int 7)
      (.list [.object [("observation_type_id", .text "a"), ("value", .text "yes")]]) .null,
    .process (.stored (.text "aaa"))]

theorem reached_leak (b : Backing) : ∃ as, b.Reached as (Call.runAll {} b.storage leak b.start).2 :=
  Reached.runAll {} (by simp [leak, Call.Permitted, AssessmentSource.Among])
    (.empty _ 0 letters letters_injective isWhole_letters)

theorem founded_leak : Founded .tables (Call.runAll {} Tables.storage leak (start .tables)).2
    (.opened "aaaa" "aa" "aaa" (.int 7) "2024-01-01T00:00:00+00:00") := by
  obtain ⟨as, h⟩ := reached_leak .tables
  exact founded_of_reached h (by decide +kernel)

end Backing

end PropertyRisk
