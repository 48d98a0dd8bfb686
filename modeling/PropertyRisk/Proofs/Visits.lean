import PropertyRisk.Proofs.Asking
import PropertyRisk.Proofs.Effects

/-!
# States that calls lead to while requests fail

`Backing.Visited` has the states that calls lead to from an empty store, whatever
befalls their requests. `View.Numbered` is what stays true in all of them: every
vulnerability is kept under an id that was issued, at one of the steps of the
workflow. `Backing.keeps_call` lifts what single requests keep to calls.
-/

namespace PropertyRisk

open Op (Triple Keeps)
open Engine

/-- A request after which every vulnerability is still at a step of the workflow. -/
structure Request.IsProper (r : Request α) : Prop where
  opening : ∀ d, r.opens? = some d → d.IsOpening
  workflow : r.IsWorkflow
  named : ∀ id change x, r.changes? = some (id, change) → change.status = some x →
    ∃ st : Status, x = .text st.name

/-- A request that leaves the statuses of what is stored as they are. -/
structure Request.IsStill (r : Request α) : Prop where
  opening : ∀ d, r.opens? = some d → d.IsOpening
  workflow : r.IsWorkflow
  still : ∀ id change, r.changes? = some (id, change) → change.status = none

theorem Request.IsStill.proper {r : Request α} (h : r.IsStill) : r.IsProper where
  opening := h.opening
  workflow := h.workflow
  named id change _ hc hx := nomatch (h.still id change hc).symm.trans hx

/-- Whether a call sets a status by hand. -/
def Engine.Call.isStatusMove : Call → Bool
  | updateStatus .. | applyMitigation .. => true
  | _ => false

namespace Engine.Call.Asks

variable {c : Call} {r : Request α}

theorem opening (h : c.Asks r) {d : VulnerabilityDraft} (hd : r.opens? = some d) :
    c.isOpening ∧ d.IsOpening := by
  cases r <;> cases hd
  exact h

theorem changing (h : c.Asks r) {id : Value} {change : VulnerabilityChange}
    (hc : r.changes? = some (id, change)) : c.Moves id change ∧ change.IsWorkflow := by
  cases r <;> cases hc
  exact h

theorem proper (h : c.Asks r) : r.IsProper where
  opening d hd := (h.opening hd).2
  workflow id change hc := (h.changing hc).2
  named id change x hc hx := by
    obtain ⟨hm, -⟩ := h.changing hc
    cases c <;> try exact hm.elim
    case assignMitigationType => exact nomatch hm.2.symm.trans hx
    case applyMitigation => exact ⟨_, Option.some.inj (hx.symm.trans hm.2)⟩
    case updateStatus =>
      obtain ⟨-, st, -, hst⟩ := hm
      exact ⟨st, Option.some.inj (hx.symm.trans hst)⟩

theorem still (h : c.Asks r) (hc : c.isStatusMove = false) : r.IsStill where
  opening d hd := (h.opening hd).2
  workflow id change hr := (h.changing hr).2
  still id change hr := by
    obtain ⟨hm, -⟩ := h.changing hr
    cases c <;> first
      | exact hm.elim
      | exact Bool.noConfusion hc
      | exact hm.2

end Engine.Call.Asks

namespace View

variable {S : Type} {v : View S} {tag spot : Value → Value} {w w' : World S}

/-- Every vulnerability is kept under an id that was issued, at a step of the
workflow. -/
structure Numbered (v : View S) (w : World S) : Prop where
  injective : Function.Injective w.idOf
  plain : ∀ n, v.Plain (w.idOf n)
  shelved : v.Shelved Vulnerability.id (v.records w.store).vulnerabilities
  issued : ∀ x ∈ (v.records w.store).vulnerabilities.records,
    ∃ n ≤ w.issued, x.id = .text (w.idOf n)
  named : ∀ x ∈ (v.records w.store).vulnerabilities.records,
    ∃ st : Status, x.status = .text st.name

namespace Numbered

variable {x : Vulnerability} {s : String}

theorem empty (hm : (v.records w.store).vulnerabilities = []) (hinj : Function.Injective w.idOf)
    (hplain : ∀ n, v.Plain (w.idOf n)) : v.Numbered w where
  injective := hinj
  plain := hplain
  shelved := hm ▸ .nil
  issued := hm ▸ nofun
  named := hm ▸ nofun

theorem tick (h : v.Numbered w) (clock : Time.Stamp) : v.Numbered { w with clock } :=
  ⟨h.injective, h.plain, h.shelved, h.issued, h.named⟩

/-- Where something is kept, its id is one that was issued. -/
theorem key (h : v.Numbered w) (hx : (v.records w.store).vulnerabilities.get? (.text s) = some x) :
    ∃ n ≤ w.issued, s = w.idOf n := by
  obtain ⟨n, hn, hid⟩ := h.issued x (Shelf.mem_records_of_get? hx)
  exact ⟨n, hn, Value.text.inj ((h.shelved.id_of_get? hx).2.symm.trans hid)⟩

/-- The next id is not in use. -/
theorem next_unused (h : v.Numbered w) :
    (v.records w.store).vulnerabilities.get? (.text (w.idOf (w.issued + 1))) = none := by
  cases hx : (v.records w.store).vulnerabilities.get? (.text (w.idOf (w.issued + 1))) with
  | none => rfl
  | some x =>
    obtain ⟨n, hn, he⟩ := h.key hx
    have := h.injective he
    omega

/-- What is new must be kept in the same way. -/
theorem follow (h : v.Numbered w) (hf : w.Follows w')
    (hshelved : v.Shelved Vulnerability.id (v.records w'.store).vulnerabilities)
    (hnew : ∀ y ∈ (v.records w'.store).vulnerabilities.records,
      y ∈ (v.records w.store).vulnerabilities.records ∨
        (∃ n ≤ w'.issued, y.id = .text (w.idOf n)) ∧ ∃ st : Status, y.status = .text st.name) :
    v.Numbered w' where
  injective := hf.idOf ▸ h.injective
  plain := hf.idOf ▸ h.plain
  shelved := hshelved
  issued y hy := by
    rw [hf.idOf]
    rcases hnew y hy with hy | ⟨hy, -⟩
    · obtain ⟨n, hn, hid⟩ := h.issued y hy
      exact ⟨n, Nat.le_trans hn hf.issued, hid⟩
    · exact hy
  named y hy := (hnew y hy).elim (h.named y) (·.2)

/-- What one request keeps. -/
theorem step (h : v.Numbered w) (htag : ∀ s, tag (.text s) = .text s) {r : Request α}
    (hr : r.IsProper) (ht : v.Turns tag spot w r w') : v.Numbered w' := by
  obtain ⟨hf, he⟩ := ht
  cases he with
  | same hsame => exact h.follow hf (hsame ▸ h.shelved) fun y hy => .inl (hsame ▸ hy)
  | opened hd hid hx hissued hput =>
    refine h.follow hf (hput ▸ h.shelved.put (h.plain _) hid) fun y hy => ?_
    rcases Shelf.mem_records_put (hput ▸ hy) with rfl | hy
    · refine .inr ⟨⟨_, Nat.le_of_eq hissued.symm, hid⟩, .opened, ?_⟩
      rw [hx.status, (hr.opening _ hd).status, htag]
    · exact .inl hy
  | @changed id change s x y hc hn hget hsame hstatus hput =>
    obtain ⟨hplain, hid⟩ := h.shelved.id_of_get? hget
    have hx := Shelf.mem_records_of_get? hget
    refine h.follow hf (hput ▸ h.shelved.put hplain (hsame.id.trans hid)) fun z hz => ?_
    rcases Shelf.mem_records_put (hput ▸ hz) with rfl | hz
    · obtain ⟨n, hle, hxn⟩ := h.issued x hx
      refine .inr ⟨⟨n, Nat.le_trans hle hf.issued, hsame.id.trans hxn⟩, ?_⟩
      rw [hstatus]
      cases hset : change.status with
      | none => exact h.named x hx
      | some t =>
        obtain ⟨st, rfl⟩ := hr.named id change t hc hset
        exact ⟨st, htag _⟩
    · exact .inl hz
  | deleted herase =>
    exact h.follow hf (herase ▸ h.shelved.erase _) fun y hy =>
      .inl (Shelf.mem_records_of_erase (herase ▸ hy))

end Numbered

end View

namespace Backing

variable {b : Backing} {w : World b.Store}

/-- Whether a value, as the id in a request, stands for a vulnerability. -/
def Names (b : Backing) (id : Value) (x : Vulnerability) : Prop :=
  ∃ s, b.view.name .updateVulnerability id = .ok (some s) ∧ x.id = .text s

/-- Where a call leads to when what befalls its requests is `plan`. -/
def after (b : Backing) (policy : Policy) (plan : List Storage.Mishap) (c : Call)
    (w : World b.Store) : World b.Store :=
  ((c.run policy b.storage.faulty).run (w, plan)).2.1

theorem run_now_faulty (w : World b.Store) (plan : List Storage.Mishap) :
    b.storage.faulty.now.run (w, plan) = (.ok w.clock.text, (w, plan)) := by
  show (Op.within .first b.storage.now).run (w, plan) = _
  rw [Op.run_within_first, ← b.view_storage, b.lawful.now]

/-- The states that calls lead to from an empty store, where `may` says which
calls are made. Their requests may fail, and time may pass between them; the ids
of the supply differ and can be encoded. -/
inductive Visited (b : Backing) (may : World b.Store → Policy → Call → Prop) :
    World b.Store → Prop
  | empty (clock : Time.Stamp) (issued : Nat) (idOf : Nat → String)
      (hinj : Function.Injective idOf) (hwhole : ∀ n, Text.isWhole (idOf n) = true) :
      Visited b may ⟨b.empty, clock, issued, idOf⟩
  | tick {w : World b.Store} (clock : Time.Stamp) :
      Visited b may w → Visited b may { w with clock }
  | call {w : World b.Store} (policy : Policy) (plan : List Storage.Mishap) {c : Call} :
      may w policy c → Visited b may w → Visited b may (b.after policy plan c w)

/-! ## From requests to calls -/

/-- A rule that is answered has an id that is kept as it is. -/
def Gives (b : Backing) : {α : Type} → Request α → α → Prop
  | _, .getRule _, found => ∀ r, found = some r → b.tag r.id = r.id
  | _, _, _ => True

/-- What is agreed with a store on an invariant and on the requests to be made. -/
def contract (b : Backing) (inv : World b.Store → Prop) (may : {α : Type} → Request α → Prop) :
    Contract (World b.Store) :=
  { inv, may, gives := b.Gives }

variable {inv : World b.Store → Prop} {may : {α : Type} → Request α → Prop}

/-- Each request keeps the invariant and is answered as agreed; of errors nothing is agreed. -/
theorem meets_of_triple {gives : {α : Type} → Request α → α → Prop}
    (h : ∀ {α} {r : Request α} {w}, may r → inv w →
      Triple (b.storage.perform r) w (fun a u => gives r a ∧ inv u) fun _ => inv) :
    b.storage.Meets { inv, may, gives } where
  now w := ⟨w.clock, b.view_storage ▸ b.lawful.now⟩
  perform hr hw := (h hr hw).mono (fun _ _ hu => hu) fun _ _ hu => ⟨trivial, hu⟩
  overflow _ := trivial

theorem meets_of_keeps (h : ∀ {α} {r : Request α} {w}, may r → inv w →
    Keeps inv (b.storage.perform r) w) : b.storage.Meets { inv, may } :=
  meets_of_triple fun hr hw => (h hr hw).mono (fun _ _ hu => ⟨trivial, hu⟩) fun _ _ hu => hu

theorem meets (hinv : ∀ w, inv w → b.view.Shelved Vulnerability.id
      (b.view.records w.store).vulnerabilities)
    (hmay : ∀ {α} {r : Request α}, may r → r.IsWorkflow)
    (hstep : ∀ {α} {r : Request α} {w w'}, may r → inv w → b.view.Turns b.tag b.spot w r w' →
      inv w') : b.storage.Meets (b.contract inv may) := by
  refine meets_of_triple fun {α r w} hr h => ?_
  have hturns : Keeps inv (b.storage.perform r) w :=
    Keeps.of_triple (b.keeps_turns (hinv w h) (hmay hr)) (fun _ _ => hstep hr h)
      fun _ _ => hstep hr h
  cases r <;> try exact hturns.mono (fun _ _ ht => ⟨trivial, ht⟩) fun _ _ ht => ht
  case getRule id =>
    refine (b.triple_getRule id).mono ?_ ?_
    · rintro found w' ⟨rfl, hfound⟩
      exact ⟨hfound, h⟩
    · rintro e w' rfl
      exact h

/-- What single requests keep, a call keeps. -/
theorem keeps_call (hg : b.storage.Meets (b.contract inv may)) {c : Call}
    (hasks : ∀ {α} {r : Request α}, c.Asks r → may r) (policy : Policy)
    (plan : List Storage.Mishap) (h : inv w) : inv (b.after policy plan c w) :=
  (Call.upheld (hg.faulty fun _ _ => trivial) (fun _ _ => trivial) hasks policy (s := (w, plan))
    h).keeps.state

theorem meets_numbered : b.storage.Meets (b.contract b.view.Numbered Request.IsProper) :=
  meets (fun _ h => h.shelved) (fun hr => hr.workflow) fun hr h ht => h.step b.tag_text hr ht

theorem Visited.numbered {may : World b.Store → Policy → Call → Prop} (h : b.Visited may w) :
    b.view.Numbered w := by
  induction h with
  | empty clock issued idOf hinj hwhole =>
    exact .empty (congrArg Memory.vulnerabilities b.records_empty) hinj
      fun n => b.plain_of_isWhole (hwhole n)
  | tick clock _ ih => exact ih.tick clock
  | call policy plan _ _ ih => exact keeps_call meets_numbered (fun hr => hr.proper) policy plan ih

end Backing

end PropertyRisk
