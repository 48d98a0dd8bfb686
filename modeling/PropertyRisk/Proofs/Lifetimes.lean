import PropertyRisk.Proofs.RuleWrites
import PropertyRisk.Proofs.Turnover
import PropertyRisk.Proofs.Visits

/-!
# The lifetimes of records

`Backing.Accounted` says that whatever differs between two states is accounted for by the
calls in between: archives have only grown, a rule was changed or removed by a call that names
it, and a vulnerability was opened, changed or deleted by a call that may do so.
`Backing.Traceable.after`: this is so of each call, whatever its arguments and whatever befalls
its requests.
-/

namespace PropertyRisk

open Op (Triple Keeps)
open Engine

/-- Two states of one rule. -/
structure Rule.Lasts (r r' : Rule) : Prop where
  id : r'.id = r.id
  createdAt : r'.createdAt = r.createdAt

/-- Two states of one vulnerability: what it was found by and when is the same. -/
structure Vulnerability.Lasts (x y : Vulnerability) : Prop where
  id : y.id = x.id
  ruleId : y.ruleId = x.ruleId
  assessmentId : y.assessmentId = x.assessmentId
  propertyId : y.propertyId = x.propertyId
  detectedAt : y.detectedAt = x.detectedAt
  createdAt : y.createdAt = x.createdAt

theorem Rule.Lasts.refl (r : Rule) : r.Lasts r := ⟨rfl, rfl⟩

theorem Rule.Lasts.trans {r r' r'' : Rule} (h : r.Lasts r') (h' : r'.Lasts r'') : r.Lasts r'' :=
  ⟨h'.id.trans h.id, h'.createdAt.trans h.createdAt⟩

theorem Vulnerability.Lasts.refl (x : Vulnerability) : x.Lasts x := ⟨rfl, rfl, rfl, rfl, rfl, rfl⟩

theorem Vulnerability.Lasts.symm {x y : Vulnerability} (h : x.Lasts y) : y.Lasts x :=
  ⟨h.id.symm, h.ruleId.symm, h.assessmentId.symm, h.propertyId.symm, h.detectedAt.symm,
    h.createdAt.symm⟩

theorem Vulnerability.Lasts.trans {x y z : Vulnerability} (h : x.Lasts y) (h' : y.Lasts z) :
    x.Lasts z :=
  ⟨h'.id.trans h.id, h'.ruleId.trans h.ruleId, h'.assessmentId.trans h.assessmentId,
    h'.propertyId.trans h.propertyId, h'.detectedAt.trans h.detectedAt,
    h'.createdAt.trans h.createdAt⟩

theorem Engine.Call.isOpening_of_isRejudging {c : Call} (h : c.isRejudging = true) :
    c.isOpening = false := by
  cases c <;> first
    | rfl
    | cases h

namespace Backing

/-! ## What calls may touch -/

/-- Whether a value, as the id in a request, stands for a key. -/
def Points (b : Backing) (id : Value) (k : Key) : Prop :=
  ∃ s, b.view.name .getRule id = .ok (some s) ∧ k = .text s

/-- Whether a call is to change the rule under a key. -/
def Revises (b : Backing) (k : Key) : Call → Prop
  | .updateRule id _ => b.Points id k
  | _ => False

/-- Whether a call is to delete the rule under a key. -/
def Repeals (b : Backing) (k : Key) : Call → Prop
  | .deleteRule id => b.Points id k
  | _ => False

/-- Whether a call is a step of the workflow on the vulnerability under a key. -/
def Handles (b : Backing) (k : Key) : Call → Prop
  | .updateStatus id _ _ | .applyMitigation id _ _ | .assignMitigationType id _ => b.Points id k
  | _ => False

/-- Whether a call that is made in a world may come to delete a vulnerability: one of the rule
that it changes, or of the property that it judges again. In both cases the rule exists. -/
def Discards (b : Backing) (w : World b.Store) (x : Vulnerability) : Call → Prop
  | .updateRule id _ => ∃ s, b.view.name .getRule id = .ok (some s) ∧ x.ruleId = .text s ∧
      b.ruleAt w s ≠ none
  | .reevaluateProperty p => x.propertyId.equal (b.spot p) = true ∧
      ∃ s, x.ruleId = .text s ∧ b.ruleAt w s ≠ none
  | _ => False

/-- Calls that were made, each with the world in which it was. -/
abbrev History (b : Backing) := List (World b.Store × Call)

/-- What may have become of the rules when calls were made. -/
abbrev RulesAccounted (b : Backing) (calls : b.History) (w w' : World b.Store) : Prop :=
  w.Turnover (fun s => (b.view.records s).rules)
    (fun k r r' => r.Lasts r' ∧ (r' = r ∨ ∃ call ∈ calls, b.Revises k call.2))
    (fun k _ => ∃ call ∈ calls, b.Repeals k call.2)
    (∃ call ∈ calls, ∃ input, call.2 = .createRule input) w'

/-- What may have become of the vulnerabilities when calls were made. -/
abbrev VulnerabilitiesAccounted (b : Backing) (calls : b.History) (w w' : World b.Store) : Prop :=
  w.Turnover (fun s => (b.view.records s).vulnerabilities)
    (fun k x y => x.Lasts y ∧ (y = x ∨ ∃ call ∈ calls, b.Handles k call.2))
    (fun _ x => ∃ call ∈ calls, b.Discards call.1 x call.2)
    (∃ call ∈ calls, call.2.isOpening = true) w'

/-- All differences between two states are accounted for by calls. -/
structure Accounted (b : Backing) (calls : b.History) (w w' : World b.Store) : Prop where
  archives : ∀ {α : Type} (A : Archive α), b.Archives A w w'
  rules : b.RulesAccounted calls w w'
  vulnerabilities : b.VulnerabilitiesAccounted calls w w'

/-- A state in which every record is kept under an id that was issued. -/
structure Traceable (b : Backing) (w : World b.Store) : Prop where
  numbered : b.view.Numbered w
  inOrder : b.RulesInOrder w
  rules : w.Issued (b.view.records w.store).rules
  archives : ∀ {α : Type} (A : Archive α), w.Issued (A.shelf (b.view.records w.store))

variable {b : Backing} {w u u' : World b.Store} {calls calls' : b.History} {c : Call}
  {id : Value} {s : String} {k : Key} {x y : Vulnerability}

theorem points_of_name {operation : Operation} (h : b.view.name operation id = .ok (some s)) :
    b.Points id (.text s) :=
  ⟨s, b.lawful.name_congr _ h, rfl⟩

theorem not_handles_of_isRejudging (h : c.isRejudging = true) : ¬b.Handles k c := by
  cases c <;> first
    | exact id
    | cases h

/-- What may be deleted of a vulnerability may be deleted of what it was before. -/
theorem Discards.of_lasts (h : b.Discards w y c) (hxy : x.Lasts y) : b.Discards w x c := by
  cases c with
  | updateRule id patch =>
    obtain ⟨s, hn, hy, hrule⟩ := h
    exact ⟨s, hn, hxy.ruleId.symm.trans hy, hrule⟩
  | reevaluateProperty p =>
    obtain ⟨hp, s, hy, hrule⟩ := h
    exact ⟨hxy.propertyId ▸ hp, s, hxy.ruleId.symm.trans hy, hrule⟩
  | _ => exact h.elim

/-! ## Joining -/

namespace Accounted

theorem refl (calls : b.History) (w : World b.Store) : b.Accounted calls w w where
  archives A := .refl A w
  rules := .of_eq (fun _ r => ⟨.refl r, .inl rfl⟩) (.refl w) rfl
  vulnerabilities := .of_eq (fun _ x => ⟨.refl x, .inl rfl⟩) (.refl w) rfl

theorem mono (h : b.Accounted calls w u) (hsub : calls ⊆ calls') : b.Accounted calls' w u where
  archives := h.archives
  rules := h.rules.mono (fun _ _ _ ⟨hl, hs⟩ => ⟨hl, hs.imp_right fun ⟨p, hp, hk⟩ => ⟨p, hsub hp, hk⟩⟩)
    (fun _ _ ⟨p, hp, hk⟩ => ⟨p, hsub hp, hk⟩) fun ⟨p, hp, hk⟩ => ⟨p, hsub hp, hk⟩
  vulnerabilities := h.vulnerabilities.mono
    (fun _ _ _ ⟨hl, hs⟩ => ⟨hl, hs.imp_right fun ⟨p, hp, hk⟩ => ⟨p, hsub hp, hk⟩⟩)
    (fun _ _ ⟨p, hp, hk⟩ => ⟨p, hsub hp, hk⟩) fun ⟨p, hp, hk⟩ => ⟨p, hsub hp, hk⟩

/-- Time has no part in it. -/
theorem tick (h : b.Accounted calls w u) (clock : Time.Stamp) :
    b.Accounted calls w { u with clock } where
  archives A := ⟨(h.archives A).idOf, (h.archives A).issued, (h.archives A).old, (h.archives A).new⟩
  rules := ⟨h.rules.idOf, h.rules.issued, h.rules.old, h.rules.new⟩
  vulnerabilities := ⟨h.vulnerabilities.idOf, h.vulnerabilities.issued, h.vulnerabilities.old,
    h.vulnerabilities.new⟩

end Accounted

/-- What stays the same or is changed by a call, twice over. -/
theorem same_or_trans {a a' a'' : α} {p : Prop} (h : a' = a ∨ p) (h' : a'' = a' ∨ p) :
    a'' = a ∨ p :=
  h'.elim (fun he => he ▸ h) .inr

namespace Traceable

theorem vulnerabilities (h : b.Traceable w) : w.Issued (b.view.records w.store).vulnerabilities := by
  intro k hk
  obtain ⟨x, hx⟩ := Shelf.exists_get?_of_mem_keys hk
  obtain ⟨s, -, rfl, -⟩ := h.numbered.shelved.own _ (Shelf.mem_of_get? hx)
  obtain ⟨n, hn, rfl⟩ := h.numbered.key hx
  exact ⟨n, hn, rfl⟩

/-- What is accounted for leaves a state traceable, if it leaves it in order. -/
theorem follow (h : b.Traceable w) (ha : b.Accounted calls w u) (hnumbered : b.view.Numbered u)
    (hin : b.RulesInOrder u) : b.Traceable u where
  numbered := hnumbered
  inOrder := hin
  rules := ha.rules.keysIssued h.rules
  archives A := (ha.archives A).keysIssued (h.archives A)

/-- Two stretches, one after the other. -/
theorem accounted_trans (h : b.Traceable w) (ha : b.Accounted calls w u)
    (ha' : b.Accounted calls u u') : b.Accounted calls w u' where
  archives A := (ha.archives A).trans (ha'.archives A) (h.archives A) h.numbered.injective
    (fun _ _ _ _ hab hbc => hbc.trans hab) fun _ _ _ _ hdrop => hdrop
  rules := ha.rules.trans ha'.rules h.rules h.numbered.injective
    (fun _ _ _ _ hab hbc => ⟨hab.1.trans hbc.1, same_or_trans hab.2 hbc.2⟩)
    fun _ _ _ _ hdrop => hdrop
  vulnerabilities := ha.vulnerabilities.trans ha'.vulnerabilities h.vulnerabilities
    h.numbered.injective
    (fun _ _ _ _ hab hbc => ⟨hab.1.trans hbc.1, same_or_trans hab.2 hbc.2⟩)
    fun _ _ _ hab ⟨p, hp, hdrop⟩ => ⟨p, hp, hdrop.of_lasts hab.1⟩

theorem tick (h : b.Traceable w) (clock : Time.Stamp) : b.Traceable { w with clock } :=
  ⟨h.numbered.tick clock, b.rulesInOrder_tick h.inOrder clock, h.rules, h.archives⟩

end Traceable

/-! ## Requests -/

theorem parsed_of_asks {r : Request α} (h : c.Asks r) : b.view.Parsed r := by
  cases r <;> try exact trivial
  case createRule d => exact h.2.tree.elim fun _ hread => b.lawful.tree_of_read hread
  case updateRule id change expected =>
    obtain ⟨tree, hproper, htree⟩ := h.2.proper
    exact hproper.isRead htree

/-- What a request of a call makes of the rules. -/
theorem rulesAccounted_of_effect (h : b.Traceable u) (hc : (w, c) ∈ calls) {r : Request α}
    (hr : c.Asks r) (hf : u.Follows u') (he : b.RuleEffect u u' r) :
    b.RulesAccounted calls u u' := by
  have hlasts (k : Key) (r : Rule) :
      r.Lasts r ∧ (r = r ∨ ∃ call ∈ calls, b.Revises k call.2) := ⟨.refl r, .inl rfl⟩
  cases he with
  | same hsame => exact .of_eq hlasts hf hsame
  | created hd hissued hput =>
    cases r <;> cases hd
    obtain ⟨⟨input, rfl⟩, -⟩ := hr
    exact .of_put_next hlasts hf (h.rules.next_unused h.numbered.injective) ⟨_, hc, input, rfl⟩
      hissued hput
  | changed hchange hs hget hrevised hput =>
    cases r <;> cases hchange
    obtain ⟨⟨patch, rfl⟩, hchecked⟩ := hr
    obtain ⟨tree, hproper, -⟩ := hchecked.proper
    refine .of_put hlasts hf hget ⟨?_, .inr ⟨_, hc, points_of_name hs⟩⟩ hput
    -- a change that has been checked sets neither the id nor the time of creation
    rw [revised_of_proper hproper hrevised]
    exact ⟨by simp [Rule.changed, View.kept, hproper.id],
      by simp [Rule.changed, View.kept, hproper.createdAt]⟩
  | deleted hd hs herase =>
    cases r <;> cases hd
    cases hr
    exact .of_erase hlasts hf (fun _ _ => ⟨_, hc, points_of_name hs⟩) herase

/-- What a request of a call makes of the vulnerabilities. A call deletes only what it may
come to delete. -/
theorem vulnerabilitiesAccounted_of_turns (h : b.view.Numbered u) (hc : (w, c) ∈ calls)
    {r : Request α} (hr : c.Asks r)
    (hcreated : ∀ id change, r.changes? = some (id, change) → change.createdAt = none)
    (hdelete : ∀ id s x, r.deletes? = some id → b.view.name .deleteVulnerability id = .ok (some s) →
      (b.view.records u.store).vulnerabilities.get? (.text s) = some x → b.Discards w x c)
    (ht : b.view.Turns b.tag b.spot u r u') : b.VulnerabilitiesAccounted calls u u' := by
  have hlasts (k : Key) (x : Vulnerability) :
      x.Lasts x ∧ (x = x ∨ ∃ call ∈ calls, b.Handles k call.2) := ⟨.refl x, .inl rfl⟩
  obtain ⟨hf, he⟩ := ht
  cases he with
  | same hsame => exact .of_eq hlasts hf hsame
  | opened hd hid hx hissued hput =>
    exact .of_put_next hlasts hf h.next_unused ⟨_, hc, (hr.opening hd).1⟩ hissued hput
  | @changed id change s x y hchange hn hget hsame hstatus hput hkept =>
    refine .of_put hlasts hf hget ⟨?_, .inr ⟨_, hc, ?_⟩⟩ hput
    · exact ⟨hsame.id, hsame.ruleId, hsame.assessmentId, hsame.propertyId, hsame.detectedAt,
        hkept (hcreated id change hchange)⟩
    · obtain ⟨hmoves, -⟩ := hr.changing hchange
      cases c <;> first
        | exact hmoves.elim
        | exact hmoves.1 ▸ points_of_name hn
  | deleted herase hd hn =>
    exact .of_erase hlasts hf (fun x hx => ⟨_, hc, hdelete _ _ x hd hn hx⟩) herase

/-! ## Calls -/

/-- While a call judges again what was found before, it is answered the vulnerabilities that
were there when it was made, and rules that were. -/
def Recalls (b : Backing) (w : World b.Store) : {α : Type} → Request α → α → Prop
  | _, .getRule id, found => found ≠ none →
      ∃ s, b.view.name .getRule id = .ok (some s) ∧ b.ruleAt w s ≠ none
  | _, .listVulnerabilitiesForRule id, xs => ∀ s, b.view.name .getRule id = .ok (some s) →
      ∀ x ∈ xs, x ∈ b.vulnerabilities w.store ∧ x.ruleId = .text s
  | _, .listVulnerabilitiesForProperty p none, xs =>
      ∀ x ∈ xs, x ∈ b.vulnerabilities w.store ∧ x.propertyId.equal (b.spot p) = true
  | _, _, _ => True

/-- A request that a call may make in a world: it leaves ids to the store, dates nothing back
and deletes only a vulnerability that the call may come to delete. -/
structure Warrants (b : Backing) (w : World b.Store) (c : Call) (r : Request α) : Prop where
  asks : c.Asks r
  unnamed : r.IsUnnamed
  created : ∀ id change, r.changes? = some (id, change) → change.createdAt = none
  deleted : ∀ id, r.deletes? = some id →
    ∃ x ∈ b.vulnerabilities w.store, x.id = id ∧ b.Discards w x c

/-- What is agreed with a store on a call that is made in a world. -/
def tracing (b : Backing) (w : World b.Store) (c : Call) : Contract (World b.Store) where
  inv u := b.view.Numbered u ∧ b.RulesInOrder u ∧ b.Accounted [(w, c)] w u
  may r := b.Warrants w c r
  gives r a := c.isRejudging = true → b.Recalls w r a

theorem mem_vulnerabilities_iff (h : b.view.Numbered w) : x ∈ b.vulnerabilities w.store ↔
    ∃ k, (b.view.records w.store).vulnerabilities.get? k = some x := by
  rw [← b.records_vulnerabilities, Shelf.mem_records]
  simp only [Shelf.get?_eq_some_iff h.shelved.distinct]

/-- What a call that judges again finds was there when it was made, as it is. -/
theorem mem_of_rejudging (hw : b.view.Numbered w) (hu : b.view.Numbered u)
    (ha : b.Accounted [(w, c)] w u) (hc : c.isRejudging = true) (hx : x ∈ b.vulnerabilities u.store) :
    x ∈ b.vulnerabilities w.store := by
  obtain ⟨k, hx⟩ := (mem_vulnerabilities_iff hu).mp hx
  refine (mem_vulnerabilities_iff hw).mpr ⟨k, ?_⟩
  cases hold : (b.view.records w.store).vulnerabilities.get? k with
  | none =>
    obtain ⟨⟨call, hcall, hopening⟩, -⟩ := ha.vulnerabilities.new k x hold hx
    cases List.mem_singleton.mp hcall
    exact nomatch hopening.symm.trans (Call.isOpening_of_isRejudging hc)
  | some x₀ =>
    -- it has lasted, and a call that judges again is no step of its workflow
    rcases ha.vulnerabilities.old k x₀ hold with ⟨y, hy, -, hsame | ⟨call, hcall, hhandles⟩⟩ | ⟨hnone, -⟩
    · rw [← hsame]
      exact hy.symm.trans hx
    · cases List.mem_singleton.mp hcall
      exact absurd hhandles (not_handles_of_isRejudging hc)
    · exact nomatch hnone.symm.trans hx

/-- A rule that a call that judges again finds was there when it was made. -/
theorem ruleAt_of_rejudging (ha : b.Accounted [(w, c)] w u) (hc : c.isRejudging = true)
    (hr : b.ruleAt u s ≠ none) : b.ruleAt w s ≠ none := by
  intro hnone
  obtain ⟨r, hr⟩ := Option.ne_none_iff_exists'.mp hr
  obtain ⟨⟨call, hcall, input, hinput⟩, -⟩ := ha.rules.new _ r hnone hr
  cases List.mem_singleton.mp hcall
  rw [show c = .createRule input from hinput] at hc
  cases hc

/-- What a call that judges again is answered. -/
theorem triple_recalls (hw : b.view.Numbered w) (hu : b.view.Numbered u) (hin : b.RulesInOrder u)
    (ha : b.Accounted [(w, c)] w u) (hc : c.isRejudging = true) (r : Request α) :
    Triple (b.storage.perform r) u (fun a _ => b.Recalls w r a) (fun _ _ => True) := by
  cases r with
  | getRule id =>
    refine Triple.of_run_except (b.run_lookUpRule hin id) (fun found hlook hne => ?_) fun _ _ => trivial
    obtain ⟨r, rfl⟩ := Option.ne_none_iff_exists'.mp hne
    obtain ⟨s, hn, hr⟩ := View.look_eq_some.mp hlook
    exact ⟨s, hn, ruleAt_of_rejudging ha hc fun hnone => nomatch hr.symm.trans hnone⟩
  | listVulnerabilitiesForRule id =>
    refine Triple.of_forall (fun xs u' hrun s hn x hx => ?_) fun _ _ _ => trivial
    obtain ⟨-, hlist⟩ := (b.triple_listForRule (b.lawful.name_congr _ hn)).ok hrun
    obtain ⟨hmem, hrule⟩ := hlist x hx
    exact ⟨mem_of_rejudging hw hu ha hc hmem, hrule⟩
  | listVulnerabilitiesForProperty p until_ =>
    cases until_ with
    | some _ => exact Triple.of_forall (fun _ _ _ => trivial) fun _ _ _ => trivial
    | none =>
      refine (b.triple_listForProperty p).mono ?_ fun _ _ _ => trivial
      rintro xs u' ⟨-, hlist⟩ x hx
      obtain ⟨hmem, hp⟩ := (hlist x).mp hx
      exact ⟨mem_of_rejudging hw hu ha hc hmem, hp⟩
  | _ => exact Triple.of_forall (fun _ _ _ => trivial) fun _ _ _ => trivial

/-- A vulnerability that a call asks to delete is one that it may come to delete. -/
theorem discards_of_warrants (hw : b.view.Numbered w) (ha : b.Accounted [(w, c)] w u)
    {r : Request α} (hr : b.Warrants w c r)
    (hd : r.deletes? = some id) (hn : b.view.name .deleteVulnerability id = .ok (some s))
    (hx : (b.view.records u.store).vulnerabilities.get? (.text s) = some x) : b.Discards w x c := by
  obtain ⟨y, hy, rfl, hdiscards⟩ := hr.deleted _ hd
  obtain ⟨k, hy⟩ := (mem_vulnerabilities_iff hw).mp hy
  obtain ⟨t, hplain, rfl, hid⟩ := hw.shelved.own _ (Shelf.mem_of_get? hy)
  -- the id is that of the key
  dsimp only at hid
  rw [hid, b.lawful.name_text hplain] at hn
  cases hn
  rcases ha.vulnerabilities.old _ y hy with ⟨x', hx', hlasts, -⟩ | ⟨hnone, -⟩
  · cases hx.symm.trans hx'
    exact hdiscards.of_lasts hlasts.symm
  · exact nomatch hnone.symm.trans hx

/-- What a request that a call may make keeps. -/
theorem keeps_tracing (hw : b.Traceable w) (hu : (b.tracing w c).inv u) {r : Request α}
    (hr : b.Warrants w c r) : Keeps (b.tracing w c).inv (b.storage.perform r) u := by
  obtain ⟨hnumbered, hin, ha⟩ := hu
  have htraceable := hw.follow ha hnumbered hin
  have hmem := List.mem_singleton_self (w, c)
  have hrules : Keeps (fun u' => b.RulesInOrder u' ∧ b.RulesAccounted [(w, c)] u u')
      (b.storage.perform r) u :=
    (keeps_ruleEffect hin (hnumbered.plain _) (parsed_of_asks hr.asks)).imp fun u' ⟨hin, hf, he⟩ =>
      ⟨hin, rulesAccounted_of_effect htraceable hmem hr.asks hf he⟩
  have hvulnerabilities : Keeps (fun u' => b.view.Numbered u' ∧
      b.VulnerabilitiesAccounted [(w, c)] u u') (b.storage.perform r) u :=
    (b.keeps_turns hnumbered.shelved hr.asks.proper.workflow).imp fun u' ht =>
      ⟨hnumbered.step b.tag_text hr.asks.proper ht, vulnerabilitiesAccounted_of_turns hnumbered hmem
        hr.asks hr.created (fun _ _ _ => discards_of_warrants hw.numbered ha hr) ht⟩
  have harchives : Keeps (fun u' => ∀ {α : Type} (A : Archive α), b.Archives A u u')
      (b.storage.perform r) u :=
    Keeps.of_run rfl fun A => (keeps_archive A hnumbered.injective hnumbered.plain
      (htraceable.archives A) hr.unnamed).state
  -- what the request does is joined to what the call has done before
  exact (hrules.both (hvulnerabilities.both harchives)).imp fun u' ⟨hr, hv, harch⟩ =>
    ⟨hv.1, hr.1, hw.accounted_trans ha ⟨harch, hr.2, hv.2⟩⟩

theorem meets_tracing (hw : b.Traceable w) : b.storage.Meets (b.tracing w c) where
  now u := ⟨u.clock, b.view_storage ▸ b.lawful.now⟩
  perform {α r u} hr hu := by
    have hkeeps := keeps_tracing hw hu hr
    cases hc : c.isRejudging with
    | false =>
      exact hkeeps.mono (fun _ _ ht => ⟨fun h => (nomatch hc.symm.trans h), ht⟩)
        fun _ _ ht => ⟨trivial, ht⟩
    | true =>
      exact (hkeeps.and (triple_recalls hw.numbered hu.1 hu.2.1 hu.2.2 hc r)).mono
        (fun _ _ ht => ⟨fun _ => ht.2, ht.1⟩) fun _ _ ht => ⟨trivial, ht.1⟩
  overflow _ := trivial

/-- A rule id by which a rule can be asked for is kept as the text that it stands for. -/
theorem ruleId_of_name : ∀ {b : Backing} {w : World b.Store} {operation : Operation} {s : String},
    x ∈ b.vulnerabilities w.store → b.view.name operation x.ruleId = .ok (some s) →
      x.ruleId = .text s
  | memory, _, _, _, _, hn => Memory.eq_text_of_name hn
  | tables, w, _, s, hx, hn => by
    obtain ⟨row, -, rfl⟩ := List.mem_map.mp hx
    exact congrArg Value.text (tables.lawful.text_of_name hn).symm

/-- What a call comes to delete it may delete. -/
theorem discards_of_condemns {τ : Type} {C : Contract (World b.Store × τ)}
    (hC : C = (b.tracing w c).first) (h : c.Condemns C x) :
    x ∈ b.vulnerabilities w.store ∧ b.Discards w x c := by
  subst hC
  cases c with
  | updateRule id patch =>
    obtain ⟨⟨r, hr⟩, xs, hxs, hx⟩ := h
    obtain ⟨s, hn, hrule⟩ := hr rfl nofun
    obtain ⟨hmem, hown⟩ := hxs rfl s hn x hx
    exact ⟨hmem, s, hn, hown, hrule⟩
  | reevaluateProperty p =>
    obtain ⟨⟨xs, hxs, hx⟩, r, hr⟩ := h
    obtain ⟨hmem, hp⟩ := hxs rfl x hx
    obtain ⟨s, hn, hrule⟩ := hr rfl nofun
    exact ⟨hmem, hp, s, ruleId_of_name hmem hn, hrule⟩
  | _ => exact h.elim

theorem warrants_of_means {τ : Type} {C : Contract (World b.Store × τ)}
    (hC : C = (b.tracing w c).first) {r : Request α} (hasks : c.Asks r) (h : c.Means C r) :
    b.Warrants w c r where
  asks := hasks
  unnamed := by
    cases r <;> first
      | exact trivial
      | exact h
  created id change hr := by
    cases r <;> cases hr
    exact h
  deleted id hr := by
    cases r <;> cases hr
    obtain ⟨x, hid, hx⟩ := h
    obtain ⟨hmem, hdiscards⟩ := discards_of_condemns hC hx
    exact ⟨x, hmem, hid, hdiscards⟩

/-- What a call leaves of a traceable state is traceable, and is accounted for by this call. -/
theorem Traceable.after (h : b.Traceable w) (policy : Policy) (plan : List Storage.Mishap)
    (c : Call) : b.Traceable (b.after policy plan c w) ∧
      b.Accounted [(w, c)] w (b.after policy plan c w) := by
  have hinv : (b.tracing w c).first.inv (w, plan) :=
    ⟨h.numbered, h.inOrder, .refl _ w⟩
  obtain ⟨hnumbered, hin, ha⟩ := (Call.upheld_as_meant ((meets_tracing h).faulty fun _ _ => trivial)
    (fun _ _ => trivial) (fun hr hm => warrants_of_means rfl hr hm) policy hinv).keeps.state
  exact ⟨h.follow ha hnumbered hin, ha⟩

theorem Traceable.empty (b : Backing) (clock : Time.Stamp) (issued : Nat) {idOf : Nat → String}
    (hinj : Function.Injective idOf) (hwhole : ∀ n, Text.isWhole (idOf n) = true) :
    b.Traceable ⟨b.empty, clock, issued, idOf⟩ := by
  have hrecords : b.view.records b.empty = {} := b.records_empty
  refine ⟨.empty (congrArg Memory.vulnerabilities hrecords) hinj fun n => b.plain_of_isWhole (hwhole n),
    b.rulesInOrder_empty clock issued idOf, hrecords ▸ nofun, fun A => ?_⟩
  rw [hrecords]
  cases A <;> exact nofun

theorem Visited.traceable {may : World b.Store → Policy → Call → Prop} (h : b.Visited may w) :
    b.Traceable w := by
  induction h with
  | empty clock issued idOf hinj hwhole => exact .empty b clock issued hinj hwhole
  | tick clock _ ih => exact ih.tick clock
  | call policy plan _ _ ih => exact (ih.after policy plan _).1

end Backing

end PropertyRisk
