import PropertyRisk.Proofs.Batches
import PropertyRisk.Proofs.Lifetimes
import PropertyRisk.Proofs.WellFormed

/-!
# Runs of calls, and the vulnerabilities of deleted rules

`Backing.Leads` has the runs of calls from a state on. `Backing.differences_accounted`: along
all of them nothing happens to a record that a call does not account for. In particular no call
deletes a vulnerability of a rule that was deleted, and judging its property again reports it.
-/

namespace PropertyRisk

open Op (Triple Keeps)
open Engine

namespace Backing

/-- Where calls lead to from a world, whatever befalls their requests, while time may pass
between them. Their history has the latest call first. -/
inductive Leads (b : Backing) (w : World b.Store) : b.History → World b.Store → Prop
  | here : Leads b w [] w
  | tick {calls : b.History} {u : World b.Store} (clock : Time.Stamp) :
      Leads b w calls u → Leads b w calls { u with clock }
  | call {calls : b.History} {u : World b.Store} (policy : Policy) (plan : List Storage.Mishap)
      (c : Call) : Leads b w calls u → Leads b w ((u, c) :: calls) (b.after policy plan c u)

variable {b : Backing} {w w' u : World b.Store} {calls later : b.History} {s : String}
  {x : Vulnerability}

namespace Leads

/-- What each of the calls keeps that are made, and the passing of time, a run keeps. -/
theorem keeps {P : World b.Store → Prop} {Q : Call → Prop} (h : b.Leads w calls u) (hw : P w)
    (htick : ∀ v clock, P v → P { v with clock })
    (hcall : ∀ v c policy plan, Q c → P v → P (b.after policy plan c v))
    (hc : ∀ call ∈ calls, Q call.2) : P u := by
  induction h with
  | here => exact hw
  | tick clock _ ih => exact htick _ clock (ih hc)
  | call policy plan c _ ih =>
    obtain ⟨hlast, hearlier⟩ := List.forall_mem_cons.mp hc
    exact hcall _ c policy plan hlast (ih hearlier)

/-- What single calls account for, a run does. -/
theorem traceable_accounted (h : b.Leads w calls u) (hw : b.Traceable w) :
    b.Traceable u ∧ b.Accounted calls w u := by
  induction h with
  | here => exact ⟨hw, .refl [] w⟩
  | tick clock _ ih => exact ⟨ih.1.tick clock, ih.2.tick clock⟩
  | call policy plan c _ ih =>
    obtain ⟨hu, ha⟩ := ih.1.after policy plan c
    exact ⟨hu, hw.accounted_trans (ih.2.mono (List.subset_cons_self _ _))
      (ha.mono (List.cons_subset_cons _ (List.nil_subset _)))⟩

/-- The worlds in which calls were made are on the way. -/
theorem of_mem (h : b.Leads w calls u) {call : World b.Store × Call} (hc : call ∈ calls) :
    ∃ earlier, b.Leads w earlier call.1 := by
  induction h with
  | here => cases hc
  | tick _ _ ih => exact ih hc
  | call policy plan c h ih =>
    rcases List.mem_cons.mp hc with rfl | hc
    · exact ⟨_, h⟩
    · exact ih hc

end Leads

/-! ## Deleted rules -/

/-- A rule that is gone for good: its id was issued and is that of no rule. -/
structure Gone (b : Backing) (s : String) (w : World b.Store) : Prop where
  rule : b.ruleAt w s = none
  issued : ∃ n ≤ w.issued, s = w.idOf n

theorem Gone.leads (h : b.Gone s w) (hw : b.Traceable w) (hl : b.Leads w calls u) : b.Gone s u := by
  obtain ⟨hnone, n, hn, rfl⟩ := h
  have ha := (hl.traceable_accounted hw).2.rules
  exact ⟨ha.stays_gone hw.numbered.injective hn hnone, n, Nat.le_trans hn ha.issued, by rw [ha.idOf]⟩

/-- A rule that was there and is not any more is gone for good. -/
theorem gone_of_deleted (hw : b.Traceable w) (hl : b.Leads w calls w') (hrule : b.ruleAt w s ≠ none)
    (hnone : b.ruleAt w' s = none) : b.Gone s w' := by
  obtain ⟨r, hr⟩ := Option.ne_none_iff_exists'.mp hrule
  obtain ⟨n, hn, hs⟩ := hw.rules _ (Shelf.mem_keys_of_get? hr)
  have ha := (hl.traceable_accounted hw).2.rules
  exact ⟨hnone, n, Nat.le_trans hn ha.issued, by rw [ha.idOf, Key.text.inj hs]⟩

/-- No call deletes a vulnerability of a rule that is gone. -/
theorem Gone.lasts (h : b.Gone s w) (hw : b.Traceable w) (hl : b.Leads w calls u) {k : Key}
    (hx : (b.view.records w.store).vulnerabilities.get? k = some x) (hs : x.ruleId = .text s) :
    ∃ y, (b.view.records u.store).vulnerabilities.get? k = some y ∧ x.Lasts y := by
  rcases (hl.traceable_accounted hw).2.vulnerabilities.old k x hx with
    ⟨y, hy, hlasts, -⟩ | ⟨-, call, hcall, hdiscards⟩
  · exact ⟨y, hy, hlasts⟩
  -- a call that deletes it would have found its rule
  obtain ⟨earlier, hearlier⟩ := hl.of_mem hcall
  have hgone := (h.leads hw hearlier).rule
  obtain ⟨v, c⟩ := call
  cases c with
  | updateRule id patch =>
    obtain ⟨t, -, ht, hrule⟩ := hdiscards
    cases hs.symm.trans ht
    exact absurd hgone hrule
  | reevaluateProperty p =>
    obtain ⟨-, t, ht, hrule⟩ := hdiscards
    cases hs.symm.trans ht
    exact absurd hgone hrule
  | _ => exact hdiscards.elim

/-! ## Judging again -/

/-- What is agreed with a store while a rule is gone and none is written. -/
def bereaving (b : Backing) (s : String) : Contract (World b.Store) where
  inv u := b.RulesInOrder u ∧ b.ruleAt u s = none
  may r := r.writesRules = false

theorem meets_bereaving : b.storage.Meets (b.bereaving s) where
  now w := ⟨w.clock, b.view_storage ▸ b.lawful.now⟩
  perform hr h := (b.keeps_rules h.1 hr).mono
    (fun _ _ ht => ⟨trivial, ht.1, (ruleAt_of_beside ht.2 s).trans h.2⟩)
    fun _ _ ht => ⟨trivial, ht.1, (ruleAt_of_beside ht.2 s).trans h.2⟩
  overflow _ := trivial

/-- A vulnerability whose rule is gone is reported, and nothing more is done. -/
theorem run_reexamine_gone (hin : b.RulesInOrder u) (hplain : b.view.Plain s)
    (hnone : b.ruleAt u s = none) (hs : x.ruleId = .text s) :
    (Vulnerabilities.reexamine b.storage x).run u = (.ok .orphaned, u) := by
  have hrule : (b.storage.perform (.getRule x.ruleId)).run u = (.ok none, u) := by
    rw [hs, run_getRule_at hin hplain, hnone]
  rw [Vulnerabilities.reexamine, Op.run_bind_ok (Op.run_attempt_ok hrule)]
  rfl

theorem triple_reexamineAll_gone (hplain : b.view.Plain s) (xs : List Vulnerability)
    (hin : b.RulesInOrder u) (hnone : b.ruleAt u s = none) :
    Triple (Vulnerabilities.reexamineAll b.storage xs) u
      (fun findings _ => ∀ x ∈ xs, x.ruleId = .text s →
        (x, Vulnerabilities.Finding.orphaned) ∈ findings) (fun _ _ => True) := by
  have hread {α : Type} {r : Request α} (hr : r.isRead) (_ : r.isTimed = false) :
      (b.bereaving s).may r :=
    Request.writesRules_of_isRead hr
  induction xs generalizing u with
  | nil => exact Triple.pure nofun
  | cons x rest ih =>
    -- whatever becomes of the first one, no rule is written, so the rule is gone for the others
    have hfirst : Triple (Vulnerabilities.reexamine b.storage x) u
        (fun finding t => (x.ruleId = .text s → finding = .orphaned) ∧ (b.bereaving s).inv t)
        (fun _ _ => True) := by
      by_cases hs : x.ruleId = .text s
      · exact Triple.of_run (run_reexamine_gone hin hplain hnone hs) ⟨fun _ => rfl, hin, hnone⟩
      · exact (Vulnerabilities.upheld_reexamine meets_bereaving hread x (fun _ _ => rfl)
          ⟨hin, hnone⟩).mono (fun _ _ ht => ⟨fun hx => absurd hx hs, ht⟩) fun _ _ _ => trivial
    refine hfirst.bind fun finding t ⟨hx, hin, hnone⟩ => (ih hin hnone).bind fun others v hrest =>
      Triple.pure fun y hy hs => ?_
    rcases List.mem_cons.mp hy with rfl | hy
    · rw [hx hs]
      exact List.mem_cons_self
    · exact List.mem_cons_of_mem _ (hrest y hy hs)

/-- Judging a property again, if it comes to its end, reports all vulnerabilities of a rule that
is gone. -/
theorem triple_reevaluate_gone (hplain : b.view.Plain s) (p : Value) (hin : b.RulesInOrder u)
    (hnone : b.ruleAt u s = none) :
    Triple (Vulnerabilities.reevaluate b.storage p) u
      (fun report _ => ∀ x ∈ b.vulnerabilities u.store, x.ruleId = .text s →
        x.propertyId.equal (b.spot p) = true → x.id ∈ report.orphaned) (fun _ _ => True) := by
  refine (b.triple_listForProperty p).answered.bind ?_
  rintro xs t ⟨rfl, hlist⟩
  refine (triple_reexamineAll_gone hplain xs hin hnone).bind fun findings v hfindings =>
    Triple.pure fun x hx hs hp => ?_
  have hfound := hfindings x ((hlist x).mpr ⟨hx, hp⟩) hs
  exact List.mem_map.mpr ⟨_, List.mem_filter.mpr ⟨hfound, by simp⟩, rfl⟩

/-- The vulnerabilities of a rule that was deleted before `w`, at a later time: they are all
still there, and judging their property again with no failure reports them as orphaned. This
comes to its end in a store that can be worked with, unless a tree that is judged comes to
compare a number that is too large. -/
structure Orphans (b : Backing) (s : String) (w u : World b.Store) : Prop where
  gone : b.ruleAt u s = none
  last : ∀ k x, (b.view.records w.store).vulnerabilities.get? k = some x → x.ruleId = .text s →
    ∃ y, (b.view.records u.store).vulnerabilities.get? k = some y ∧ x.Lasts y
  reported : ∀ policy p reply u',
    ((Call.reevaluateProperty p).run policy b.storage).run u = (.ok reply, u') →
    ∃ report, reply = .reevaluation report ∧ ∀ x ∈ b.vulnerabilities u.store,
      x.ruleId = .text s → x.propertyId.equal (b.spot p) = true → x.id ∈ report.orphaned
  answered : ∀ policy p xs, b.view.Ready u → Stamped (b.vulnerabilities u.store) →
    (b.storage.perform (.listVulnerabilitiesForProperty p none)).run u = (.ok xs, u) →
    (∀ x ∈ xs, ∀ r, (b.view.records u.store).ruleOf? x = some r →
      r.tree.Comparable (b.storage.observed u x)) →
    ∃ report u', ((Call.reevaluateProperty p).run policy b.storage).run u =
      (.ok (.reevaluation report), u')

theorem Gone.orphans (h : b.Gone s w) (hw : b.Traceable w) (hl : b.Leads w calls u) :
    b.Orphans s w u where
  gone := (h.leads hw hl).rule
  last _ _ hx hs := h.lasts hw hl hx hs
  reported policy p reply u' hrun := by
    obtain ⟨hu, -⟩ := hl.traceable_accounted hw
    obtain ⟨hnone, n, -, hs⟩ := h.leads hw hl
    have hplain : b.view.Plain s := hs ▸ hu.numbered.plain n
    have htriple : Triple ((Call.reevaluateProperty p).run policy b.storage) u
        (fun reply _ => ∃ report, reply = .reevaluation report ∧ ∀ x ∈ b.vulnerabilities u.store,
          x.ruleId = .text s → x.propertyId.equal (b.spot p) = true →
            x.id ∈ report.orphaned) (fun _ _ => True) :=
      Triple.map _ ((triple_reevaluate_gone hplain p hu.inOrder hnone).mono
        (fun report _ hreport => ⟨report, rfl, hreport⟩) fun _ _ h => h)
    exact htriple.ok hrun
  answered policy p xs hready hst hlist hj := by
    obtain ⟨u', hrun, -⟩ := reevaluate_complete hready hst hlist hj
    exact ⟨_, u', (Op.run_map _ _ _).trans (by rw [hrun]; rfl)⟩

/-- Along every run of calls, whatever their arguments and whatever befalls their requests,
every difference is accounted for by a call; and what a deleted rule has found stays, and is
reported whenever its property is judged again. -/
theorem differences_accounted (h : b.Visited (fun _ _ _ => True) w) (hl : b.Leads w calls w') :
    b.Accounted calls w w' ∧
      ∀ s, b.ruleAt w s ≠ none → b.ruleAt w' s = none →
        ∀ later u, b.Leads w' later u → b.Orphans s w' u := by
  have hw := h.traceable
  obtain ⟨hw', ha⟩ := hl.traceable_accounted hw
  exact ⟨ha, fun s hrule hnone later u hlater =>
    (gone_of_deleted hw hl hrule hnone).orphans hw' hlater⟩

/-- The store with a rule on leaks, by which a vulnerability was opened. -/
def dripping : World Tables :=
  tables.after {} [] (.createVulnerability (.text "aaa") (.text "x") (.int 7) .null) ended

/-- The rule has been deleted. -/
def bereft : World Tables := tables.after {} [] (.deleteRule (.text "aaa")) dripping

/-- The property has been judged again, while the rule could not be asked for. -/
def unasked : World Tables :=
  tables.after {} [.passes, .fails ⟨.getRule, .database⟩] (.reevaluateProperty (.int 7)) bereft

theorem orphaned_unasked :
    tables.Accounted [(dripping, .deleteRule (.text "aaa")),
      (ended, .createVulnerability (.text "aaa") (.text "x") (.int 7) .null)] ended bereft ∧
    tables.Orphans "aaa" bereft unasked ∧
    (((Call.reevaluateProperty (.int 7)).run {} tables.storage).run unasked).1 =
      .ok (.reevaluation { propertyId := .int 7, checked := 0, removed := 0,
                           orphaned := [.text "aaaa"], errors := [] }) := by
  have hvisited : tables.Visited (fun _ _ _ => True) ended :=
    .call _ _ trivial <| .call _ _ trivial <| .call _ _ trivial <| .call _ _ trivial <|
      .empty _ 0 letters letters_injective isWhole_letters
  obtain ⟨haccounted, horphans⟩ :=
    differences_accounted hvisited (.call {} [] _ (.call {} [] _ .here) : tables.Leads ended _ bereft)
  exact ⟨haccounted, horphans "aaa" (by decide +kernel) (by decide +kernel) _ _ (.call {} _ _ .here),
    by decide +kernel⟩

end Backing

end PropertyRisk
