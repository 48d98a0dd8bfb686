import PropertyRisk.Proofs.Forward

/-!
# No finding is open twice

`Backing.unrepeated_of_visited`: where duplicates are avoided, no two
vulnerabilities of one rule and property are unresolved together, whatever befell
the requests of the calls that were made, as long as vulnerabilities are opened by
processing only and a resolved one is left alone.
-/

namespace PropertyRisk

open Op (Triple Keeps)
open Engine

/-- A request that neither opens a vulnerability nor sets a status. -/
structure Request.IsIdle (r : Request α) : Prop where
  still : r.IsStill
  opens : r.opens? = none

theorem Request.IsIdle.of_none {r : Request α} (ho : r.opens? = none) (hc : r.changes? = none) :
    r.IsIdle where
  still.opening _ h := nomatch ho.symm.trans h
  still.workflow _ _ h := nomatch hc.symm.trans h
  still.still _ _ h := nomatch hc.symm.trans h
  opens := ho

theorem Request.IsIdle.of_isRead {r : Request α} (h : r.isRead) : r.IsIdle := by
  cases r <;> first
    | exact absurd h Bool.false_ne_true
    | exact .of_none rfl rfl

theorem Engine.Call.Asks.idle {c : Call} {r : Request α} (h : c.Asks r) (hc : c.isStatusMove = false)
    (ho : c.isOpening = false) : r.IsIdle where
  still := h.still hc
  opens := by
    cases hd : r.opens? with
    | none => rfl
    | some d => exact absurd (h.opening hd).1 (by simp [ho])

theorem isUnresolved_named {x : Vulnerability} {st : Status} (h : x.status = .text st.name) :
    x.isUnresolved = .ok (decide (st ≠ .resolved)) := by
  unfold Vulnerability.isUnresolved
  rw [h]
  cases st <;> decide

/-- Whether work is to be done on two vulnerabilities of one rule and property. -/
structure Vulnerability.Repeats (x y : Vulnerability) : Prop where
  left : x.isUnresolved = .ok true
  right : y.isUnresolved = .ok true
  ruleId : x.ruleId.equal y.ruleId = true
  propertyId : x.propertyId.equal y.propertyId = true

/-- No vulnerability repeats another one. -/
def Unrepeated (xs : List Vulnerability) : Prop := xs.Pairwise fun x y => ¬x.Repeats y

theorem Engine.Vulnerabilities.not_unresolved_of_firstUnresolved {ruleId : Value}
    {xs : List Vulnerability} (h : firstUnresolved ruleId xs = .ok none) {x : Vulnerability}
    (hx : x ∈ xs) (hr : x.ruleId.equal ruleId = true) : x.isUnresolved ≠ .ok true := by
  induction xs with
  | nil => cases hx
  | cons y rest ih =>
    unfold firstUnresolved at h
    rcases List.mem_cons.mp hx with rfl | hx
    · rw [if_pos hr] at h
      split at h
      · cases h
      · cases h
      · rename_i hun
        simp [hun]
    · refine ih ?_ hx
      split at h
      · split at h
        · cases h
        · cases h
        · exact h
      · exact h

namespace View

variable {S : Type} {v : View S} {tag spot : Value → Value} {w w' : World S}

/-- What a request keeps free of repetitions: what it opens repeats nothing, and
what it moves was unresolved. -/
theorem unrepeated_step (hw : v.Numbered w)
    (h : Unrepeated (v.records w.store).vulnerabilities.records) {r : Request α}
    (ht : v.Turns tag spot w r w')
    (hopen : ∀ d y, r.opens? = some d → d.KeptAs tag spot w.clock.text y →
      ∀ x ∈ (v.records w.store).vulnerabilities.records, ¬x.Repeats y)
    (hmove : ∀ id change s x, r.changes? = some (id, change) →
      v.name .updateVulnerability id = .ok (some s) →
      (v.records w.store).vulnerabilities.get? (.text s) = some x →
      change.status = none ∨ x.isUnresolved = .ok true) :
    Unrepeated (v.records w'.store).vulnerabilities.records := by
  cases ht.2 with
  | same hsame => exact hsame ▸ h
  | @opened d y hd _ hx _ hput =>
    rw [hput, Shelf.put_of_new hw.next_unused, Shelf.records, List.map_append]
    refine List.pairwise_append.mpr ⟨h, List.pairwise_singleton _ _, fun x hxm z hz => ?_⟩
    cases List.mem_singleton.mp hz
    exact hopen d y hd hx x hxm
  | @changed id change s x y hc hn hget hsame hstatus hput =>
    have hun : y.isUnresolved = .ok true → x.isUnresolved = .ok true := by
      rcases hmove id change s x hc hn hget with hnone | hun
      · rw [hnone] at hstatus
        unfold Vulnerability.isUnresolved
        rw [hstatus]
        exact fun hx => hx
      · exact fun _ => hun
    rw [hput]
    refine Shelf.pairwise_records_put h hget (fun z hz hr => hz ?_) fun z hz hr => hz ?_
    · exact ⟨hr.left, hun hr.right, hsame.ruleId ▸ hr.ruleId, hsame.propertyId ▸ hr.propertyId⟩
    · exact ⟨hun hr.left, hr.right, hsame.ruleId ▸ hr.ruleId, hsame.propertyId ▸ hr.propertyId⟩
  | deleted herase => exact herase ▸ h.sublist (Shelf.erase_sublist.map _)

end View

namespace Backing

variable {b : Backing} {w : World b.Store} {policy : Policy} {plan : List Storage.Mishap}

/-- Nothing is repeated, and everything is kept under an id that was issued. -/
structure Tracked (b : Backing) (w : World b.Store) : Prop where
  numbered : b.view.Numbered w
  unrepeated : Unrepeated (b.view.records w.store).vulnerabilities.records

namespace Tracked

theorem idle (h : b.Tracked w) {r : Request α} (hr : r.IsIdle) {w' : World b.Store}
    (ht : b.view.Turns b.tag b.spot w r w') : b.Tracked w' where
  numbered := h.numbered.step b.tag_text hr.still.proper ht
  unrepeated := View.unrepeated_step h.numbered h.unrepeated ht
    (fun _ _ hd => nomatch hr.opens.symm.trans hd) fun id change _ _ hc _ _ => .inl (hr.still.still id change hc)

theorem meets : b.storage.Meets (b.contract b.Tracked Request.IsIdle) :=
  Backing.meets (fun _ h => h.numbered.shelved) (fun hr => hr.still.workflow)
    fun hr h ht => h.idle hr ht

theorem meets_faulty : b.storage.faulty.Meets (b.contract b.Tracked Request.IsIdle).first :=
  meets.faulty fun _ _ => trivial

/-- What is opened repeats nothing if nothing unresolved was there. -/
theorem keeps_create (h : b.Tracked w) {d : VulnerabilityDraft} (hd : d.IsOpening)
    (hnone : ∀ x ∈ b.vulnerabilities w.store, x.propertyId.equal (b.spot d.propertyId) = true →
      x.ruleId.equal (b.tag d.ruleId) = true → x.isUnresolved ≠ .ok true) :
    Keeps b.Tracked (b.storage.perform (.createVulnerability d)) w := by
  have hproper : (Request.createVulnerability d).IsProper :=
    ⟨fun _ he => Option.some.inj he ▸ hd, fun _ _ hc => (nomatch hc), fun _ _ _ hc => (nomatch hc)⟩
  have hstep (w' : World b.Store)
      (ht : b.view.Turns b.tag b.spot w (.createVulnerability d) w') : b.Tracked w' := by
    refine ⟨h.numbered.step b.tag_text hproper ht, ?_⟩
    refine View.unrepeated_step h.numbered h.unrepeated ht (fun d' y hd' hy x hx hr => ?_)
      fun _ _ _ _ hc => nomatch hc
    cases hd'
    rw [b.records_vulnerabilities] at hx
    exact hnone x hx (hy.propertyId ▸ hr.propertyId) (hy.ruleId ▸ hr.ruleId) hr.left
  exact (b.keeps_turns h.numbered.shelved hproper.workflow).imp hstep

/-- Whatever befalls the requests between looking and opening, nothing is opened
that is there. -/
theorem upheld_open {rule : Rule} (hrule : b.tag rule.id = rule.id) (a : Assessment)
    {t : World b.Store × List Storage.Mishap} (h : b.Tracked t.1) :
    (b.contract b.Tracked Request.IsIdle).first.Upheld
      (Assessments.open_ b.storage.faulty true a rule) t := by
  obtain ⟨u, plan⟩ := t
  have hfind : Triple (Vulnerabilities.findUnresolved b.storage.faulty rule.id a.propertyId) (u, plan)
      (fun found t => t.1 = u ∧ (found = none → ∀ x ∈ b.vulnerabilities u.store,
        x.propertyId.equal (b.spot a.propertyId) = true → x.ruleId.equal rule.id = true →
          x.isUnresolved ≠ .ok true))
      (fun _ t => t.1 = u) := by
    refine Triple.bind (Storage.triple_faulty (b.triple_listForProperty a.propertyId) plan
      (fun _ => rfl) (fun _ _ _ h => h.1) fun _ _ _ h => h) fun xs t ⟨ht, hxs⟩ => ?_
    refine Triple.ofExcept (fun found hfound => ⟨ht, fun hnone x hx hp hr => ?_⟩) fun _ _ => ht
    exact Vulnerabilities.not_unresolved_of_firstUnresolved (hnone ▸ hfound) ((hxs x).mpr ⟨hx, hp⟩) hr
  unfold Assessments.open_
  simp only [if_true]
  refine Triple.bind (hfind.mono (fun _ _ h => h) fun e t ht => ⟨trivial, ?_⟩) ?_
  · show b.Tracked t.1
    exact ht.symm ▸ h
  rintro found ⟨u', rest⟩ ⟨rfl, hnone⟩
  split
  · exact Contract.Upheld.pure (C := (b.contract b.Tracked Request.IsIdle).first) h
  rename_i hfound
  refine Contract.Upheld.bind (Triple.bind_run (run_now_faulty u' rest) ?_) fun _ _ h => .pure h
  refine Storage.triple_faulty (E := fun _ t => True ∧ b.Tracked t) ?_ rest
    (fun _ => ⟨trivial, h⟩) (fun _ _ _ h => ⟨trivial, h⟩) fun _ _ _ h => h
  refine (keeps_create h ⟨rfl, _, rfl⟩ fun x hx hp hr => ?_).mono (fun _ _ h => h)
    fun _ _ h => ⟨trivial, h⟩
  exact hnone (by simpa using hfound) x hx hp (hrule ▸ hr)

end Tracked

/-! ## Calls -/

/-- A call that keeps findings apart: duplicates are avoided, vulnerabilities are
opened by processing only, and a resolved one is left alone. -/
def Orderly (b : Backing) (w : World b.Store) (policy : Policy) : Call → Prop
  | .createVulnerability .. => False
  | .updateStatus id .. | .applyMitigation id .. => policy.dedupe = true ∧
      ∀ x ∈ b.vulnerabilities w.store, b.Names id x → x.status ≠ .text Status.resolved.name
  | _ => policy.dedupe = true

namespace Tracked

theorem process (h : b.Tracked w) (hd : policy.dedupe = true) (source : AssessmentSource) :
    b.Tracked (b.after policy plan (.process source) w) := by
  have hup := Assessments.upheld_process meets_faulty (fun _ _ => trivial) .of_isRead source
    (fun _ _ _ _ _ => .of_none rfl rfl) (fun hrule h => hd ▸ upheld_open (hrule _ rfl) _ h)
    (s := (w, plan)) h
  exact (hup.map Reply.report).keeps.state

theorem processAt (h : b.Tracked w) (hd : policy.dedupe = true) (source : AssessmentSource)
    (time : Value) : b.Tracked (b.after policy plan (.processAt source time) w) := by
  have hup := Assessments.upheld_processAt meets_faulty (fun _ _ => trivial) .of_isRead source
    (fun _ _ _ _ _ => .of_none rfl rfl) (fun hrule h => hd ▸ upheld_open (hrule _ rfl) _ h) time
    (s := (w, plan)) h
  exact (hup.map Reply.report).keeps.state

/-- A status set by hand on what is unresolved makes nothing unresolved. -/
theorem move (h : b.Tracked w) {id : Value} {change : VulnerabilityChange} {u : World b.Store}
    (hres : ∀ x ∈ b.vulnerabilities w.store, b.Names id x → x.status ≠ .text Status.resolved.name)
    (ht : b.view.Turns b.tag b.spot w (.updateVulnerability id change) u) :
    Unrepeated (b.view.records u.store).vulnerabilities.records := by
  refine View.unrepeated_step h.numbered h.unrepeated ht (fun _ _ hd => nomatch hd) ?_
  rintro _ _ s x ⟨⟩ hs hget
  have hx := Shelf.mem_records_of_get? hget
  obtain ⟨st, hst⟩ := h.numbered.named x hx
  have hne := hres x (b.records_vulnerabilities w.store ▸ hx)
    ⟨s, hs, (h.numbered.shelved.id_of_get? hget).2⟩
  refine .inr ((isUnresolved_named hst).trans (congrArg _ (decide_eq_true fun he => hne ?_)))
  rw [hst, he]

theorem call (h : b.Tracked w) {c : Call} (hc : b.Orderly w policy c) :
    b.Tracked (b.after policy plan c w) := by
  refine ⟨keeps_call meets_numbered (fun hr => hr.proper) policy plan h.numbered, ?_⟩
  cases hm : c.isStatusMove with
  | true =>
    cases c <;> try exact Bool.noConfusion hm
    case applyMitigation id valueId description =>
      obtain ⟨change, -, ht⟩ :=
        ((keeps_applyMitigation h.numbered plan id valueId description).map
          Reply.vulnerability).state
      exact h.move hc.2 ht
    case updateStatus id status notes =>
      rcases ((keeps_updateStatus h.numbered plan id policy.enforced status
        notes).map Reply.statusChange).state with hsame | ⟨_, change, -, ht, -⟩
      · have hu := h.unrepeated
        rw [← hsame] at hu
        exact hu
      · exact h.move hc.2 ht
  | false =>
    cases ho : c.isOpening with
    | true =>
      cases c <;> try exact Bool.noConfusion ho
      case createVulnerability => exact hc.elim
      case process source => exact (h.process hc source).unrepeated
      case processAt source time => exact (h.processAt hc source time).unrepeated
    | false => exact (keeps_call meets (fun hr => hr.idle hm ho) policy plan h).unrepeated

end Tracked

theorem Visited.tracked (h : b.Visited b.Orderly w) : b.Tracked w := by
  refine ⟨h.numbered, ?_⟩
  induction h with
  | empty clock issued idOf hinj hwhole => exact b.records_empty ▸ .nil
  | tick clock _ ih => exact ih
  | call policy plan hc hv ih => exact (Tracked.call ⟨hv.numbered, ih⟩ hc).unrepeated

theorem unrepeated_of_visited (h : b.Visited b.Orderly w) : Unrepeated (b.vulnerabilities w.store) :=
  b.records_vulnerabilities w.store ▸ h.tracked.unrepeated

/-! ## A leak found twice -/

/-- The failure of a request that has opened a vulnerability all the same. -/
def lateFailure : List Storage.Mishap :=
  [.passes, .passes, .passes, .passes, .failsAfter ⟨.createVulnerability, .unstated⟩]

/-- An assessment processed twice, at first with that failure. -/
def twice : World Tables :=
  (leak ++ [Call.process (.stored (.text "aaa"))]).foldl
    (fun w c => tables.after {} lateFailure c w) (start .tables)

theorem visited_twice : tables.Visited tables.Orderly twice :=
  .call {} _ rfl (.call {} _ rfl (.call {} _ rfl (.call {} _ rfl (.call {} _ rfl
    (.empty _ 0 letters letters_injective isWhole_letters)))))

theorem unrepeated_twice : Unrepeated (tables.vulnerabilities twice.store) :=
  unrepeated_of_visited visited_twice

/-- The vulnerability that the failure left is found again. -/
example : (tables.vulnerabilities twice.store).length = 1 := by decide +kernel

end Backing

end PropertyRisk
