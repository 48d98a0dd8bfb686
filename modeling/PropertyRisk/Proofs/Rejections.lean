import PropertyRisk.Proofs.Founded
import PropertyRisk.Proofs.Legible
import PropertyRisk.Proofs.QuietCalls

/-!
# Rejected calls

`Backing.store_eq_of_rejected`: a call that is rejected has changed nothing,
whatever befell its requests, except that processing a draft at a time that cannot
be read has recorded the draft. Each call looks before it writes, and what it asks
once it has begun to write is refused by no rejection.
-/

namespace PropertyRisk

open Op (Triple Keeps)
open Engine

/-- A call that only looks asks only for reads. -/
theorem Engine.Call.Asks.isRead {c : Call} (hc : c.isRead) {r : Request α} (h : c.Asks r) :
    r.isRead := by
  have hno {p : Call → Bool} (hp : ∀ d, d.isRead = true → p d = false) (h : p c = true) : False :=
    Bool.noConfusion (h.symm.trans (hp c hc))
  cases r <;> try rfl
  case createRule =>
    obtain ⟨⟨input, rfl⟩, -⟩ := h
    exact Bool.noConfusion hc
  case updateRule =>
    obtain ⟨⟨patch, rfl⟩, -⟩ := h
    exact Bool.noConfusion hc
  case deleteRule id =>
    obtain rfl : c = .deleteRule id := h
    exact Bool.noConfusion hc
  case createVulnerability =>
    exact (hno (fun d hd => by cases d <;> first | rfl | cases hd) h.1).elim
  case updateVulnerability =>
    obtain ⟨hm, -⟩ := h
    cases c <;> first
      | exact Bool.noConfusion hc
      | exact hm.elim
  case deleteVulnerability =>
    exact (hno (fun d hd => by cases d <;> first | rfl | cases hd) h).elim
  case createAssessment =>
    cases c <;> first
      | exact Bool.noConfusion hc
      | exact False.elim h
  all_goals exact (hno (fun d hd => by cases d <;> first | rfl | cases hd) (h rfl)).elim

theorem Engine.Assessments.takesPart_of_readable {time : Option String} {rule : Rule}
    (ht : ∀ t, time = some t → ∃ stamp, requireStampValue (.text t) = .ok stamp)
    (hr : rule.window.Readable) : ∃ takes, takesPart time rule = .ok takes := by
  unfold takesPart
  split
  · exact ⟨false, rfl⟩
  cases time with
  | none => exact ⟨true, rfl⟩
  | some t =>
    obtain ⟨stamp, hstamp⟩ := ht t rfl
    simp only [Window.containsValue, hstamp]
    exact hr.contains stamp

namespace Backing

variable {b : Backing} {w : World b.Store} {plan : List Storage.Mishap}

/-! ## Looking -/

/-- What is agreed with a store that is only looked at. -/
def looking (b : Backing) (w : World b.Store) : Contract (World b.Store) :=
  { inv := (· = w), may := fun r => r.isRead = true }

theorem meets_looking (w : World b.Store) : b.storage.faulty.Meets (b.looking w).first :=
  (meets_of_keeps fun hr h => (b.view_storage ▸ b.lawful.reads hr).keeps h).faulty
    fun _ _ => trivial

/-! ## What the engine asks of a store that can be read -/

/-- What is agreed with a store that can be read. -/
def reading (b : Backing) : Contract (World b.Store) where
  inv := b.view.Legible
  may := b.view.Sane
  gives := View.Tells
  errs e _ := e.isRejection = false

theorem meets_reading : b.storage.faulty.Meets b.reading.first :=
  Storage.Meets.faulty
    { now := fun w => ⟨w.clock, b.view_storage ▸ b.lawful.now⟩
      perform := fun hr h => b.perform_legible h hr
      overflow := fun _ => rfl }
    fun _ _ => rfl

theorem sane_of_isRead {r : Request α} (hr : r.isRead) (ht : r.isTimed = false) : b.view.Sane r := by
  cases r <;> first
    | exact Bool.noConfusion hr
    | exact Bool.noConfusion ht
    | exact trivial
    | skip
  case listVulnerabilitiesForProperty p until_ =>
    cases until_ with
    | none => exact trivial
    | some => exact Bool.noConfusion ht

/-! ## Calls that look before they write -/

/-- The operation leaves the store so that it can be read, and if it is rejected
it leaves the store as it was. -/
def Clean (b : Backing) (x : Op (World b.Store × List Storage.Mishap) α) (w : World b.Store)
    (plan : List Storage.Mishap) : Prop :=
  Triple x (w, plan) (fun _ t => b.view.Legible t.1)
    (fun e t => (e.isRejection = true → t.1.store = w.store) ∧ b.view.Legible t.1)

namespace Clean

variable {x : Op (World b.Store × List Storage.Mishap) α}
  {f : α → Op (World b.Store × List Storage.Mishap) β} {P : α → Prop}

theorem of_looking (h : b.view.Legible w) (hx : (b.looking w).first.Upheld x (w, plan)) :
    b.Clean x w plan :=
  hx.mono (fun _ _ ht => ht ▸ h) fun _ _ ht => ⟨fun _ => congrArg World.store ht.2, ht.2 ▸ h⟩

theorem of_reading (hx : b.reading.first.Upheld x (w, plan)) : b.Clean x w plan :=
  hx.mono (fun _ _ ht => ht) fun _ _ ht => ⟨fun he => Bool.noConfusion (ht.1.symm.trans he), ht.2⟩

theorem map (g : α → β) (hx : b.Clean x w plan) : b.Clean (g <$> x) w plan := Triple.map g hx

theorem throw {e : Error} (h : b.view.Legible w) :
    b.Clean (throw e : Op (World b.Store × List Storage.Mishap) α) w plan :=
  Triple.throw ⟨fun _ => rfl, h⟩

/-- First a look, then the rest. -/
theorem bind_triple (h : b.view.Legible w)
    (hx : Triple x (w, plan) (fun a t => P a ∧ t.1 = w) (fun _ t => True ∧ t.1 = w))
    (hf : ∀ a rest, P a → b.Clean (f a) w rest) : b.Clean (x >>= f) w plan := by
  refine Triple.bind (hx.mono (fun _ _ ht => ht) fun _ _ ⟨_, ht⟩ => ⟨fun _ => ?_, ?_⟩) ?_
  · rw [ht]
  · exact ht ▸ h
  · rintro a ⟨u, rest⟩ ⟨ha, rfl⟩
    exact hf a rest ha

theorem bind_looking (h : b.view.Legible w) (hx : (b.looking w).first.Upheld x (w, plan))
    (hf : ∀ a rest, b.Clean (f a) w rest) : b.Clean (x >>= f) w plan :=
  bind_triple (P := fun _ => True) h (hx.mono (fun _ _ ht => ⟨trivial, ht⟩) fun _ _ ht => ht)
    fun a rest _ => hf a rest

theorem bind_ofExcept (h : b.view.Legible w) {r : Except Error α}
    (hf : ∀ a, r = .ok a → b.Clean (f a) w plan) : b.Clean (Op.ofExcept r >>= f) w plan :=
  Triple.bind_check (fun _ _ => ⟨fun _ => rfl, h⟩) hf

/-- First a write, then what is not rejected. -/
theorem bind_reading (hx : b.Clean x w plan)
    (hf : ∀ a t, b.view.Legible t.1 → b.reading.first.Upheld (f a) t) : b.Clean (x >>= f) w plan :=
  Triple.bind hx fun a t ht => (hf a t ht).mono (fun _ _ ht => ht)
    fun _ _ ht => ⟨fun he => Bool.noConfusion (ht.1.symm.trans he), ht.2⟩

end Clean

theorem read_looking {r : Request α} (hr : r.isRead) :
    (b.looking w).first.Upheld (b.storage.faulty.perform r) (w, plan) :=
  (meets_looking w).upheld hr rfl

theorem clean_of_accepted {e : Error} {t : World b.Store × List Storage.Mishap}
    (ht : e.isRejection = false ∧ b.view.Legible t.1) :
    (e.isRejection = true → t.1.store = w.store) ∧ b.view.Legible t.1 :=
  ⟨fun he => Bool.noConfusion (ht.1.symm.trans he), ht.2⟩

/-- What is known of a request that passes is known of it where it may fail. -/
theorem triple_asked (h : b.view.Legible w) {r : Request α} (hr : b.view.Sane r)
    {Q : α → World b.Store → Prop}
    (hq : Triple (b.storage.perform r) w Q (fun _ _ => True)) :
    Triple (b.storage.faulty.perform r) (w, plan) (fun a t => Q a t.1 ∧ b.view.Legible t.1)
      (fun e t => (e.isRejection = true → t.1.store = w.store) ∧ b.view.Legible t.1) :=
  (Storage.triple_faulty ((b.perform_legible h hr).and hq) plan (fun _ => ⟨⟨rfl, h⟩, trivial⟩)
    (fun _ _ _ ht => ⟨⟨rfl, ht.1.2⟩, trivial⟩) fun _ _ _ ht => ⟨⟨rfl, ht.1.2⟩, trivial⟩).mono
      (fun _ _ ht => ⟨ht.2, ht.1.2⟩) fun _ _ ht => clean_of_accepted ht.1

theorem clean_perform (h : b.view.Legible w) {r : Request α} (hr : b.view.Sane r) :
    b.Clean (b.storage.faulty.perform r) w plan :=
  .of_reading (meets_reading.upheld hr h)

/-! ## Rules -/

theorem clean_createRule (h : b.view.Legible w) (input : RuleInput) :
    b.Clean (Rules.create b.storage.faulty input) w plan := by
  unfold Rules.create
  refine Clean.bind_ofExcept h fun name _ => Clean.bind_ofExcept h fun description _ => ?_
  refine Triple.bind_run (run_now_faulty w plan) (Clean.bind_ofExcept h fun window hwindow => ?_)
  split
  · refine Clean.bind_triple h (Rules.triple_checkTree_of_meets (meets_looking w)
      (fun hr => hr) (fun _ _ => trivial) input.tree rfl) fun tree rest htree => ?_
    exact clean_perform h ⟨⟨_, htree.1⟩, Rules.written_of_checkWindow hwindow⟩
  · exact Clean.throw h

/-- What is agreed with a store while the vulnerabilities of a rule are judged
again: the rules are not touched. -/
def judging (b : Backing) (rules : Shelf Key Rule) : Contract (World b.Store) where
  inv u := b.view.Legible u ∧ (b.view.records u.store).rules = rules
  may r := b.view.Sane r ∧ (r.isRead = true ∨ r.operation = .deleteVulnerability)
  errs e _ := e.isRejection = false

theorem meets_judging (rules : Shelf Key Rule) : b.storage.faulty.Meets (b.judging rules).first := by
  refine Storage.Meets.faulty ⟨fun w => ⟨w.clock, b.view_storage ▸ b.lawful.now⟩, ?_, fun _ => rfl⟩
    fun _ _ => rfl
  rintro α r u ⟨hr, hkind⟩ ⟨hu, rfl⟩
  have hrules : Keeps (fun t => (b.view.records t.store).rules = (b.view.records u.store).rules)
      (b.storage.perform r) u := by
    cases hread : r.isRead with
    | true => exact (b.view_storage ▸ b.lawful.reads hread).keeps rfl
    | false =>
      have hdelete := hkind.resolve_left fun h => Bool.noConfusion (hread.symm.trans h)
      cases r <;> first
        | exact b.keeps_deleteVulnerability _ hu
        | cases hdelete
  exact ((b.perform_legible hu hr).and hrules).mono (fun _ _ ht => ⟨trivial, ht.1.2, ht.2⟩)
    fun _ _ ht => ⟨ht.1.1, ht.1.2, ht.2⟩

/-- The rule that is to be changed has been read from the store. -/
theorem clean_apply (h : b.view.Legible w) {current : Rule} {id : Value} {s : String}
    (hn : b.view.name .updateRule id = .ok (some s))
    (hget : (b.view.records w.store).rules.get? (.text s) = some current) {patch : RulePatch}
    {window : Option Window} {isActive : Option Bool} (hlabels : Rules.patchProblems patch = [])
    (hwindow : ∀ w, window = some w → ∃ start stop, Rules.checkWindow start stop = .ok (.ok w)) :
    b.Clean (Rules.apply b.storage.faulty current id patch window isActive) w plan := by
  refine Clean.bind_triple h (Rules.triple_checkTrees_of_meets (meets_looking w)
    (fun hr => hr) (fun _ _ => trivial) patch.tree rfl) fun tree rest htree => ?_
  refine Clean.bind_looking h (read_looking rfl) fun xs rest => ?_
  refine Triple.bind ((Rules.upheld_reconcileAll (meets_judging (b.view.records w.store).rules)
    (fun hr ht => ⟨sane_of_isRead hr ht, .inl hr⟩) _ xs (fun _ _ => ⟨trivial, .inr rfl⟩)
    ⟨h, rfl⟩).mono (fun _ _ ht => ht) fun _ _ ht => clean_of_accepted ⟨ht.1, ht.2.1⟩) ?_
  rintro outcomes ⟨u, rest⟩ ⟨hu, hrules⟩
  refine Triple.bind ((Storage.triple_faulty (b.triple_updateRule hu hn (hrules ▸ hget)
    (RulePatch.Passes.isChecked ⟨hlabels, hwindow, htree.1, htree.2⟩ _)) rest (fun _ => ⟨rfl, hu⟩)
    (fun _ _ _ ht => ⟨rfl, ht.2⟩) fun _ _ _ ht => ⟨rfl, ht.2⟩).mono (fun _ _ ht => ht)
      fun _ _ => clean_of_accepted) ?_
  rintro found t ⟨hfound, ht⟩
  cases found
  · exact absurd rfl hfound
  · exact Triple.pure ht

theorem clean_updateRule (h : b.view.Legible w) (id : Value) (patch : RulePatch) :
    b.Clean (Rules.update b.storage.faulty id patch) w plan := by
  unfold Rules.update
  split
  · exact Clean.throw h
  refine Clean.bind_ofExcept h fun _ _ => ?_
  have hget : Triple (Rules.get b.storage.faulty id) (w, plan)
      (fun current t => (∃ s, b.view.name .updateRule id = .ok (some s) ∧
        (b.view.records w.store).rules.get? (.text s) = some current) ∧ t.1 = w)
      (fun _ t => True ∧ t.1 = w) := by
    refine Triple.bind (Storage.triple_faulty (Q := fun found t => (∀ r, found = some r → ∃ s,
      b.view.name .updateRule id = .ok (some s) ∧
        (b.view.records w.store).rules.get? (.text s) = some r) ∧ t = w)
      (E := fun _ t => True ∧ t = w) (Triple.of_run_except (b.run_getRule id h)
        (fun found hf => ⟨fun r hr => ?_, rfl⟩) fun _ _ => ⟨trivial, rfl⟩) plan (fun _ => ⟨trivial, rfl⟩) (fun _ _ _ ht => ⟨trivial, ht.2⟩)
        fun _ _ _ ht => ht) ?_
    · obtain ⟨s, hs, hsr⟩ := View.look_eq_some.mp (hr ▸ hf)
      exact ⟨s, b.lawful.name_congr _ hs, hsr⟩
    · rintro (_ | current) t ⟨hcurrent, ht⟩
      · exact Triple.throw ⟨trivial, ht⟩
      · exact Triple.pure ⟨hcurrent current rfl, ht⟩
  refine Clean.bind_triple h hget ?_
  rintro current rest ⟨s, hn, hsr⟩
  refine Clean.bind_ofExcept h fun window hwindow => ?_
  split
  · exact clean_apply h hn hsr ‹_› nofun
  · refine clean_apply h hn hsr ‹_› fun w hw => ?_
    cases hw
    exact ⟨_, _, Rules.patchedWindow_eq_some hwindow⟩
  · exact Clean.throw h

theorem clean_deleteRule (h : b.view.Legible w) (id : Value) :
    b.Clean (Rules.delete b.storage.faulty id) w plan := by
  refine Clean.bind_ofExcept h fun _ _ => Clean.bind_looking h (read_looking rfl) fun _ rest => ?_
  refine Triple.bind (triple_asked (r := .deleteRule id) h trivial (b.triple_deleteRule id h)) ?_
  rintro deleted t ⟨hno, ht⟩
  cases deleted
  · exact Triple.throw ⟨fun _ => hno rfl, ht⟩
  · exact Triple.pure ht

/-! ## Vulnerabilities -/

theorem clean_change (h : b.view.Legible w) (id : Value) {change : VulnerabilityChange}
    (hc : change.IsWorkflow) : b.Clean (Vulnerabilities.change b.storage.faulty id change) w plan := by
  refine Triple.bind (triple_asked (r := .updateVulnerability id change) h hc
    (b.triple_updateVulnerability id h hc)) ?_
  rintro found t ⟨hnone, ht⟩
  cases found
  · exact Triple.throw ⟨fun _ => congrArg World.store (hnone rfl), ht⟩
  · exact Triple.pure ht

theorem clean_assignMitigationType (h : b.view.Legible w) (id typeId : Value) :
    b.Clean (Vulnerabilities.assignMitigationType b.storage.faulty id typeId) w plan := by
  refine Clean.bind_looking h (read_looking rfl) fun found rest => ?_
  cases found with
  | none => exact Clean.throw h
  | some type =>
    exact Triple.bind_run (run_now_faulty w rest)
      (clean_change h id ⟨rfl, rfl, rfl, rfl, rfl, nofun, rfl⟩)

theorem clean_applyMitigation (h : b.view.Legible w) (id valueId description : Value) :
    b.Clean (Vulnerabilities.applyMitigation b.storage.faulty id valueId description) w plan :=
  Triple.bind_run (run_now_faulty w plan)
    (clean_change h id ⟨rfl, rfl, rfl, rfl, rfl, fun _ hx => ⟨_, (Option.some.inj hx).symm⟩, rfl⟩)

theorem clean_updateStatus (h : b.view.Legible w) (enforced : Bool) (id status notes : Value) :
    b.Clean (Vulnerabilities.updateStatus b.storage.faulty enforced id status notes) w plan := by
  unfold Vulnerabilities.updateStatus
  simp only
  split
  · exact Clean.throw h
  refine Clean.bind_looking h (Vulnerabilities.upheld_get (meets_looking w) (fun _ _ => trivial)
    (fun hr => hr) id rfl) fun current rest => ?_
  refine Clean.bind_ofExcept h fun backwards _ => ?_
  split
  · exact Clean.throw h
  refine Triple.bind_run (run_now_faulty w rest) (Triple.bind (clean_change h id
    ⟨rfl, rfl, rfl, rfl, rfl, fun _ hx => ⟨_, (Option.some.inj hx).symm⟩, rfl⟩) fun _ _ ht => ?_)
  exact Triple.pure ht

theorem clean_create (h : b.view.Legible w) (ruleId assessmentId p typeId : Value) :
    b.Clean (Vulnerabilities.create b.storage.faulty ruleId assessmentId p typeId) w plan :=
  Triple.bind_run (run_now_faulty w plan) (clean_perform h ⟨rfl, w.clock, rfl⟩)

/-! ## Assessments -/

/-- The time of what is recorded can be read. -/
theorem triple_recordDraft (h : b.view.Legible w) (plan : List Storage.Mishap)
    {os : List Observation} (hos : b.view.Noted os) (p time : Value) :
    Triple (Assessments.recordDraft b.storage.faulty p os time) (w, plan)
      (fun a t => (∃ stamp, requireStampValue a.assessedAt = .ok stamp) ∧ b.view.Legible t.1)
      (fun e t => (e.isRejection = true → t.1.store = w.store) ∧ b.view.Legible t.1) := by
  have hrecord {d : AssessmentDraft} (hd : b.view.Noted d.observations)
      (ht : d.assessedAt = .text "" ∨ ∃ stamp : Time.Stamp, d.assessedAt = .text stamp.text) :
      Triple (b.storage.faulty.perform (.createAssessment d)) (w, plan)
        (fun a t => (∃ stamp, requireStampValue a.assessedAt = .ok stamp) ∧ b.view.Legible t.1)
        (fun e t => (e.isRejection = true → t.1.store = w.store) ∧ b.view.Legible t.1) :=
    (meets_reading.perform (r := .createAssessment d) (s := (w, plan)) hd h).mono
      (fun _ _ ha => ⟨ha.1 ht, ha.2⟩) fun _ _ => clean_of_accepted
  unfold Assessments.recordDraft
  split
  · exact Triple.bind_check (fun _ _ => ⟨fun _ => rfl, h⟩) fun stamp _ =>
      hrecord hos (.inr ⟨stamp, rfl⟩)
  · exact hrecord hos (.inl rfl)

theorem clean_recordDraft (h : b.view.Legible w) {os : List Observation} (hos : b.view.Noted os)
    (p time : Value) : b.Clean (Assessments.recordDraft b.storage.faulty p os time) w plan :=
  (triple_recordDraft h plan hos p time).mono (fun _ _ ht => ht.2) fun _ _ ht => ht

theorem upheld_examineAll (dedupe : Bool) (a : Assessment) {time : Option String}
    (htime : ∀ t, time = some t → ∃ stamp, requireStampValue (.text t) = .ok stamp)
    (candidates : List Rule) {t : World b.Store × List Storage.Mishap} (h : b.view.Legible t.1) :
    b.reading.first.Upheld (Assessments.examineAll b.storage.faulty dedupe a time candidates) t := by
  refine Assessments.upheld_examineAll meets_reading sane_of_isRead (fun _ h => ?_)
    (fun {_ rule _ _} hrule he => ?_) candidates h
  · exact Assessments.upheld_open meets_reading sane_of_isRead (fun _ _ => rfl) (fun _ hd _ => hd)
      dedupe a _ h
  · obtain ⟨takes, htakes⟩ := Assessments.takesPart_of_readable htime (hrule rule rfl)
    exact nomatch htakes.symm.trans he

theorem legible_of_resolve (h : b.view.Legible w) {source : AssessmentSource}
    (hnoted : ∀ d, source = .draft d → b.view.Noted d.observations) :
    b.Clean (Assessments.resolve b.storage.faulty source) w plan := by
  cases source with
  | stored id =>
    exact .of_looking h
      (Assessments.upheld_get (meets_looking w) (fun _ _ => trivial) (fun hr => hr) id rfl)
  | record a => exact Triple.pure h
  | draft d => exact clean_recordDraft h (hnoted d rfl) _ _

theorem clean_process (h : b.view.Legible w) (dedupe : Bool) {source : AssessmentSource}
    (hnoted : ∀ d, source = .draft d → b.view.Noted d.observations) :
    b.Clean (Assessments.process b.storage.faulty dedupe source) w plan := by
  have hnone (t : String) (ht : none = some t) : ∃ stamp, requireStampValue (.text t) = .ok stamp :=
    nomatch ht
  refine (legible_of_resolve h hnoted).bind_reading fun a t ht => ?_
  refine (meets_reading.upheld (r := .listRules) trivial ht).bind fun candidates t ht => ?_
  exact (upheld_examineAll dedupe a hnone candidates ht).bind fun _ _ ht => .pure ht

/-- Once its time has been read, processing is not rejected. -/
theorem upheld_effective (dedupe : Bool) (a : Assessment) (stamp : Time.Stamp)
    {t : World b.Store × List Storage.Mishap} (h : b.view.Legible t.1) :
    b.reading.first.Upheld (do
      let candidates ← b.storage.faulty.perform (.listRulesEffectiveAt (.text stamp.text))
      return Assessments.report a.id
        (← Assessments.examineAll b.storage.faulty dedupe a (some stamp.text) candidates)) t := by
  have hread : requireStampValue (.text stamp.text) = .ok stamp := requireStampValue_text stamp
  refine (meets_reading.upheld (r := .listRulesEffectiveAt (.text stamp.text)) ⟨stamp, hread⟩ h).bind
    fun candidates t h => ?_
  refine (upheld_examineAll dedupe a (fun s hs => ?_) candidates h).bind fun _ _ h => .pure h
  cases hs
  exact ⟨stamp, hread⟩

/-- Where nothing is recorded first, the time is looked at before anything else. -/
theorem clean_processAt (h : b.view.Legible w) (dedupe : Bool) {source : AssessmentSource}
    (hsource : ∀ d, source ≠ .draft d) (time : Value) :
    b.Clean (Assessments.processAt b.storage.faulty dedupe source time) w plan := by
  have hresolve : (b.looking w).first.Upheld (Assessments.resolve b.storage.faulty source) (w, plan) := by
    cases source with
    | stored id =>
      exact Assessments.upheld_get (meets_looking w) (fun _ _ => trivial) (fun hr => hr) id rfl
    | record a => exact .pure rfl
    | draft d => exact absurd rfl (hsource d)
  refine Clean.bind_looking h hresolve fun a rest => ?_
  simp only
  split
  · exact Clean.throw h
  exact Clean.bind_ofExcept h fun stamp _ => .of_reading (upheld_effective dedupe a stamp h)

/-- What a call was rejected for when it had recorded a draft. -/
structure Late (b : Backing) (w : World b.Store) (plan : List Storage.Mishap) (c : Call)
    (d : AssessmentDraft) (time : Value) (e : Error) (t : World b.Store) : Prop where
  call : c = .processAt (.draft d) time
  given : time.holds = true
  unread : requireStampValue time = .error e
  recorded : t = ((Assessments.recordDraft b.storage.faulty d.propertyId d.observations
    d.assessedAt).run (w, plan)).2.1

/-- A draft is recorded before the time is looked at. -/
theorem triple_processAt_draft (h : b.view.Legible w) (dedupe : Bool) {d : AssessmentDraft}
    (hd : b.view.Noted d.observations) (time : Value) :
    Triple (Assessments.processAt b.storage.faulty dedupe (.draft d) time) (w, plan)
      (fun _ t => b.view.Legible t.1)
      (fun e t => ((e.isRejection = true → t.1.store = w.store) ∨
        b.Late w plan (.processAt (.draft d) time) d time e t.1) ∧ b.view.Legible t.1) := by
  have hrecord := triple_recordDraft h plan hd d.propertyId d.assessedAt
  rcases hrun : (Assessments.recordDraft b.storage.faulty d.propertyId d.observations
    d.assessedAt).run (w, plan) with ⟨e | a, t⟩
  · obtain ⟨hclean, ht⟩ := hrecord.error hrun
    exact Triple.of_run_error (Op.run_bind_error hrun) ⟨.inl hclean, ht⟩
  · obtain ⟨⟨own, hown⟩, ht⟩ := hrecord.ok hrun
    refine Triple.bind_run hrun ?_
    simp only
    have hafter (e : Error) (u : World b.Store × List Storage.Mishap)
        (hu : e.isRejection = false ∧ b.view.Legible u.1) :
        ((e.isRejection = true → u.1.store = w.store) ∨
          b.Late w plan (.processAt (.draft d) time) d time e u.1) ∧ b.view.Legible u.1 :=
      ⟨.inl (clean_of_accepted hu).1, hu.2⟩
    have htail (stamp : Time.Stamp) := (upheld_effective dedupe a stamp ht).mono
      (fun _ _ ht => ht) hafter
    cases hholds : time.holds with
    | false =>
      have hgiven : time.orElse a.assessedAt = a.assessedAt := by simp [Value.orElse, hholds]
      rw [hgiven, holds_of_requireStampValue hown]
      exact Triple.bind_check (fun e he => by cases hown.symm.trans he) fun stamp _ => htail stamp
    | true =>
      have hgiven : time.orElse a.assessedAt = time := by simp [Value.orElse, hholds]
      rw [hgiven, hholds]
      refine Triple.bind_check (fun e he => ⟨.inr ⟨rfl, hholds, he, ?_⟩, ht⟩) fun stamp _ => htail stamp
      rw [hrun]

/-! ## Catalogs -/

theorem clean_createObservationType (h : b.view.Legible w) (name kind description multiple : Value) :
    b.Clean (Catalogs.createObservationType b.storage.faulty name kind description multiple) w plan :=
  Clean.bind_ofExcept h fun _ _ => clean_perform h trivial

theorem clean_createObservationValue (h : b.view.Legible w) (typeId value description : Value) :
    b.Clean (Catalogs.createObservationValue b.storage.faulty typeId value description) w plan := by
  refine Clean.bind_looking h (read_looking rfl) fun found rest => ?_
  split
  · exact Clean.throw h
  · exact clean_perform h trivial

theorem clean_createMitigationValue (h : b.view.Legible w)
    (typeId value description category : Value) :
    b.Clean (Catalogs.createMitigationValue b.storage.faulty typeId value description category) w
      plan := by
  refine Clean.bind_looking h (read_looking rfl) fun found rest => ?_
  cases found with
  | none => exact Clean.throw h
  | some type => exact Clean.bind_ofExcept h fun _ _ => clean_perform h trivial

/-! ## Calls -/

/-- A call that hands over no observations but such as are read back as they were
written. -/
def Noted (b : Backing) : Call → Prop
  | .process (.draft d) | .processAt (.draft d) _ => b.view.Noted d.observations
  | _ => True

theorem triple_call (h : b.view.Legible w) {c : Call} (hc : b.Noted c) (policy : Policy) :
    Triple (c.run policy b.storage.faulty) (w, plan) (fun _ t => b.view.Legible t.1)
      (fun e t => ((e.isRejection = true → t.1.store = w.store) ∨
        ∃ d time, b.Late w plan c d time e t.1) ∧ b.view.Legible t.1) := by
  have hclean {c : Call} (hx : b.Clean (c.run policy b.storage.faulty) w plan) :
      Triple (c.run policy b.storage.faulty) (w, plan) (fun _ t => b.view.Legible t.1)
        (fun e t => ((e.isRejection = true → t.1.store = w.store) ∨
          ∃ d time, b.Late w plan c d time e t.1) ∧ b.view.Legible t.1) :=
    hx.mono (fun _ _ ht => ht) fun _ _ ht => ⟨.inl ht.1, ht.2⟩
  cases hread : c.isRead with
  | true =>
    exact hclean (.of_looking h (Call.upheld (meets_looking w) (fun _ _ => trivial)
      (fun hr => hr.isRead hread) policy rfl))
  | false =>
    cases c <;> try exact Bool.noConfusion hread
    case createRule input => exact hclean ((clean_createRule h input).map _)
    case updateRule id patch => exact hclean ((clean_updateRule h id patch).map _)
    case deleteRule id => exact hclean ((clean_deleteRule h id).map _)
    case createVulnerability ruleId assessmentId p typeId =>
      exact hclean ((clean_create h ruleId assessmentId p typeId).map _)
    case assignMitigationType id typeId =>
      exact hclean ((clean_assignMitigationType h id typeId).map _)
    case applyMitigation id valueId description =>
      exact hclean ((clean_applyMitigation h id valueId description).map _)
    case updateStatus id status notes =>
      exact hclean ((clean_updateStatus h policy.enforced id status notes).map _)
    case reevaluateProperty p =>
      exact hclean (.map _ (.of_reading (Vulnerabilities.upheld_reevaluate meets_reading
        sane_of_isRead p (fun _ _ _ _ _ _ => trivial) h)))
    case recordAssessment p observations time =>
      refine hclean (.map _ (Clean.bind_ofExcept h fun os hos => ?_))
      exact clean_recordDraft h (b.lawful.noted_of_read hos) p time
    case process source =>
      refine hclean ((clean_process h policy.dedupe fun d hd => ?_).map _)
      subst hd
      exact hc
    case processAt source time =>
      cases source with
      | draft d =>
        refine Triple.map _ ((triple_processAt_draft h policy.dedupe hc time).mono
          (fun _ _ ht => ht) fun e t ht => ⟨ht.1.imp_right fun hl => ⟨d, time, hl⟩, ht.2⟩)
      | stored id => exact hclean ((clean_processAt h policy.dedupe (by simp) time).map _)
      | record a => exact hclean ((clean_processAt h policy.dedupe (by simp) time).map _)
    case createObservationType name kind description multiple =>
      exact hclean ((clean_createObservationType h name kind description multiple).map _)
    case createObservationValue typeId value description =>
      exact hclean ((clean_createObservationValue h typeId value description).map _)
    case createMitigationType name description multiple =>
      exact hclean (.map _ (clean_perform h trivial))
    case createMitigationValue typeId value description category =>
      exact hclean ((clean_createMitigationValue h typeId value description category).map _)

theorem Visited.legible (h : b.Visited (fun _ _ c => b.Noted c) w) : b.view.Legible w := by
  induction h with
  | empty clock issued idOf hinj hwhole =>
    have hrecords : b.view.records b.empty = {} := b.records_empty
    exact ⟨b.whole_empty, fun n => b.plain_of_isWhole (hwhole n),
      hrecords ▸ ⟨.nil, nofun⟩, hrecords ▸ ⟨.nil, nofun⟩⟩
  | tick clock _ ih => exact ⟨ih.whole, ih.plain, ih.rules, ih.found⟩
  | call policy plan hc _ ih =>
    exact Keeps.state (Keeps.of_triple (triple_call ih hc policy) (fun _ _ ht => ht) fun _ _ ht => ht.2)

/-- A rejected call has changed nothing, unless it has recorded a draft before it
looked at a time that cannot be read. -/
theorem store_eq_of_rejected (h : b.Visited (fun _ _ c => b.Noted c) w) {c : Call} (hc : b.Noted c)
    (policy : Policy) (plan : List Storage.Mishap) {e : Error}
    (hrun : ((c.run policy b.storage.faulty).run (w, plan)).1 = .error e)
    (he : e.isRejection = true) :
    (b.after policy plan c w).store = w.store ∨
      ∃ d time, b.Late w plan c d time e (b.after policy plan c w) := by
  rcases hr : (c.run policy b.storage.faulty).run (w, plan) with ⟨_ | _, t⟩
  · rw [hr] at hrun
    cases hrun
    unfold after
    rw [hr]
    exact ((triple_call h.legible hc policy).error hr).1.imp_left fun hs => hs he
  · rw [hr] at hrun
    cases hrun

/-! ## A status and a time that nobody can read -/

/-- A vulnerability that was opened. -/
def opened : World Tables :=
  tables.after {} [] (.createVulnerability (.text "r") (.text "v") (.int 7) .null) (start .tables)

theorem visited_opened : tables.Visited (fun _ _ c => tables.Noted c) opened :=
  .call _ _ trivial (.empty _ 0 letters letters_injective isWhole_letters)

theorem store_eq_opened :
    (tables.after {} [] (.updateStatus (.text "a") (.text "closed") .null) opened).store =
      opened.store :=
  (store_eq_of_rejected visited_opened (c := .updateStatus (.text "a") (.text "closed") .null) trivial
    {} [] (e := .invalid (.status "closed")) (by decide +kernel) rfl).resolve_right
    fun ⟨_, _, h⟩ => nomatch h.call

/-- Processing a draft at a time that nobody can read. -/
def unread : Call := .processAt (.draft ⟨.int 7, [], .text ""⟩) (.text "garbage")

/-- The draft stays recorded. -/
theorem recorded_unread :
    (∃ e, ((unread.run {} memory.storage.faulty).run (start .memory, [])).1 = .error e ∧
      e.isRejection = true) ∧
    (start .memory).store.assessments.records = [] ∧
    ((memory.after {} [] unread (start .memory)).store.assessments.records.map (·.id)) =
      [.text "a"] := by
  refine ⟨⟨.invalid (.timestamp "garbage"), ?_, rfl⟩, rfl, ?_⟩ <;> decide +kernel

end Backing

end PropertyRisk
