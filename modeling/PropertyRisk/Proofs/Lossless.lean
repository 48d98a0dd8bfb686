import PropertyRisk.Proofs.Canonical
import PropertyRisk.Proofs.Processed
import PropertyRisk.Proofs.Retained

/-!
# What was accepted is what is read

`Backing.lossless`: a tree or a list of observations that a call was told is stored is what
tables answer from then on, whatever calls follow and whatever befalls their requests. A rule has
this tree until a call gives it another one, and an assessment stays as it is. It rests on
documents that read back as what they were written from.
-/

namespace PropertyRisk

open Op (Triple Keeps)
open Engine

/-! ## Assessments in tables -/

namespace Tables

variable {w t : World Tables} {s : String} {a : Assessment} {d : AssessmentDraft}

/-- An assessment is kept under an id that was issued, and can be read. -/
structure Recorded (s : String) (a : Assessment) (w : World Tables) : Prop where
  injective : Function.Injective w.idOf
  issued : ∃ n ≤ w.issued, s = w.idOf n
  plain : Text.isWhole s = true
  whole : w.store.assessments.state = .whole
  row : ∃ row, w.store.assessments.rows.get? s = some row ∧ row.toAssessment = .ok a

namespace Recorded

theorem run_getAssessment (h : Recorded s a w) :
    (getAssessment (.text s)).run w = (.ok (some a), w) := by
  obtain ⟨row, hrow, ha⟩ := h.row
  simp only [getAssessment, Op.run_bind, run_selectOne h.whole, name_text h.plain, Except.map,
    Option.bind_some, hrow, ha, Op.run_ofExcept_ok, Op.run_pure]

theorem of_same (h : Recorded s a w) (hf : w.Follows t)
    (hsame : t.store.assessments = w.store.assessments) : Recorded s a t := by
  obtain ⟨n, hn, hs⟩ := h.issued
  exact ⟨hf.idOf ▸ h.injective, ⟨n, Nat.le_trans hn hf.issued, hf.idOf ▸ hs⟩, h.plain,
    hsame ▸ h.whole, hsame ▸ h.row⟩

/-- Another assessment is under another id. -/
theorem keeps_insert (h : Recorded s a w) (d : AssessmentDraft) :
    Keeps (Recorded s a) (insertAssessment d) w := by
  have hissued : w.Follows { w with issued := w.issued + 1 } := ⟨rfl, rfl, Nat.le_succ _⟩
  refine Keeps.of_triple (triple_insertAssessment_row d) ?_ ?_
  · rintro id t ⟨rfl, hwhole, row, -, -, -, -, rfl⟩
    obtain ⟨n, hn, hs⟩ := h.issued
    have hne : s ≠ w.idOf (w.issued + 1) := by
      intro he
      have := h.injective (hs.symm.trans he)
      omega
    have hold := h.of_same hissued rfl
    refine ⟨hold.injective, hold.issued, h.plain, h.whole, ?_⟩
    simpa only [withAssessment, Shelf.get?_put, if_neg hne] using h.row
  · rintro e t rfl
    exact h.of_same hissued rfl

theorem keeps (h : Recorded s a w) (q : Request α) :
    Keeps (Recorded s a) (view.storage.perform q) w := by
  by_cases hadds : q.operation = .createAssessment
  · cases q with
    | createAssessment d =>
      exact (h.keeps_insert d).bind fun _ _ ht =>
        (quiet_reread (r := .getAssessment _) (quiet_getAssessment _)).keeps ht
    | _ => cases hadds
  · have hspares : Spares Tables.assessments q := by
      cases q <;> first
        | exact trivial
        | exact fun _ _ => rfl
        | exact absurd rfl hadds
    exact (keeps_beside hspares).imp fun t ht => h.of_same ht.1 ht.2

end Recorded

/-- What is agreed with tables in which an assessment is kept. -/
def recording (s : String) (a : Assessment) : Contract (World Tables) where
  inv := Recorded s a
  may _ := True

theorem meets_recording : (Backing.storage .tables).faulty.Meets (recording s a).first :=
  (Backing.meets_of_keeps fun _ h => h.keeps _).faulty fun _ _ => trivial

/-- A recorded assessment is answered from then on. -/
theorem Recorded.leads {calls : Backing.History .tables} {u : World Tables} (h : Recorded s a w)
    (hl : Backing.Leads .tables w calls u) : Recorded s a u := by
  refine hl.keeps (Q := fun _ => True) h ?_ ?_ fun _ _ => trivial
  · exact fun v clock hv => ⟨hv.injective, hv.issued, hv.plain, hv.whole, hv.row⟩
  · exact fun v c policy plan _ hv => (Call.upheld (meets_recording (s := s) (a := a))
      (fun _ _ => trivial) (fun _ => trivial) policy (s := (v, plan)) hv).keeps.state

/-- What is recorded can be read, with the observations that were given. -/
theorem triple_createAssessment_recorded (hinj : Function.Injective w.idOf)
    (hplain : ∀ n, Text.isWhole (w.idOf n) = true) (hd : ∀ o ∈ d.observations, o.typeId ≠ "") :
    Triple (view.storage.perform (.createAssessment d)) w
      (fun a t => a.observations = d.observations ∧ ∃ s, a.id = .text s ∧ Recorded s a t)
      (fun _ _ => True) := by
  refine (triple_insertAssessment_row d).answered.bind ?_
  rintro id t ⟨rfl, hwhole, row, hid, -, -, hrow, rfl⟩
  obtain ⟨hread, hnotes⟩ := AssessmentRow.toAssessment_of_noted hrow hd
  have hrecorded : Recorded (w.idOf (w.issued + 1)) row.record
      { w with store := w.store.withAssessment (w.idOf (w.issued + 1)) row,
               issued := w.issued + 1 } := by
    refine ⟨hinj, ⟨_, Nat.le_refl _, rfl⟩, hplain _, hwhole, row, ?_, hread⟩
    simp [withAssessment, Shelf.get?_put]
  exact Triple.of_run (run_reread hrecorded.run_getAssessment)
    ⟨hnotes, _, congrArg Value.text hid, hrecorded⟩

section

variable (hinj : Function.Injective w.idOf) (hplain : ∀ n, Text.isWhole (w.idOf n) = true)
include hinj hplain

theorem triple_recordDraft_recorded {os : List Observation} (hos : ∀ o ∈ os, o.typeId ≠ "")
    (p time : Value) (plan : List Storage.Mishap) :
    Triple (Assessments.recordDraft (Backing.storage .tables).faulty p os time) (w, plan)
      (fun a t => a.observations = os ∧ ∃ s, a.id = .text s ∧ Recorded s a t.1)
      (fun _ _ => True) := by
  unfold Assessments.recordDraft
  split
  · refine Triple.bind_ofExcept (fun _ => trivial) fun stamp _ => ?_
    exact Backing.triple_faulty_of_ok (b := .tables)
      (triple_createAssessment_recorded (d := ⟨p, os, .text stamp.text⟩) hinj hplain hos) plan
  · exact Backing.triple_faulty_of_ok (b := .tables)
      (triple_createAssessment_recorded (d := ⟨p, os, .text ""⟩) hinj hplain hos) plan

theorem triple_record_recorded (p os time : Value) (plan : List Storage.Mishap) :
    Triple (Assessments.record (Backing.storage .tables).faulty p os time) (w, plan)
      (fun a t => readObservationList os = .ok a.observations ∧
        ∃ s, a.id = .text s ∧ Recorded s a t.1) (fun _ _ => True) := by
  refine Triple.bind_ofExcept (fun _ => trivial) fun notes hnotes => ?_
  refine (triple_recordDraft_recorded hinj hplain (typeId_ne_of_readObservationList hnotes)
    p time plan).mono (fun a t ht => ?_) fun _ _ _ => trivial
  exact ⟨by rw [hnotes, ht.1], ht.2⟩

/-- An assessment that is processed before it was stored is recorded first. -/
theorem triple_process_recorded {draft : AssessmentDraft}
    (hd : ∀ o ∈ draft.observations, o.typeId ≠ "") (dedupe : Bool) (time : Option Value)
    (plan : List Storage.Mishap) :
    Triple (Assessments.processWhen (Backing.storage .tables).faulty dedupe (.draft draft) time)
      (w, plan) (fun report t => ∃ s a, report.assessmentId = .text s ∧
        a.observations = draft.observations ∧ Recorded s a t.1) (fun _ _ => True) := by
  have hresolved :=
    triple_recordDraft_recorded hinj hplain hd draft.propertyId draft.assessedAt plan
  -- once it is recorded, whatever is done keeps it
  have hrest {s : String} {a : Assessment} {u : World Tables × List Storage.Mishap}
      (hos : a.observations = draft.observations) (hs : a.id = .text s) (hu : Recorded s a u.1)
      (moment : Option String) (q : Request (List Rule)) :
      Triple (do
        let candidates ← (Backing.storage .tables).faulty.perform q
        return Assessments.report a.id (← Assessments.examineAll (Backing.storage .tables).faulty
          dedupe a moment candidates)) u
        (fun report t => ∃ s a, report.assessmentId = .text s ∧
          a.observations = draft.observations ∧ Recorded s a t.1) (fun _ _ => True) := by
    have hg := meets_recording (s := s) (a := a)
    refine (hg.upheld trivial hu).answered.bind fun candidates t ht => ?_
    have hexamined : (recording s a).first.Upheld (Assessments.examineAll
        (Backing.storage .tables).faulty dedupe a moment candidates) t :=
      Assessments.upheld_examineAll hg (fun _ _ => trivial) (fun _ h =>
        Assessments.upheld_open hg (fun _ _ => trivial) (fun _ _ => trivial) (fun _ _ _ => trivial)
          _ _ _ h) (fun _ _ => trivial) candidates ht
    refine hexamined.answered.bind fun verdicts t ht => ?_
    exact Triple.pure ⟨s, a, hs, hos, ht⟩
  cases time with
  | none => exact hresolved.bind fun a t ⟨hos, s, hs, ht⟩ => hrest hos hs ht none _
  | some time =>
    refine hresolved.bind fun a t ⟨hos, s, hs, ht⟩ => ?_
    simp only
    split
    · exact Triple.throw trivial
    · exact Triple.bind_ofExcept (fun _ => trivial) fun stamp _ => hrest hos hs ht _ _

end

/-! ## What is answered -/

/-- Asked for a rule, tables answer this one, and it is the one with this id on the list. -/
def ShowsRule (s : String) (r : Rule) (w : World Tables) : Prop := ∀ policy,
  ((Call.getRule (.text s)).run policy (Backing.storage .tables)).run w = (.ok (.rule r), w) ∧
    ∃ rs, (Call.listRules.run policy (Backing.storage .tables)).run w = (.ok (.rules rs), w) ∧
      r ∈ rs ∧ ∀ r' ∈ rs, r'.id = .text s → r' = r

def ShowsAssessment (s : String) (a : Assessment) (w : World Tables) : Prop := ∀ policy,
  ((Call.getAssessment (.text s)).run policy (Backing.storage .tables)).run w =
    (.ok (.assessment a), w)

/-- Whatever calls follow, a rule is there until one deletes it, and has this tree unless one was
to give it the tree that it has. -/
def RetainsTree (s : String) (tree : Criteria) (w : World Tables) : Prop :=
  ∀ calls u, Backing.Leads .tables w calls u →
    ((∀ call ∈ calls, ¬Backing.Repeals .tables (.text s) call.2) → ∃ r, ShowsRule s r u) ∧
      ∀ r, ShowsRule s r u →
        r.tree = tree ∨ ∃ call ∈ calls, Backing.Replants .tables s r.tree call.2

/-- Whatever calls follow, an assessment stays as it is. -/
def RetainsAssessment (s : String) (a : Assessment) (w : World Tables) : Prop :=
  ∀ calls u, Backing.Leads .tables w calls u → ShowsAssessment s a u

theorem run_listRules_call (h : RulesInOrder w) (policy : Policy) :
    ∃ rs, rs.Perm (records w.store).rules.records ∧
      (Call.listRules.run policy (Backing.storage .tables)).run w = (.ok (.rules rs), w) := by
  have hlist : (Rules.list (Backing.storage .tables)).run w = _ := run_listRules h.reads
  refine ⟨_, ?_, (Op.run_map _ _ _).trans (by rw [hlist]; rfl)⟩
  rw [records, Shelf.records_relabel]
  exact (List.mergeSort_perm _ _).map _

theorem showsRule_of_ruleAt {r : Rule} (h : RulesInOrder w)
    (hr : (records w.store).rules.get? (.text s) = some r) : ShowsRule s r w := by
  intro policy
  obtain ⟨hplain, hid⟩ := h.rules.id_of_get? hr
  obtain ⟨rs, hperm, hlist⟩ := run_listRules_call h policy
  have hmem := Shelf.mem_records_of_get? hr
  refine ⟨(Backing.run_getRule_call (b := .tables) h hplain policy).trans ?_, rs, hlist,
    hperm.mem_iff.mpr hmem, fun r' hr' hid' => ?_⟩
  · rw [show Backing.ruleAt .tables w s = some r from hr]
    rfl
  · exact h.rules.eq_of_id (hperm.mem_iff.mp hr') hmem (hid'.trans hid.symm)

theorem ruleAt_of_showsRule {r : Rule} (h : RulesInOrder w) (hs : Text.isWhole s = true)
    (hr : ShowsRule s r w) : Backing.ruleAt .tables w s = some r := by
  have hrun := (Backing.run_getRule_call (b := .tables) h hs {}).symm.trans (hr {}).1
  cases hat : Backing.ruleAt .tables w s with
  | none =>
    rw [hat] at hrun
    cases congrArg Prod.fst hrun
  | some r' =>
    rw [hat] at hrun
    cases congrArg Prod.fst hrun
    rfl

theorem retainsTree_of_planted {tree : Criteria} {r : Rule} (hw : Backing.Traceable .tables w)
    (h : Backing.Planted .tables s tree r w) : RetainsTree s tree w := by
  intro calls u hl
  obtain ⟨hu, ha⟩ := hl.traceable_accounted hw
  have hrooted := h.toRooted.leads hl
  refine ⟨fun hno => ?_, fun r' hr' => ?_⟩
  · rcases ha.rules.old (.text s) r h.there with ⟨r', hr', -⟩ | ⟨-, call, hcall, hrepeals⟩
    · exact ⟨r', showsRule_of_ruleAt hu.inOrder hr'⟩
    · exact absurd hrepeals (hno call hcall)
  · obtain ⟨n, -, hs⟩ := hrooted.issued
    exact hrooted.tree r' (ruleAt_of_showsRule hu.inOrder (hs ▸ hrooted.plain n) hr')

theorem Recorded.retained (h : Recorded s a w) : RetainsAssessment s a w := by
  intro calls u hl policy
  have hget : ((Backing.storage .tables).perform (.getAssessment (.text s))).run u =
      (.ok (some a), u) := (h.leads hl).run_getAssessment
  refine (Op.run_map _ _ _).trans ?_
  rw [Assessments.get, Op.run_bind_ok hget]
  rfl

/-- What calls made in a state with these policies, and this befalling their requests, are told
is stored, is what tables answer from then on. -/
structure Retentive (w : World Tables) (policy : Policy) (plan : List Storage.Mishap) : Prop where
  created : ∀ input r x,
    ((Call.createRule input).run policy (Backing.storage .tables).faulty).run (w, plan) =
      (.ok (.rule r), x) →
    ∃ s tree, r.id = .text s ∧ Criteria.read input.tree = .ok tree ∧ r.tree = tree ∧
      RetainsTree s tree x.1
  changed : ∀ id patch document v x, patch.tree = some document →
    ((Call.updateRule id patch).run policy (Backing.storage .tables).faulty).run (w, plan) =
      (.ok (.ruleUpdate v), x) →
    ∃ s tree, v.rule.id = .text s ∧ Criteria.read document = .ok tree ∧ v.rule.tree = tree ∧
      RetainsTree s tree x.1
  recorded : ∀ p os time a x,
    ((Call.recordAssessment p os time).run policy (Backing.storage .tables).faulty).run (w, plan) =
      (.ok (.assessment a), x) →
    readObservationList os = .ok a.observations ∧
      ∃ s, a.id = .text s ∧ RetainsAssessment s a x.1
  processed : ∀ (draft : AssessmentDraft) time report x,
    (∀ o ∈ draft.observations, ∃ document, Observation.ofValue? document = some o) →
    (Assessments.processWhen (Backing.storage .tables).faulty policy.dedupe (.draft draft) time).run
      (w, plan) = (.ok report, x) →
    ∃ s a, report.assessmentId = .text s ∧ a.observations = draft.observations ∧
      RetainsAssessment s a x.1

/-- The state in which a call has ended. -/
theorem traceable_of_run {policy : Policy} {plan : List Storage.Mishap} {c : Call}
    {answer : Except Error Reply} {x : World Tables × List Storage.Mishap}
    (h : Backing.Traceable .tables w)
    (hrun : (c.run policy (Backing.storage .tables).faulty).run (w, plan) = (answer, x)) :
    Backing.Traceable .tables x.1 := by
  have hx : Backing.after .tables policy plan c w = x.1 := congrArg (·.2.1) hrun
  exact hx ▸ (h.after policy plan c).1

theorem retentive (h : Backing.Traceable .tables w) (policy : Policy)
    (plan : List Storage.Mishap) : Retentive w policy plan where
  created input r x hrun := by
    obtain ⟨r', hcreate, hr⟩ := Op.of_run_map hrun
    cases hr
    obtain ⟨tree, s, hread, hid, hplanted⟩ :=
      (Backing.triple_create_planted input plan h.stocked).ok hcreate
    exact ⟨s, tree, hid, hread, hplanted.tree r hplanted.there,
      retainsTree_of_planted (traceable_of_run h hrun) hplanted⟩
  changed id patch document v x hpatch hrun := by
    obtain ⟨v', hupdate, hv⟩ := Op.of_run_map hrun
    cases hv
    obtain ⟨tree, s, hread, -, hplanted⟩ :=
      (Backing.triple_update_planted id hpatch plan h.stocked).ok hupdate
    have hx := traceable_of_run h hrun
    exact ⟨s, tree, (hx.inOrder.rules.id_of_get? hplanted.there).2, hread,
      hplanted.tree v.rule hplanted.there, retainsTree_of_planted hx hplanted⟩
  recorded p os time a x hrun := by
    obtain ⟨a', hrecord, ha⟩ := Op.of_run_map hrun
    cases ha
    obtain ⟨hos, s, hid, hrecorded⟩ := (triple_record_recorded h.numbered.injective
      h.numbered.plain p os time plan).ok hrecord
    exact ⟨hos, s, hid, hrecorded.retained⟩
  processed draft time report x hdraft hrun := by
    have hnamed : ∀ o ∈ draft.observations, o.typeId ≠ "" := fun o ho =>
      (hdraft o ho).elim fun _ hread => Observation.typeId_ne_of_ofValue? hread
    obtain ⟨s, a, hid, hos, hrecorded⟩ := (triple_process_recorded h.numbered.injective
      h.numbered.plain hnamed policy.dedupe time plan).ok hrun
    exact ⟨s, a, hid, hos, hrecorded.retained⟩

end Tables

namespace Backing

/-- Trees and observations that were read are read again from what they are written as, and what
is in canonical form is written as it was. So whatever calls tables have answered, what they are
told from then on to store they answer as it was accepted. -/
theorem lossless {w : World Tables} (h : tables.Visited (fun _ _ _ => True) w) (policy : Policy)
    (plan : List Storage.Mishap) :
    (∀ document tree, Criteria.read document = .ok tree →
      Criteria.read tree.toValue = .ok tree) ∧
    (∀ document, Criteria.Canonical document →
      ∃ tree, Criteria.read document = .ok tree ∧ tree.toValue.Same document) ∧
    (∀ document o, Observation.ofValue? document = some o →
      Observation.ofValue? o.toValue = some o) ∧
    Tables.Retentive w policy plan :=
  ⟨fun _ _ hread => Criteria.read_toValue (Criteria.readable_of_read hread),
    fun _ => Criteria.toValue_of_canonical,
    fun _ _ hread => Observation.ofValue?_toValue (Observation.typeId_ne_of_ofValue? hread),
    Tables.retentive h.traceable policy plan⟩

/-- A rule given with its tree wrapped, names in lower case, a list as a value, and a field that
nothing reads. -/
def wrapped : RuleInput where
  name := .text "Seep"
  description := .text "Water seeps in."
  tree := .object [("root", .object [("conditions", .list
    [.object [("value", .list [.int 1, .text "two"]), ("observation_type_id", .text "a"),
      ("operator", .text "in"), ("colour", .text "blue")]]), ("join_operator", .text "or")])]

def seep : Rule where
  id := .text "aaaa"
  name := .text "Seep"
  description := .text "Water seeps in."
  tree := ⟨.or, [.leaf { typeId := "a", operator := .isIn, value := .text "1,two" }]⟩
  effectiveFrom := .text "2024-01-01T00:00:00+00:00"
  effectiveTo := .null
  isActive := .bool true
  version := 1
  createdAt := .text "2024-01-01T00:00:00+00:00"
  updatedAt := "2024-01-01T00:00:00+00:00"

/-- The answer to the call that creates it, and the state it leaves. -/
def seeping : Except Error Reply × (World Tables × List Storage.Mishap) :=
  ((Call.createRule wrapped).run {} tables.storage.faulty).run (ended, [])

theorem lossless_seep : seeping.1 = .ok (.rule seep) ∧
    Tables.RetainsTree "aaaa" seep.tree seeping.2.1 := by
  have hvisited : tables.Visited (fun _ _ _ => True) ended :=
    .call _ _ trivial <| .call _ _ trivial <| .call _ _ trivial <| .call _ _ trivial <|
      .empty _ 0 letters letters_injective isWhole_letters
  have hanswer : seeping.1 = .ok (.rule seep) := by decide +kernel
  obtain ⟨-, -, -, hretentive⟩ := lossless hvisited {} []
  obtain ⟨s, tree, hid, -, rfl, hretains⟩ :=
    hretentive.created wrapped seep seeping.2 (Prod.ext hanswer rfl)
  exact ⟨hanswer, Value.text.inj hid ▸ hretains⟩

end Backing

end PropertyRisk
