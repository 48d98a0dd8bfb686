import PropertyRisk.Proofs.Fates
import PropertyRisk.Proofs.Upkeep
import PropertyRisk.Proofs.Windows

/-!
# What processing an assessment does

`Backing.process_exact`: processing an assessment triggers, skips and reports
just what the fates of the listed rules say, whichever failures are injected on
the rules' behalf, and adds to the store just what it reports as created.
-/

namespace PropertyRisk

open Engine
open Engine.Assessments

/-! ## Injected failures -/

namespace Storage

variable {σ : Type} {g : Storage σ} {injected : List Injected} {s : σ}

theorem run_guarded_failing {r : Request α} {failure : StorageFailure}
    (h : Injected.failureOf injected r = some failure) :
    ((g.guarded fun _ => injected).perform r).run s = (.error (.storage failure), s) := by
  simp only [guarded, Op.run, h]

theorem guarded_passing {r : Request α} (h : Injected.failureOf injected r = none) :
    (g.guarded fun _ => injected).perform r = g.perform r := by
  funext s
  simp only [guarded, h]

/-- The failures that are injected on behalf of single rules. -/
def ForRules (injected : List Injected) : Prop :=
  ∀ i ∈ injected, i.operation = .getRule ∨ i.operation = .createVulnerability

theorem ForRules.passing (hi : ForRules injected) {r : Request α} (hget : r.operation ≠ .getRule)
    (hcreate : r.operation ≠ .createVulnerability) :
    (g.guarded fun _ => injected).perform r = g.perform r := by
  refine guarded_passing ?_
  simp only [Injected.failureOf, Option.map_eq_none_iff, List.find?_eq_none]
  intro i hm hs
  have hop : i.operation = r.operation := by
    simp only [Injected.strikes, Bool.and_eq_true, decide_eq_true_eq] at hs
    exact hs.1
  rcases hi i hm with h | h
  · exact hget (hop.symm.trans h)
  · exact hcreate (hop.symm.trans h)

end Storage

/-! ## What is there already -/

namespace Engine.Vulnerabilities

/-- Whether a vulnerability can be found among others is told by their statuses. -/
theorem firstUnresolved_isSome (ruleId : Value) {xs : List Vulnerability}
    (h : ∀ x ∈ xs, ∃ s, x.status = .text s) :
    ∃ found, firstUnresolved ruleId xs = .ok found ∧
      found.isSome = xs.any fun x => x.ruleId.equal ruleId &&
        (decide (x.status = .text Status.opened.name) ||
          decide (x.status = .text Status.inReview.name)) := by
  induction xs with
  | nil => exact ⟨none, rfl, rfl⟩
  | cons x rest ih =>
    obtain ⟨found, hfound, hsome⟩ := ih fun y hy => h y (List.mem_cons_of_mem _ hy)
    obtain ⟨s, hs⟩ := h x List.mem_cons_self
    cases hr : x.ruleId.equal ruleId with
    | false => exact ⟨found, by simp [firstUnresolved, hr, hfound], by simp [hr, hsome]⟩
    | true =>
      have hun : x.isUnresolved = .ok (decide (x.status = .text Status.opened.name) ||
          decide (x.status = .text Status.inReview.name)) := by
        simp [Vulnerability.isUnresolved, hs]
      cases hd : decide (x.status = .text Status.opened.name) ||
          decide (x.status = .text Status.inReview.name) with
      | true =>
        rw [hd] at hun
        exact ⟨some x, by simp [firstUnresolved, hr, hun], by simp [hr, hd]⟩
      | false =>
        rw [hd] at hun
        exact ⟨found, by simp [firstUnresolved, hr, hun, hfound], by simp [hr, hd, hsome]⟩

end Engine.Vulnerabilities

/-- A vulnerability as it is opened by a rule on an assessment. -/
def Vulnerability.openedBy (id : String) (rule : Rule) (a : Assessment) (now : String) :
    Vulnerability where
  id := .text id
  ruleId := rule.id
  assessmentId := a.id
  propertyId := a.propertyId
  status := .text Status.opened.name
  detectedAt := .text now
  mitigationTypeId := .null
  mitigationValueId := .null
  mitigationDescription := .null
  notes := .null
  createdAt := .text now
  updatedAt := .text now

/-- The records with some more vulnerabilities. -/
def Memory.adding (m : Memory) (more : Shelf Key Vulnerability) : Memory :=
  { m with vulnerabilities := m.vulnerabilities ++ more }

theorem Memory.records_adding (m : Memory) (more : Shelf Key Vulnerability) :
    (m.adding more).vulnerabilities.records = m.vulnerabilities.records ++ more.records :=
  List.map_append

theorem Memory.adding_adding (m : Memory) (more others : Shelf Key Vulnerability) :
    (m.adding more).adding others = m.adding (more ++ others) := by
  simp only [adding, List.append_assoc]

namespace View

variable {S : Type} {v : View S} {u : World S} {injected : List Injected} {a : Assessment}
  {r : Rule} {i t : String}

variable (law : v.Lawful)
include law

theorem run_findUnresolved (h : v.Ready u) (hst : (v.records u.store).Stamped)
    (hi : Storage.ForRules injected) (hp : v.Settled a.propertyId) (hr : r.id = .text t) :
    ∃ found, (Vulnerabilities.findUnresolved (v.storage.guarded fun _ => injected) r.id
        a.propertyId).run u = (.ok found, u) ∧
      found.isSome = isPending (v.records u.store).vulnerabilities.records a.propertyId r := by
  obtain ⟨xs, hperm, hlist⟩ := law.listForProperty h hst hp
  have hmem (x : Vulnerability) : x ∈ xs ↔ x ∈ (v.records u.store).vulnerabilities.records ∧
      x.propertyId.equal a.propertyId = true := by
    simp [hperm.mem_iff]
  obtain ⟨found, hfound, hsome⟩ := Vulnerabilities.firstUnresolved_isSome r.id
    fun x hx => (h.kept.findings x ((hmem x).mp hx).1).status
  refine ⟨found, ?_, ?_⟩
  · rw [Vulnerabilities.findUnresolved, Vulnerabilities.listForProperty,
      hi.passing (by simp [Request.operation]) (by simp [Request.operation]), Op.run_bind_ok hlist,
      hfound]
    rfl
  · rw [hsome, Bool.eq_iff_iff, isPending, List.any_eq_true, List.any_eq_true]
    have hequal (x : Vulnerability) (hx : x ∈ (v.records u.store).vulnerabilities.records) :
        x.ruleId.equal r.id = decide (x.ruleId = r.id) := by
      obtain ⟨j, -, hj⟩ := (h.kept.findings x hx).ruleId
      simp [hj, hr]
    constructor
    · rintro ⟨x, hx, hq⟩
      obtain ⟨hx, hprop⟩ := (hmem x).mp hx
      exact ⟨x, hx, by simpa [hequal x hx, hprop] using hq⟩
    · rintro ⟨x, hx, hq⟩
      simp only [Bool.and_eq_true] at hq
      exact ⟨x, (hmem x).mpr ⟨hx, hq.1.2⟩, by rw [hequal x hx, hq.1.1, hq.2]; rfl⟩

/-! ## One rule -/

/-- What is known of a world in which an assessment is processed. -/
structure Processing (v : View S) (u : World S) (a : Assessment) (i : String) : Prop
    extends v.Steady u where
  id : a.id = .text i
  stored : (v.records u.store).assessments.get? (.text i) = some a

omit law in
/-- The draft of what a rule opens matters to a failure by its rule only. -/
theorem failureOf_create (injected : List Injected) (r : Rule) (assessmentId p : Value)
    (now : String) : Injected.failureOf injected (.createVulnerability
      { ruleId := r.id, assessmentId, propertyId := p, detectedAt := .text now }) =
        openFailure? injected r :=
  rfl

theorem run_create_failing {failure : StorageFailure}
    (hf : openFailure? injected r = some failure) :
    (Vulnerabilities.create (v.storage.guarded fun _ => injected) r.id a.id a.propertyId .null).run
      u = (.error (.storage failure), u) := by
  refine (Op.run_bind_ok law.now).trans ?_
  exact Storage.run_guarded_failing ((failureOf_create injected r _ _ _).trans hf)

theorem run_create_passing (hu : Processing v u a i)
    (hr : (v.records u.store).rules.get? (.text t) = some r)
    (hf : openFailure? injected r = none) :
    ∃ u', (Vulnerabilities.create (v.storage.guarded fun _ => injected) r.id a.id a.propertyId
          .null).run u =
        (.ok (.openedBy (u.idOf (u.issued + 1)) r a u.clock.text), u') ∧
      v.Steady u' ∧ u'.issued = u.issued + 1 ∧
      v.Becomes u ((v.records u.store).adding [(.text (u.idOf (u.issued + 1)),
        .openedBy (u.idOf (u.issued + 1)) r a u.clock.text)]) u' := by
  obtain ⟨hplain, hid⟩ := hu.ready.kept.rules.id_of_get? hr
  have hai := (hu.ready.kept.assessments.id_of_get? hu.stored).1
  obtain ⟨u', hrun, hissued, hb⟩ := law.createVulnerability hu.ready hu.supplied hplain hai
    (hu.ready.kept_get? hu.stored)
  have hsteady := hu.toSteady.put_opened hplain hai (.inl (Shelf.mem_keys_of_get? hr)) hissued hb
  have hsame : Vulnerability.opened (u.idOf (u.issued + 1)) t i a.propertyId u.clock.text =
      .openedBy (u.idOf (u.issued + 1)) r a u.clock.text := by
    simp only [Vulnerability.opened, Vulnerability.openedBy, hid, hu.id]
  have hnew : (v.records u.store).vulnerabilities.get? (.text (u.idOf (u.issued + 1))) = none :=
    Shelf.get?_eq_none_iff.mpr fun hm =>
      hu.supplied.unused _ (Nat.lt_succ_self _) (.inr (.inl hm))
  rw [hsame] at hrun hb
  rw [Shelf.put_of_new hnew] at hb
  refine ⟨u', ?_, hsteady, hissued, hb⟩
  refine (Op.run_bind_ok law.now).trans ?_
  rw [Storage.guarded_passing ((failureOf_create injected r _ _ _).trans hf), hid, hu.id]
  exact hrun

/-- A vulnerability is opened unless one is pending. -/
theorem run_open (hu : Processing v u a i) (hi : Storage.ForRules injected) (dedupe : Bool)
    (hr : (v.records u.store).rules.get? (.text t) = some r) :
    (open_ (v.storage.guarded fun _ => injected) dedupe a r).run u =
      if dedupe && isPending (v.records u.store).vulnerabilities.records a.propertyId r then
        (.ok none, u)
      else
        (some <$> Vulnerabilities.create (v.storage.guarded fun _ => injected) r.id a.id
          a.propertyId .null).run u := by
  have hid := (hu.ready.kept.rules.id_of_get? hr).2
  cases dedupe with
  | false => rfl
  | true =>
    obtain ⟨found, hfound, hsome⟩ := run_findUnresolved law hu.ready hu.stamped hi
      (hu.ready.kept_get? hu.stored) hid
    refine (Op.run_bind_ok hfound).trans ?_
    rw [← hsome, Bool.true_and]
    cases found <;> rfl

/-- What a rule comes to in the world that it is examined in. -/
theorem run_examine (hu : Processing v u a i) (hi : Storage.ForRules injected) (dedupe : Bool)
    {time : Option String} (hr : (v.records u.store).rules.get? (.text t) = some r)
    (hcand : isCandidate time r = true) (hpart : takesPart time r = .ok (isPresent time r))
    (hj : rereadFailure? injected r = none → isPresent time r = true →
      r.tree.evaluate a.observations = .ok (holdsOn a r)) :
    ∃ u', (examine (v.storage.guarded fun _ => injected) dedupe a time r).run u =
        (.ok ((fateOf injected dedupe (v.records u.store).vulnerabilities.records a time r).verdict r
          (.openedBy (u.idOf (u.issued + 1)) r a u.clock.text)), u') ∧
      if fateOf injected dedupe (v.records u.store).vulnerabilities.records a time r = .created then
        v.Steady u' ∧ u'.issued = u.issued + 1 ∧
          v.Becomes u ((v.records u.store).adding [(.text (u.idOf (u.issued + 1)),
            .openedBy (u.idOf (u.issued + 1)) r a u.clock.text)]) u'
      else u' = u := by
  obtain ⟨hplain, hid⟩ := hu.ready.kept.rules.id_of_get? hr
  unfold examine
  -- the cases are those of a fate, in the order in which the call comes to them
  cases hget : rereadFailure? injected r with
  | some failure =>
    refine ⟨u, ?_, by simp [fateOf, hget, hcand]⟩
    rw [Op.run_bind_ok (Op.run_attempt_storage (Storage.run_guarded_failing hget))]
    simp [fateOf, hget, hcand, Fate.verdict]
  | none =>
    have hread : ((v.storage.guarded fun _ => injected).perform (.getRule r.id)).run u =
        (.ok (some r), u) := by
      rw [Storage.guarded_passing hget, hid, run_getRule_text law hu.ready hplain, hr]
    rw [Op.run_bind_ok (Op.run_attempt_ok hread)]
    simp only [hpart, Op.run_bind, Op.run_ofExcept_ok]
    cases hpresent : isPresent time r with
    | false =>
      exact ⟨u, by simp [fateOf, hget, hpresent, Fate.verdict], by simp [fateOf, hget, hpresent]⟩
    | true =>
      simp only [if_true, judgeRule, judge, hj hget hpresent, Op.run_bind, Op.run_orElse_ok]
      cases hholds : holdsOn a r with
      | false =>
        exact ⟨u, by simp [fateOf, hget, hpresent, hholds, Fate.verdict],
          by simp [fateOf, hget, hpresent, hholds]⟩
      | true =>
        simp only [if_true]
        have hopen := run_open law hu hi dedupe hr
        cases hpending : dedupe &&
            isPending (v.records u.store).vulnerabilities.records a.propertyId r with
        | true =>
          rw [hpending, if_pos rfl] at hopen
          refine ⟨u, ?_, by simp [fateOf, hget, hpresent, hholds, hpending]⟩
          rw [Op.run_bind_ok (Op.run_attempt_ok hopen)]
          simp [fateOf, hget, hpresent, hholds, hpending, Fate.verdict]
        | false =>
          rw [hpending, if_neg Bool.false_ne_true, Op.run_map] at hopen
          cases hf : openFailure? injected r with
          | some failure =>
            rw [run_create_failing law hf] at hopen
            refine ⟨u, ?_, by simp [fateOf, hget, hpresent, hholds, hpending, hf]⟩
            rw [Op.run_bind_ok (Op.run_attempt_storage hopen)]
            simp [fateOf, hget, hpresent, hholds, hpending, hf, Fate.verdict]
          | none =>
            obtain ⟨u', hrun, hu', hissued, hb⟩ := run_create_passing law hu hr hf
            rw [hrun] at hopen
            refine ⟨u', ?_, by simpa [fateOf, hget, hpresent, hholds, hpending, hf] using
              ⟨hu', hissued, hb⟩⟩
            rw [Op.run_bind_ok (Op.run_attempt_ok hopen)]
            simp [fateOf, hget, hpresent, hholds, hpending, hf, Fate.verdict]

/-! ## The loop -/

omit law in
/-- A rule meets the same fate with what another one has opened. -/
theorem fateOf_adding {m : Memory} {key : Key} {x : Vulnerability} {dedupe : Bool}
    {time : Option String} (h : x.ruleId ≠ r.id) :
    fateOf injected dedupe (m.adding [(key, x)]).vulnerabilities.records a time r =
      fateOf injected dedupe m.vulnerabilities.records a time r := by
  refine fateOf_congr ?_
  rw [Memory.records_adding, isPending_append]
  simp [isPending, Shelf.records, h]

/-- What a rule opens after `n` others have opened one vulnerability each. -/
def opening (u : World S) (a : Assessment) (n : Nat) (rule : Rule) : Vulnerability :=
  .openedBy (u.idOf (u.issued + 1 + n)) rule a u.clock.text

/-- What rules open one after another, each under its key. -/
def openings (u : World S) (a : Assessment) (rules : List Rule) : Shelf Key Vulnerability :=
  rules.mapIdx fun n rule => (.text (u.idOf (u.issued + 1 + n)), opening u a n rule)

omit law in
theorem opening_succ {u' : World S} {m : Memory} (hb : v.Becomes u m u')
    (hissued : u'.issued = u.issued + 1) : opening u' a = fun n => opening u a (n + 1) := by
  funext n rule
  have hn : u.issued + 1 + 1 + n = u.issued + 1 + (n + 1) := by omega
  simp only [opening, hb.idOf, hb.clock, hissued, hn]

omit law in
theorem openings_cons {u' : World S} {m : Memory} (hb : v.Becomes u m u')
    (hissued : u'.issued = u.issued + 1) (rule : Rule) (rules : List Rule) :
    openings u a (rule :: rules) =
      (.text (u.idOf (u.issued + 1)), opening u a 0 rule) :: openings u' a rules := by
  have hn (n : Nat) : u.issued + 1 + 1 + n = u.issued + 1 + (n + 1) := by omega
  simp only [openings, List.mapIdx_cons, opening_succ hb hissued, hb.idOf, hissued, hn,
    Nat.add_zero]

theorem run_examineAll (hu : Processing v u a i) (hi : Storage.ForRules injected) (dedupe : Bool)
    {time : Option String} {rs : List Rule} (hnd : (rs.map Rule.id).Nodup)
    (hrs : ∀ r ∈ rs, r ∈ (v.records u.store).rules.records)
    (hcand : ∀ r ∈ rs, isCandidate time r = true)
    (hpart : ∀ r ∈ rs, takesPart time r = .ok (isPresent time r))
    (hj : ∀ r ∈ rs, rereadFailure? injected r = none → isPresent time r = true →
      r.tree.evaluate a.observations = .ok (holdsOn a r)) :
    ∃ u', (examineAll (v.storage.guarded fun _ => injected) dedupe a time rs).run u =
        (.ok (verdictsFrom
          (fateOf injected dedupe (v.records u.store).vulnerabilities.records a time)
          (opening u a) 0 rs), u') ∧
      v.Steady u' ∧
      v.Becomes u ((v.records u.store).adding (openings u a (rs.filter
        (fateOf injected dedupe (v.records u.store).vulnerabilities.records a time · =
          .created)))) u' := by
  -- what is opened for one rule changes no other fate, so each is that of the first world
  induction rs generalizing u with
  | nil =>
    exact ⟨u, rfl, hu.toSteady, by simpa [openings, Memory.adding] using Becomes.refl hu.ready.whole⟩
  | cons r rest ih =>
    obtain ⟨hnew, hnd⟩ := List.nodup_cons.mp (List.map_cons ▸ hnd)
    obtain ⟨t, -, -, hr⟩ := hu.ready.kept.rules.get?_of_mem (hrs r List.mem_cons_self)
    obtain ⟨u₁, hrun, hafter⟩ := run_examine law hu hi dedupe hr (hcand r List.mem_cons_self)
      (hpart r List.mem_cons_self) (hj r List.mem_cons_self)
    have hrest : ∀ q ∈ rest, q ∈ r :: rest := fun q => List.mem_cons_of_mem r
    by_cases hfate : fateOf injected dedupe (v.records u.store).vulnerabilities.records a time r =
        .created
    · rw [if_pos hfate] at hafter
      obtain ⟨hsteady, hissued, hb⟩ := hafter
      have hu₁ : Processing v u₁ a i := ⟨hsteady, hu.id, by rw [hb.records]; exact hu.stored⟩
      obtain ⟨u₂, hrun₂, hsteady₂, hb₂⟩ := ih hu₁ hnd
        (fun q hq => by rw [hb.records]; exact hrs q (hrest q hq))
        (fun q hq => hcand q (hrest q hq)) (fun q hq => hpart q (hrest q hq))
        (fun q hq => hj q (hrest q hq))
      have hsame : ∀ q ∈ rest,
          fateOf injected dedupe (v.records u₁.store).vulnerabilities.records a time q =
            fateOf injected dedupe (v.records u.store).vulnerabilities.records a time q := by
        intro q hq
        rw [hb.records]
        exact fateOf_adding fun he => hnew (List.mem_map.mpr ⟨q, hq, he.symm⟩)
      refine ⟨u₂, ?_, hsteady₂, ?_⟩
      · rw [verdictsFrom_congr hsame, opening_succ hb hissued, verdictsFrom_add 1] at hrun₂
        rw [examineAll, Op.run_bind_ok hrun, Op.run_bind_ok hrun₂, verdictsFrom, if_pos hfate]
        rfl
      · have hfilter : rest.filter (fateOf injected dedupe
              (v.records u₁.store).vulnerabilities.records a time · = .created) =
            rest.filter (fateOf injected dedupe
              (v.records u.store).vulnerabilities.records a time · = .created) :=
          List.filter_congr fun q hq => by rw [hsame q hq]
        rw [hfilter, hb.records, Memory.adding_adding] at hb₂
        rw [List.filter_cons_of_pos (by simpa using hfate), openings_cons hb hissued]
        exact hb.trans hb₂
    · rw [if_neg hfate] at hafter
      subst hafter
      obtain ⟨u₂, hrun₂, hsteady₂, hb₂⟩ := ih hu hnd (fun q hq => hrs q (hrest q hq))
        (fun q hq => hcand q (hrest q hq)) (fun q hq => hpart q (hrest q hq))
        (fun q hq => hj q (hrest q hq))
      refine ⟨u₂, ?_, hsteady₂, ?_⟩
      · rw [examineAll, Op.run_bind_ok hrun, Op.run_bind_ok hrun₂, verdictsFrom, if_neg hfate]
        rfl
      · rw [List.filter_cons_of_neg (by simpa using hfate)]
        exact hb₂

end View

/-! ## Candidates -/

namespace Engine.Assessments

/-- The time at which a call judges the rules: none, or the one it is given, or
that of the assessment. -/
inductive JudgesAt (a : Assessment) : Option Value → Option String → Prop
  | ever : JudgesAt a none none
  | moment {time : Value} {stamp : Time.Stamp} :
      requireStampValue (time.orElse a.assessedAt) = .ok stamp →
      JudgesAt a (some time) (some stamp.text)

/-- Process an assessment, at a time if one is given. -/
def processWhen (g : Storage σ) (dedupe : Bool) (source : AssessmentSource) :
    Option Value → Op σ ProcessReport
  | none => process g dedupe source
  | some time => processAt g dedupe source time

section
variable {a : Assessment} {time : Option Value} {instant : Option String} {rule : Rule}
  {rules : List Rule}

theorem isCandidate_of_readable (hr : rule.window.Readable) (t : Time.Stamp) :
    rule.window.containsValue (.text t.text) = .ok (isCandidate (some t.text) rule) := by
  obtain ⟨b, hb⟩ := hr.contains t
  simp [isCandidate, Window.containsValue, requireStampValue_text, hb]

theorem takesPart_eq (ht : JudgesAt a time instant) (hr : rule.window.Readable) :
    takesPart instant rule = .ok (isPresent instant rule) := by
  unfold takesPart isPresent
  cases ht with
  | ever => cases rule.isActive.holds <;> rfl
  | moment =>
    cases rule.isActive.holds with
    | false => rfl
    | true => simp [isCandidate_of_readable hr]

theorem effectiveAmong_eq (hr : ∀ r ∈ rules, r.window.Readable) (t : Time.Stamp) :
    effectiveAmong (.text t.text) rules = .ok (rules.filter (isCandidate (some t.text))) := by
  induction rules with
  | nil => rfl
  | cons rule rest ih =>
    rw [effectiveAmong, isCandidate_of_readable (hr rule List.mem_cons_self),
      ih fun r hr' => hr r (List.mem_cons_of_mem _ hr')]
    cases hc : isCandidate (some t.text) rule <;> simp [hc]

end

end Engine.Assessments

namespace View

variable {S : Type} {v : View S} {u : World S} {injected : List Injected} {a : Assessment}
  {i : String} {time : Option Value} {instant : Option String}

variable (law : v.Lawful)
include law

theorem run_resolve (hu : v.Processing u a i) (hi : Storage.ForRules injected)
    {source : AssessmentSource} (hs : source = .stored (.text i) ∨ source = .record a) :
    (resolve (v.storage.guarded fun _ => injected) source).run u = (.ok a, u) := by
  rcases hs with rfl | rfl
  · have hplain := (hu.ready.kept.assessments.id_of_get? hu.stored).1
    have hget := run_getAssessment_text law hu.ready hplain
    rw [hu.stored] at hget
    rw [resolve, Assessments.get, hi.passing (by simp [Request.operation])
      (by simp [Request.operation]), Op.run_bind_ok hget]
    rfl
  · rfl

/-- Both ways to process judge the candidates among the listed rules. -/
theorem run_processWhen (hu : v.Processing u a i) (hi : Storage.ForRules injected) (dedupe : Bool)
    {source : AssessmentSource} (hs : source = .stored (.text i) ∨ source = .record a)
    (ht : JudgesAt a time instant) {rs : List Rule} (hr : ∀ r ∈ rs, r.window.Readable)
    (hlist : (v.storage.perform .listRules).run u = (.ok rs, u)) :
    (processWhen (v.storage.guarded fun _ => injected) dedupe source time).run u =
      (report a.id <$> examineAll (v.storage.guarded fun _ => injected) dedupe a instant
        (rs.filter (isCandidate instant))).run u := by
  have hresolve := run_resolve law hu hi hs
  cases ht with
  | ever =>
    have hall : rs.filter (isCandidate none) = rs := by simp [isCandidate]
    rw [hall, processWhen, process, Op.run_bind_ok hresolve,
      hi.passing (by simp [Request.operation]) (by simp [Request.operation]), Op.run_bind_ok hlist]
    rfl
  | @moment time stamp hstamp =>
    have hheld := holds_of_requireStampValue hstamp
    have hcandidates : (v.storage.perform (.listRulesEffectiveAt (.text stamp.text))).run u =
        (.ok (rs.filter (isCandidate (some stamp.text))), u) := by
      rw [law.listRulesEffectiveAt, Op.run_bind_ok hlist, effectiveAmong_eq hr]
      rfl
    rw [processWhen, processAt, Op.run_bind_ok hresolve]
    simp only [hheld, Bool.not_true, Bool.false_eq_true, if_false]
    rw [hstamp, Op.run_bind_ok (Op.run_ofExcept_ok _ _), hi.passing (by simp [Request.operation])
      (by simp [Request.operation]), Op.run_bind_ok hcandidates]
    rfl

end View

/-! ## The report -/

namespace Engine.Assessments

/-- A report that accounts for the listed rules, each by its fate. -/
structure Accounts (injected : List Injected) (dedupe : Bool) (xs : List Vulnerability)
    (a : Assessment) (instant : Option String) (opened : Nat → Rule → Vulnerability)
    (rules : List Rule) (r : ProcessReport) : Prop where
  assessmentId : r.assessmentId = a.id
  evaluated : r.evaluated =
    rules.countP fun rule => (fateOf injected dedupe xs a instant rule).isEvaluated
  triggered : r.triggered = (rules.filter fun rule => (rereadFailure? injected rule).isNone &&
    isPresent instant rule && holdsOn a rule).map Rule.id
  once : r.triggered.Nodup
  created : r.created =
    (rules.filter (fateOf injected dedupe xs a instant · = .created)).mapIdx opened
  skipped : r.skipped = rules.countP (fateOf injected dedupe xs a instant · = .skipped)
  errors : r.errors = rules.filterMap fun rule =>
    (fateOf injected dedupe xs a instant rule).failure?.map (ItemFailure.mk rule.id)
  /-- A rule that is spared fares as it does without failures. -/
  spared : ∀ rule ∈ rules, rereadFailure? injected rule = none → openFailure? injected rule = none →
    fateOf injected dedupe xs a instant rule = fateOf [] dedupe xs a instant rule
  /-- A rule that triggers is skipped for what was pending before. -/
  duplicates : ∀ rule ∈ rules, rule.id ∈ r.triggered →
    (fateOf injected dedupe xs a instant rule = .skipped ↔
      dedupe = true ∧ isPending xs a.propertyId rule = true)
  balanced : r.triggered.length = r.created.length + r.skipped +
    r.errors.countP (·.failure.operation = .createVulnerability)

variable {injected : List Injected} {dedupe : Bool} {xs : List Vulnerability} {a : Assessment}
  {instant : Option String} {opened : Nat → Rule → Vulnerability} {rules : List Rule}

theorem countP_errors : (rules.filterMap fun rule =>
      (fateOf injected dedupe xs a instant rule).failure?.map (ItemFailure.mk rule.id)).countP
        (·.failure.operation = .createVulnerability) =
    rules.countP fun rule => (fateOf injected dedupe xs a instant rule).isTriggered &&
      (fateOf injected dedupe xs a instant rule).failure?.isSome := by
  induction rules with
  | nil => rfl
  | cons rule rest ih =>
    rw [List.filterMap_cons, List.countP_cons]
    cases hf : (fateOf injected dedupe xs a instant rule).failure? with
    | none => simp [ih]
    | some failure =>
      simp only [Option.map_some, List.countP_cons, ih, Option.isSome_some, Bool.and_true,
        decide_eq_true_eq, failure_fateOf hf]

/-- The sums over the candidates account for all listed rules. -/
theorem accounts_report (hnd : (rules.map Rule.id).Nodup) :
    Accounts injected dedupe xs a instant opened rules (report a.id
      (verdictsFrom (fateOf injected dedupe xs a instant) opened 0
        (rules.filter (isCandidate instant)))) := by
  have htriggered : (rules.filter fun rule =>
        (fateOf injected dedupe xs a instant rule).isTriggered) =
      rules.filter fun rule => (rereadFailure? injected rule).isNone && isPresent instant rule &&
        holdsOn a rule := by
    simp only [isTriggered_fateOf]
  rw [report_verdictsFrom, countP_candidates rfl, filter_candidates rfl,
    filter_candidates (p := (· = .created)) rfl, countP_candidates (p := (· = .skipped)) rfl,
    errors_candidates]
  refine ⟨rfl, rfl, by rw [htriggered], ?_, by simp only [Nat.zero_add], rfl, rfl,
    fun _ _ => fateOf_of_spared, ?_, ?_⟩
  · exact hnd.sublist (List.filter_sublist.map _)
  · intro rule hm ht
    obtain ⟨other, hother, hid⟩ := List.mem_map.mp ht
    obtain ⟨hother, htrigger⟩ := List.mem_filter.mp hother
    cases List.inj_on_of_nodup_map hnd hother hm hid
    rw [fateOf_eq_skipped, htrigger]
    simp
  · rw [List.length_map, List.length_mapIdx, countP_errors, ← List.countP_eq_length_filter,
      ← List.countP_eq_length_filter]
    exact countP_isTriggered rules

end Engine.Assessments

namespace Backing

variable {b : Backing} {w : World b.Store} {a : Assessment} {i : String} {time : Option Value}
  {instant : Option String} {injected : List Injected}

/-- A recorded assessment is processed while the storage fails for some rules,
when they are read again or when they are to open a vulnerability. -/
theorem process_exact (dedupe : Bool) (hw : b.view.Steady w)
    (hwindows : ∀ r ∈ (b.view.records w.store).rules.records, r.window.Readable)
    (ha : (b.storage.perform (.getAssessment (.text i))).run w = (.ok (some a), w))
    {source : AssessmentSource} (hs : source = .stored (.text i) ∨ source = .record a)
    (hi : Storage.ForRules injected) (ht : JudgesAt a time instant)
    (hj : ∀ r ∈ (b.view.records w.store).rules.records, rereadFailure? injected r = none →
      isPresent instant r = true → ∃ t, r.tree.evaluate a.observations = .ok t) :
    ∃ rules report w',
      (b.storage.perform .listRules).run w = (.ok rules, w) ∧
      (processWhen (b.storage.guarded fun _ => injected) dedupe source time).run w =
        (.ok report, w') ∧
      Accounts injected dedupe (b.vulnerabilities w.store) a instant (View.opening w a) rules
        report ∧
      b.view.Becomes w ((b.view.records w.store).adding (View.openings w a (rules.filter
        (fateOf injected dedupe (b.vulnerabilities w.store) a instant · = .created)))) w' := by
  have law := b.lawful
  rw [← b.view_storage] at ha ⊢
  rw [← b.records_vulnerabilities]
  obtain ⟨-, hget⟩ := View.get?_of_getAssessment law hw.ready ha
  have hu : b.view.Processing w a i :=
    ⟨hw, (hw.ready.kept.assessments.id_of_get? hget).2, hget⟩
  obtain ⟨rules, hperm, hlist⟩ := law.listRules hw.ready
  have hmem (r : Rule) : r ∈ rules → r ∈ (b.view.records w.store).rules.records :=
    hperm.mem_iff.mp
  have hnd : (rules.map Rule.id).Nodup :=
    (hperm.map Rule.id).nodup_iff.mpr hw.ready.kept.rules.nodup_ids
  have hcandidate (r : Rule) (hr : r ∈ rules.filter (isCandidate instant)) :
      r ∈ (b.view.records w.store).rules.records :=
    hmem r (List.mem_filter.mp hr).1
  obtain ⟨w', hrun, -, hb⟩ := View.run_examineAll law hu hi dedupe
    (hnd.sublist (List.filter_sublist.map _)) hcandidate (fun r hr => (List.mem_filter.mp hr).2)
    (fun r hr => takesPart_eq ht (hwindows r (hcandidate r hr))) fun r hr hread hpresent => by
      obtain ⟨holds, hholds⟩ := hj r (hcandidate r hr) hread hpresent
      simp [holdsOn, hholds]
  refine ⟨rules, _, w', hlist, ?_, accounts_report hnd, ?_⟩
  · rw [View.run_processWhen law hu hi dedupe hs ht (fun r hr => hwindows r (hmem r hr)) hlist,
      Op.run_map, hrun]
    rfl
  · rw [filter_candidates (p := (· = .created)) rfl] at hb
    exact hb

/-! ## Two rules that ask for water -/

theorem readable_waterRule (id : String) : (waterRule id).window.Readable := by
  have hwritten : Window.Written ⟨.text "2024-01-01T00:00:00+00:00", .null⟩ :=
    ⟨⟨⟨⟨2024, 1, 1, by decide⟩, .midnight, .utc⟩, by decide +kernel⟩, .inl rfl⟩
  exact hwritten.readable

/-- No vulnerability can be opened under the second rule. -/
def floodFails : List Injected := [⟨.createVulnerability, some [.text "flood"], .unstated⟩]

/-- Both rules trigger; one is skipped for what is pending, and the other one is
reported. -/
theorem process_leaks : ∃ report w',
    (processWhen (Memory.storage.guarded fun _ => floodFails) true (.stored (.text "a")) none).run
        leaks = (.ok report, w') ∧
      report.triggered = [.text "leak", .text "flood"] ∧ report.created = [] ∧ report.skipped = 1 ∧
      report.errors = [⟨.text "flood", ⟨.createVulnerability, .unstated⟩⟩] := by
  have hrules : ∀ r ∈ (memory.view.records leaks.store).rules.records,
      r = waterRule "leak" ∨ r = waterRule "flood" := by
    intro r hr
    have hmem : r ∈ [waterRule "leak", waterRule "flood"] := hr
    simpa using hmem
  have hwindows : ∀ r ∈ (memory.view.records leaks.store).rules.records, r.window.Readable := by
    intro r hr
    rcases hrules r hr with rfl | rfl <;> exact readable_waterRule _
  have hj : ∀ r ∈ (memory.view.records leaks.store).rules.records,
      rereadFailure? floodFails r = none → isPresent none r = true →
        ∃ t, r.tree.evaluate [{ typeId := "water", value := .text "yes" }] = .ok t := by
    intro r hr _ _
    rcases hrules r hr with rfl | rfl <;> exact ⟨true, by decide +kernel⟩
  have hi : Storage.ForRules floodFails := by simp [Storage.ForRules, floodFails]
  obtain ⟨rules, report, w', hlist, hrun, haccounts, -⟩ := process_exact (i := "a") true
    steady_leaks hwindows rfl (.inl rfl) hi .ever hj
  cases hlist
  refine ⟨report, w', hrun, ?_, ?_, ?_, ?_⟩
  · rw [haccounts.triggered]
    decide +kernel
  · rw [haccounts.created]
    decide +kernel
  · rw [haccounts.skipped]
    decide +kernel
  · rw [haccounts.errors]
    decide +kernel

end Backing

end PropertyRisk
