import PropertyRisk.Proofs.Entries

/-!
# What processing enters in the ledger

When an assessment is processed, each rule that takes part and triggers is entered as
having found something on it, unless that is a duplicate. Only a rule that cannot be
judged comes between, and then the call says that a number is too large.
-/

namespace PropertyRisk

open Op (Triple Keeps)
open Engine
open Engine.Assessments

/-- More vulnerabilities, found as the entry says. -/
theorem Memory.ledger_adding {m : Memory} {ids : List String} {dedupe : Bool}
    {more : Shelf Key Vulnerability} {k : Nat} {instant : Option String}
    (hmore : ∀ n s j, ids[n]? = some s → ((∃ x ∈ more.records, x.ruleId = .text s ∧
        ∃ c, m.assessments.records[j]? = some c ∧ x.assessmentId = c.id) ↔
      j = k ∧ ∃ c, (m.ledger ids).Strikes k instant n c ∧
        ¬(dedupe = true ∧ (m.ledger ids).Pending n c.propertyId))) :
    (m.adding more).ledger ids = (m.ledger ids).enter dedupe (.processed k instant) := by
  have hrecords := m.records_adding more
  refine Ledger.ext rfl rfl (funext fun n => funext fun j => propext ⟨?_, ?_⟩)
  · rintro ⟨s, x, hs, hx⟩
    rcases List.mem_append.mp (hrecords ▸ hx.stored) with hstored | hnew
    · exact .inl ⟨s, x, hs, hstored, hx.ruleId, hx.assessmentId⟩
    · exact .inr ((hmore n s j hs).mp ⟨x, hnew, hx.ruleId, hx.assessmentId⟩)
  · rintro (⟨s, x, hs, hx⟩ | hentered)
    · exact ⟨s, x, hs, hrecords ▸ List.mem_append_left _ hx.stored, hx.ruleId, hx.assessmentId⟩
    · obtain ⟨-, c, ⟨rule, hrule, -⟩, -⟩ := id hentered
      obtain ⟨s, -, hs, -⟩ := Memory.ledger_rule_eq_some.mp hrule
      obtain ⟨x, hx, hruleId, hassessmentId⟩ := (hmore n s j hs).mpr hentered
      exact ⟨s, x, hs, hrecords ▸ List.mem_append_right _ hx, hruleId, hassessmentId⟩

/-- Whether every rule that takes part can be judged when an assessment is processed. -/
def Ledger.Decides (L : Ledger) (k : Nat) (instant : Option String) : Prop :=
  ∀ (n : Nat) (rule : Rule) (a : Assessment), L.rules[n]? = some (some rule) →
    L.assessments[k]? = some a → isPresent instant rule = true →
      ∃ t, rule.tree.evaluate a.observations = .ok t

theorem Ledger.Decides.of_below {K L : Ledger} {k : Nat} {instant : Option String}
    (h : L.Decides k instant) (hb : K.Below L) : K.Decides k instant :=
  fun n rule a hrule ha => h n rule a (hb.rules ▸ hrule) (hb.assessments ▸ ha)

namespace View

variable {S : Type} {v : View S} {ids : List String} {w w' u : World S} {n k : Nat} {s : String}
  {x : Vulnerability} {a : Assessment} {r : Rule} {time : Option Value} {instant : Option String}
  {dedupe : Bool}

theorem mem_openings {rules : List Rule} : x ∈ (openings u a rules).records ↔
    ∃ i r, rules[i]? = some r ∧ x = opening u a i r := by
  simp only [openings, Shelf.records, List.mem_map, List.mem_mapIdx, List.getElem?_eq_some_iff]
  constructor
  · rintro ⟨_, ⟨i, hi, rfl⟩, rfl⟩
    exact ⟨i, _, ⟨hi, rfl⟩, rfl⟩
  · rintro ⟨i, r, ⟨hi, rfl⟩, rfl⟩
    exact ⟨_, ⟨i, hi, rfl⟩, rfl⟩

namespace Charted

theorem decides_iff (h : v.Charted ids w)
    (ha : (v.records w.store).assessments.records[k]? = some a) :
    ((v.records w.store).ledger ids).Decides k instant ↔
      ∀ r ∈ (v.records w.store).rules.records, isPresent instant r = true →
        ∃ t, r.tree.evaluate a.observations = .ok t := by
  constructor
  · intro hall r hr hpresent
    obtain ⟨s, -, -, hget⟩ := h.ready.kept.rules.get?_of_mem hr
    obtain ⟨n, hs⟩ := List.getElem?_of_mem (h.listed s (Shelf.mem_keys_of_get? hget))
    exact hall n r.unnamed a.unnamed (Memory.ledger_rule_eq_some.mpr ⟨s, r, hs, hget, rfl⟩)
      (Memory.ledger_assessment.mpr ⟨a, ha, rfl⟩) hpresent
  · rintro hall n _ _ hrule hassessment hpresent
    obtain ⟨s, r, hs, hget, rfl⟩ := Memory.ledger_rule_eq_some.mp hrule
    obtain ⟨c, hc, rfl⟩ := Memory.ledger_assessment.mp hassessment
    cases Option.some.inj (hc.symm.trans ha)
    exact hall r (Shelf.mem_records_of_get? hget) hpresent

/-- What the rules that are struck open is what the ledger says. -/
theorem ledger_openings (h : v.Charted ids w)
    (ha : (v.records w.store).assessments.records[k]? = some a) {rs : List Rule}
    (hrs : ∀ r, r ∈ rs ↔ r ∈ (v.records w.store).rules.records) :
    ((v.records w.store).adding (openings w a (rs.filter (fateOf [] dedupe
      (v.records w.store).vulnerabilities.records a instant · = .created)))).ledger ids =
      ((v.records w.store).ledger ids).enter dedupe (.processed k instant) := by
  refine Memory.ledger_adding fun n s j hs => ?_
  constructor
  -- what is opened was opened by a rule with the fate to do so
  · rintro ⟨x, hx, hruleId, c, hc, hassessmentId⟩
    obtain ⟨i, r, hr, rfl⟩ := mem_openings.mp hx
    obtain ⟨hr, hfate⟩ := List.mem_filter.mp (List.mem_of_getElem? hr)
    obtain ⟨hpresent, hholds, hnew⟩ := fateOf_eq_created.mp (of_decide_eq_true hfate)
    have hid : r.id = .text s := hruleId
    obtain ⟨t, -, ht, hget⟩ := h.ready.kept.rules.get?_of_mem ((hrs r).mp hr)
    cases Value.text.inj (ht.symm.trans hid)
    refine ⟨(h.position ha hc hassessmentId.symm).1, a.unnamed,
      ⟨r.unnamed, Memory.ledger_rule_eq_some.mpr ⟨s, r, hs, hget, rfl⟩,
        Memory.ledger_assessment.mpr ⟨a, ha, rfl⟩, hpresent, hholds⟩, fun hpending => hnew ?_⟩
    exact ⟨hpending.1, (h.isPending_iff hs hid a.propertyId).mpr hpending.2⟩
  -- a rule that the ledger lets strike is among those that are listed, with that fate
  · rintro ⟨rfl, _, ⟨_, hrule, hassessment, hpresent, hholds⟩, hnew⟩
    obtain ⟨t, r, ht, hget, rfl⟩ := Memory.ledger_rule_eq_some.mp hrule
    obtain ⟨c, hc, rfl⟩ := Memory.ledger_assessment.mp hassessment
    cases Option.some.inj (ht.symm.trans hs)
    cases Option.some.inj (hc.symm.trans ha)
    have hid := (h.ready.kept.rules.id_of_get? hget).2
    have hcreated : fateOf [] dedupe (v.records w.store).vulnerabilities.records a instant r =
        .created :=
      fateOf_eq_created.mpr ⟨hpresent, hholds, fun hpending =>
        hnew ⟨hpending.1, (h.isPending_iff hs hid a.propertyId).mp hpending.2⟩⟩
    have hmem : r ∈ rs.filter (fateOf [] dedupe (v.records w.store).vulnerabilities.records a
        instant · = .created) :=
      List.mem_filter.mpr ⟨(hrs r).mpr (Shelf.mem_records_of_get? hget), decide_eq_true hcreated⟩
    obtain ⟨i, hi⟩ := List.getElem?_of_mem hmem
    exact ⟨_, mem_openings.mpr ⟨i, r, hi, rfl⟩, hid, a, ha, rfl⟩

/-- What is to be shown of vulnerabilities that are opened. -/
theorem moves_of_adding (h : v.Charted ids w) {more : Shelf Key Vulnerability}
    (hb : v.Becomes w ((v.records w.store).adding more) w') (hsound : v.Sound [] w')
    (hkeys : ∀ t, Key.text t ∈ more.keys → ∃ n, t = w.idOf n)
    (hrules : ∀ x ∈ more.records, ∃ t, x.ruleId = .text t ∧
      Key.text t ∈ (v.records w.store).rules.keys)
    (hopened : ∀ x ∈ more.records, x.status = .text Status.opened.name) : v.Moves w ids w' := by
  have hmem (x : Vulnerability) (hx : x ∈ ((v.records w.store).adding more).vulnerabilities.records) :
      x ∈ (v.records w.store).vulnerabilities.records ∨ x ∈ more.records :=
    List.mem_append.mp (Memory.records_adding _ more ▸ hx)
  refine h.moves_of_becomes hb hsound h.windows (fun s hs => ?_) (fun _ hk => hk) (fun x hx => ?_)
    rfl rfl List.prefix_rfl
  · rcases hs with hs | hs | hs | ⟨x, hx, hs⟩
    · exact .inl (.inl hs)
    · obtain ⟨p, hp, hk⟩ := List.mem_map.mp hs
      rcases List.mem_append.mp hp with hp | hp
      · exact .inl (.inr (.inl (List.mem_map.mpr ⟨p, hp, hk⟩)))
      · exact .inr (hkeys s (List.mem_map.mpr ⟨p, hp, hk⟩))
    · exact .inl (.inr (.inr (.inl hs)))
    · rcases hmem x hx with hx | hx
      · exact .inl (.inr (.inr (.inr ⟨x, hx, hs⟩)))
      · obtain ⟨t, ht, hk⟩ := hrules x hx
        cases Value.text.inj (ht.symm.trans hs)
        exact .inl (.inl hk)
  · exact (hmem x hx).elim (h.opened x) (hopened x)

/-- What is processed is stored. -/
theorem processing (h : v.Charted ids w)
    (ha : (v.records w.store).assessments.records[k]? = some a) : ∃ i, v.Processing w a i := by
  obtain ⟨i, -, hid, hget⟩ := h.ready.kept.assessments.get?_of_mem (List.mem_of_getElem? ha)
  exact ⟨i, h.toSteady, hid, hget⟩

end Charted

variable (law : v.Lawful)
include law

theorem keeps_processWhen_sound (h : v.Sound [] w) {i : String} (hu : v.Processing w a i)
    (dedupe : Bool) (time : Option Value) :
    Keeps (v.Sound []) (processWhen v.storage dedupe (.record a) time) w := by
  have hnoted : v.Sound [a] w := h.note ⟨i, hu.id, hu.stored⟩
  have hless (u : World S) (hu : v.Sound [a] u) : v.Sound [] u := hu.mono (List.nil_subset _)
  have hamong : AssessmentSource.Among [a] (.record a) := List.mem_cons_self
  cases time with
  | none => exact (keeps_process law hnoted dedupe hamong).imp hless
  | some time =>
    exact (keeps_processAt law hnoted dedupe hamong time).imp hless

/-- Where every rule that takes part can be judged, what they find is entered. -/
theorem enters_process (h : v.Charted ids w) (dedupe : Bool)
    (ha : (v.records w.store).assessments.records[k]? = some a) (ht : JudgesAt a time instant)
    (hj : ((v.records w.store).ledger ids).Decides k instant) :
    v.Enters dedupe ids w [.processed k instant] ids
      ((processWhen v.storage dedupe (.record a) time).run w).2 := by
  obtain ⟨i, hu⟩ := h.processing ha
  have hi : Storage.ForRules [] := nofun
  have hsound := (keeps_processWhen_sound law h.toSound hu dedupe time).state
  obtain ⟨rs, hperm, hlist⟩ := law.listRules h.ready
  have hmem (r : Rule) (hr : r ∈ rs.filter (isCandidate instant)) :
      r ∈ (v.records w.store).rules.records :=
    hperm.mem_iff.mp (List.mem_filter.mp hr).1
  obtain ⟨w', hrun, -, hb⟩ := run_examineAll law hu hi dedupe
    (((hperm.map Rule.id).nodup_iff.mpr h.ready.kept.rules.nodup_ids).sublist
      (List.filter_sublist.map _)) hmem (fun r hr => (List.mem_filter.mp hr).2)
    (fun r hr => takesPart_eq ht (h.windows r (hmem r hr))) fun r hr _ hpresent => by
      obtain ⟨holds, hholds⟩ := (h.decides_iff ha).mp hj r (hmem r hr) hpresent
      simp [holdsOn, hholds]
  have hprocess : (processWhen v.storage dedupe (.record a) time).run w = _ :=
    run_processWhen law hu hi dedupe (.inr rfl) ht
      (fun r hr => h.windows r (hperm.mem_iff.mp hr)) hlist
  rw [Op.run_map, hrun] at hprocess
  rw [hprocess] at hsound ⊢
  rw [filter_candidates (p := (· = .created)) rfl] at hb
  refine ⟨h.moves_of_adding hb hsound (fun t ht => ?_) (fun x hx => ?_) fun x hx => ?_,
    List.prefix_rfl, ?_⟩
  · obtain ⟨p, hp, hk⟩ := List.mem_map.mp ht
    obtain ⟨i, hi, rfl⟩ := List.mem_mapIdx.mp hp
    exact ⟨_, (Key.text.inj hk).symm⟩
  · obtain ⟨i, r, hr, rfl⟩ := mem_openings.mp hx
    obtain ⟨t, -, hid, hget⟩ := h.ready.kept.rules.get?_of_mem
      (hperm.mem_iff.mp (List.mem_filter.mp (List.mem_of_getElem? hr)).1)
    exact ⟨t, hid, Shelf.mem_keys_of_get? hget⟩
  · obtain ⟨i, r, -, rfl⟩ := mem_openings.mp hx
    rfl
  · rw [hb.records]
    exact h.ledger_openings ha fun r => hperm.mem_iff

/-! ## What cannot be judged -/

theorem run_examine_tooLarge (hu : v.Ready u) {e : TooLarge} (dedupe : Bool)
    (hr : r ∈ (v.records u.store).rules.records) (hpart : takesPart instant r = .ok true)
    (herror : r.tree.evaluate a.observations = .error e) :
    ((examine v.storage dedupe a instant r).run u).1 = .error (.fault .tooLarge) := by
  obtain ⟨t, ht, hid, hget⟩ := hu.kept.rules.get?_of_mem hr
  have hread := run_getRule_text law hu ht
  rw [hget, ← hid] at hread
  rw [examine, Op.run_bind_ok (Op.run_attempt_ok hread)]
  simp only [hpart]
  rw [Op.run_bind_ok (Op.run_ofExcept_ok _ _)]
  have hjudge : (judge r.tree a.observations : Op (World S) Bool).run u =
      (.error (.fault .tooLarge), u) := by
    rw [judge, herror]
    rfl
  exact congrArg Prod.fst (Op.run_bind_error hjudge)

/-- A candidate that takes part and cannot be judged ends the call, whatever the ones
before it open. -/
theorem run_examineAll_tooLarge {i : String} (hu : v.Processing u a i) (dedupe : Bool)
    (ht : JudgesAt a time instant) {rs : List Rule}
    (hrs : ∀ r ∈ rs, r ∈ (v.records u.store).rules.records ∧ r.window.Readable ∧
      isCandidate instant r = true)
    (hbad : ∃ r ∈ rs, isPresent instant r = true ∧
      ∃ e, r.tree.evaluate a.observations = .error e) :
    ((examineAll v.storage dedupe a instant rs).run u).1 = .error (.fault .tooLarge) := by
  have hi : Storage.ForRules [] := nofun
  induction rs generalizing u with
  | nil =>
    obtain ⟨r, hr, -⟩ := hbad
    cases hr
  | cons r rest ih =>
    obtain ⟨hstored, hreadable, hcand⟩ := hrs r List.mem_cons_self
    have hpart := takesPart_eq ht hreadable
    by_cases hhead : isPresent instant r = true ∧ ∃ e, r.tree.evaluate a.observations = .error e
    · obtain ⟨hpresent, e, herror⟩ := hhead
      have hrun := run_examine_tooLarge law hu.ready dedupe hstored (hpresent ▸ hpart) herror
      rcases hexamine : (examine v.storage dedupe a instant r).run u with ⟨e' | verdict, u'⟩ <;>
        rw [hexamine] at hrun <;> cases hrun
      exact congrArg Prod.fst (Op.run_bind_error hexamine)
    · obtain ⟨t, -, -, hget⟩ := hu.ready.kept.rules.get?_of_mem hstored
      obtain ⟨u', hrun, hafter⟩ := run_examine law hu hi dedupe hget hcand hpart
        fun _ hpresent => by
          cases hholds : r.tree.evaluate a.observations with
          | error e => exact absurd ⟨hpresent, e, hholds⟩ hhead
          | ok holds => simp [holdsOn, hholds]
      have hrest : ∃ q ∈ rest, isPresent instant q = true ∧
          ∃ e, q.tree.evaluate a.observations = .error e := by
        obtain ⟨q, hq, hbad⟩ := hbad
        rcases List.mem_cons.mp hq with rfl | hq
        · exact absurd hbad hhead
        · exact ⟨q, hq, hbad⟩
      -- the others are there as before, whether or not this one has opened something
      have hnext : v.Processing u' a i ∧
          (v.records u'.store).rules = (v.records u.store).rules := by
        split at hafter
        · obtain ⟨hsteady, -, hb⟩ := hafter
          exact ⟨⟨hsteady, hu.id, hb.records ▸ hu.stored⟩, hb.records ▸ rfl⟩
        · exact ⟨hafter ▸ hu, hafter ▸ rfl⟩
      have hothers := ih hnext.1 (fun q hq => hnext.2 ▸ hrs q (List.mem_cons_of_mem r hq)) hrest
      have hrun : (examine v.storage dedupe a instant r).run u = _ := hrun
      rw [examineAll, Op.run_bind_ok hrun]
      rcases hall : (examineAll v.storage dedupe a instant rest).run u' with ⟨e' | verdicts, u''⟩ <;>
        rw [hall] at hothers <;> cases hothers
      exact congrArg Prod.fst (Op.run_bind_error hall)

theorem run_process_tooLarge (h : v.Charted ids w) (dedupe : Bool)
    (ha : (v.records w.store).assessments.records[k]? = some a) (ht : JudgesAt a time instant)
    (hj : ¬((v.records w.store).ledger ids).Decides k instant) :
    ((processWhen v.storage dedupe (.record a) time).run w).1 = .error (.fault .tooLarge) := by
  obtain ⟨i, hu⟩ := h.processing ha
  obtain ⟨rs, hperm, hlist⟩ := law.listRules h.ready
  rw [h.decides_iff ha] at hj
  push Not at hj
  obtain ⟨r, hr, hpresent, hbad⟩ := hj
  have herror : ∃ e, r.tree.evaluate a.observations = .error e := by
    cases hholds : r.tree.evaluate a.observations with
    | error e => exact ⟨e, rfl⟩
    | ok t => exact absurd hholds (hbad t)
  have hcand : isCandidate instant r = true := (Bool.and_eq_true_iff.mp hpresent).2
  have hall := run_examineAll_tooLarge law hu dedupe ht (fun q hq => ?_)
    ⟨r, List.mem_filter.mpr ⟨hperm.mem_iff.mpr hr, hcand⟩, hpresent, herror⟩
  · have hprocess : (processWhen v.storage dedupe (.record a) time).run w = _ :=
      run_processWhen law hu (fun _ hi => absurd hi List.not_mem_nil) dedupe (.inr rfl) ht
        (fun q hq => h.windows q (hperm.mem_iff.mp hq)) hlist
    rw [hprocess, Op.run_map]
    exact congrArg (Except.map (report a.id)) hall
  · obtain ⟨hq, hcandidate⟩ := List.mem_filter.mp hq
    exact ⟨hperm.mem_iff.mp hq, h.windows q (hperm.mem_iff.mp hq), hcandidate⟩

end View

/-- Without a time at which to judge, nothing is processed. -/
theorem Engine.Assessments.run_process_untimed (g : Storage σ) (t : σ) (dedupe : Bool)
    {a : Assessment} {time : Option Value} (ht : ∀ instant, ¬JudgesAt a time instant) :
    ∃ e, (processWhen g dedupe (.record a) time).run t = (.error e, t) := by
  cases time with
  | none => exact absurd .ever (ht none)
  | some time =>
    simp only [processWhen, processAt, resolve, pure_bind]
    split
    · exact ⟨_, rfl⟩
    · cases hstamp : requireStampValue (time.orElse a.assessedAt) with
      | error e => exact ⟨e, rfl⟩
      | ok stamp => exact absurd (.moment hstamp) (ht (some stamp.text))

end PropertyRisk
