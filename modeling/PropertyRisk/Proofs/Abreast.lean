import PropertyRisk.Proofs.Strikes

/-!
# Worlds that keep abreast

Two charted worlds are abreast when they have the same rules and assessments and one
of them has found nothing that the other has not. A call that is made in both of
them, in one with duplicates avoided and in the other without, makes the same
entries in both ledgers, so they stay abreast. The other one must not run into
numbers too large to be compared.
-/

namespace PropertyRisk

open Op (Agree Triple Keeps)
open Engine
open Engine.Assessments

/-- What is to be processed is given first, and recorded if it is new. -/
theorem Engine.Assessments.processWhen_eq (g : Storage σ) (dedupe : Bool) (source : AssessmentSource)
    (time : Option Value) : processWhen g dedupe source time =
      resolve g source >>= fun a => processWhen g dedupe (.record a) time := by
  cases time <;> rfl

theorem Engine.Assessments.JudgesAt.of_unnamed {a a' : Assessment} {time : Option Value}
    {instant : Option String} (ht : JudgesAt a time instant) (h : a.unnamed = a'.unnamed) :
    JudgesAt a' time instant := by
  have htime : a.unnamed.assessedAt = a'.unnamed.assessedAt := congrArg Assessment.assessedAt h
  cases ht with
  | ever => exact .ever
  | moment hstamp => exact .moment (htime ▸ hstamp)

/-- Two operations that come to the same but for what `f` leaves out. -/
theorem Op.runs_of_map {x : Op σ α} {y : Op τ α} {f : α → β} {s : σ} {t : τ}
    (h : ((f <$> y).run t).1 = ((f <$> x).run s).1) :
    (∃ a b s' t', x.run s = (.ok a, s') ∧ y.run t = (.ok b, t') ∧ f a = f b) ∨
      ∃ e s' t', x.run s = (.error e, s') ∧ y.run t = (.error e, t') := by
  rw [Op.run_map, Op.run_map] at h
  rcases hx : x.run s with ⟨e | a, s'⟩ <;> rcases hy : y.run t with ⟨e' | b, t'⟩ <;>
    rw [hx, hy] at h
  · cases h
    exact .inr ⟨e, s', t', rfl, rfl⟩
  · cases h
  · cases h
  · exact .inl ⟨a, b, s', t', rfl, rfl, (Except.ok.inj h).symm⟩

/-- Where an operation ends that does not end in a certain error. -/
theorem Op.Triple.state_of_ne {x : Op σ α} {s : σ} {I : σ → Prop} {p : Prop} {e : Error}
    (h : Triple x s (fun _ => I) (fun e' t => I t ∨ e' = e ∧ p))
    (hne : ¬(p ∧ (x.run s).1 = .error e)) : I (x.run s).2 := by
  rcases hr : x.run s with ⟨e' | a, t⟩
  · rcases h.error hr with ht | ⟨rfl, hp⟩
    · exact ht
    · exact absurd ⟨hp, congrArg Prod.fst hr⟩ hne
  · exact h.ok hr

namespace View

variable {S : Type} {v : View S} {ids ids' : List String} {w w' u u' : World S} {n k : Nat}
  {s s' : String} {a a' : Assessment} {r r' : Rule}

/-! ## What peers agree on -/

section

variable (fair : v.Impartial)
include fair

theorem agree_typeProblems (leaves : List Leaf) : Agree v.Peers v.Peers (fun _ => True)
    (Rules.typeProblems v.storage leaves) (Rules.typeProblems v.storage leaves) :=
  .ite (fun _ => .pure trivial) fun _ => (fair.types _).bind fun _ _ => .pure trivial

theorem agree_valueProblems (leaves : List Leaf) : Agree v.Peers v.Peers (fun _ => True)
    (Rules.valueProblems v.storage leaves) (Rules.valueProblems v.storage leaves) :=
  .ite (fun _ => .pure trivial) fun _ => (fair.values _).bind fun _ _ => .pure trivial

theorem agree_checkTree (law : v.Lawful) (document : Value) : Agree v.Peers v.Peers v.Tree
    (Rules.checkTree v.storage document) (Rules.checkTree v.storage document) := by
  refine Agree.bind (.orElse fun _ ht => law.tree_of_read ht) fun tree htree => ?_
  refine (agree_typeProblems fair _).bind fun types _ => ?_
  refine (agree_valueProblems fair _).bind fun values _ => ?_
  split
  · exact .pure htree
  · exact .throw _

theorem agree_checkTrees (law : v.Lawful) (document : Option Value) :
    Agree v.Peers v.Peers (fun _ => True) (document.mapM (Rules.checkTree v.storage))
      (document.mapM (Rules.checkTree v.storage)) := by
  cases document with
  | none => exact .pure trivial
  | some document => exact ((agree_checkTree fair law document).trivial).map some

/-- The check of a tree comes to the same in peers, and changes neither of them. -/
theorem run_checkTrees (law : v.Lawful) (h : v.Peers w u) (document : Option Value) :
    ∃ tree, (document.mapM (Rules.checkTree v.storage)).run w = (tree, w) ∧
      (document.mapM (Rules.checkTree v.storage)).run u = (tree, u) := by
  have hquiet (w : World S) : ((document.mapM (Rules.checkTree v.storage)).run w).2 = w :=
    Keeps.state (I := (· = w)) ((law.triple_checkedTree document w).mono (fun _ _ ht => ht.1)
      fun _ _ ht => ht)
  exact ⟨_, Prod.ext rfl (hquiet w), Prod.ext (agree_checkTrees fair law document w u h).1 (hquiet u)⟩

theorem agree_createRule {d : RuleDraft} (hd : v.Tree d.tree) :
    Agree v.Peers (fun _ _ => True) (fun _ => True)
      (Rule.unnamed <$> v.storage.perform (.createRule d))
      (Rule.unnamed <$> v.storage.perform (.createRule d)) := by
  obtain ⟨make, hmake⟩ := fair.rule hd
  intro w u h
  refine ⟨?_, trivial, fun _ _ => trivial⟩
  rw [Op.run_map, Op.run_map]
  exact (hmake h.ready.2 h.supplied.2).trans (h.clock ▸ (hmake h.ready.1 h.supplied.1).symm)

theorem agree_createAssessment {d : AssessmentDraft} (hd : v.Noted d.observations) :
    Agree v.Peers (fun _ _ => True) (fun _ => True)
      (Assessment.unnamed <$> v.storage.perform (.createAssessment d))
      (Assessment.unnamed <$> v.storage.perform (.createAssessment d)) := by
  obtain ⟨make, hmake⟩ := fair.assessment hd
  intro w u h
  refine ⟨?_, trivial, fun _ _ => trivial⟩
  rw [Op.run_map, Op.run_map]
  exact (hmake h.ready.2 h.supplied.2).trans (h.clock ▸ (hmake h.ready.1 h.supplied.1).symm)

theorem agree_recordDraft (p : Value) {os : List Observation} (hos : v.Noted os) (time : Value) :
    Agree v.Peers (fun _ _ => True) (fun _ => True)
      (Assessment.unnamed <$> recordDraft v.storage p os time)
      (Assessment.unnamed <$> recordDraft v.storage p os time) := by
  unfold recordDraft
  split
  · rw [map_bind]
    exact (Agree.ofExcept (R := v.Peers) (P := fun _ => True) fun _ _ => trivial).bind_to
      (fun _ _ _ => trivial) fun _ _ => agree_createAssessment fair hos
  · exact agree_createAssessment fair hos

theorem agree_create (law : v.Lawful) (input : RuleInput) :
    Agree v.Peers (fun _ _ => True) (fun _ => True)
      (Rule.unnamed <$> Rules.create v.storage input)
      (Rule.unnamed <$> Rules.create v.storage input) := by
  have hle : v.Peers ≤ fun _ _ => True := fun _ _ _ => trivial
  have hnow : Agree v.Peers v.Peers (fun _ => True) v.storage.now v.storage.now :=
    .of_run fun w u h => ⟨_, w, u, law.now, h.clock ▸ law.now, h, fun _ _ => trivial⟩
  simp only [Rules.create, map_bind]
  refine Agree.bind_to (P := fun _ => True) (.ofExcept fun _ _ => trivial) hle fun name _ => ?_
  refine Agree.bind_to (P := fun _ => True) (.ofExcept fun _ _ => trivial) hle
    fun description _ => ?_
  refine hnow.bind_to hle fun now _ => ?_
  refine Agree.bind_to (P := fun _ => True) (.ofExcept fun _ _ => trivial) hle fun window _ => ?_
  split
  · rw [map_bind]
    exact (agree_checkTree fair law input.tree).bind_to hle fun tree htree =>
      agree_createRule fair htree
  · exact ((Agree.throw (R := v.Peers) (P := fun _ => True) _).map _).weaken hle

end

/-! ## Keeping abreast -/

structure Abreast (v : View S) (ids : List String) (w : World S) (ids' : List String)
    (u : World S) : Prop where
  on : v.Charted ids w
  off : v.Charted ids' u
  clock : u.clock = w.clock
  types : (v.records u.store).observationTypes = (v.records w.store).observationTypes
  values : (v.records u.store).observationValues = (v.records w.store).observationValues
  below : ((v.records w.store).ledger ids).Below ((v.records u.store).ledger ids')

/-- The same entries, made in both of two worlds. A change of a rule is made alone. -/
structure Stride (v : View S) (ids : List String) (w : World S) (ids' : List String) (u : World S)
    (es : List Ledger.Entry) (ks : List String) (w' : World S) (ks' : List String) (u' : World S) :
    Prop where
  on : v.Enters true ids w es ks w'
  off : v.Enters false ids' u es ks' u'
  single : (∃ e, es = [e]) ∨ ∀ e ∈ es, e.isRevision = false

/-- What two runs that are to give an assessment come to. If there is one, it has the
same place in both worlds. -/
inductive Resolved (v : View S) (ids : List String) (w : World S) (ids' : List String)
    (u : World S) : Except Error Assessment × World S → Except Error Assessment × World S → Prop
  | found {k : Nat} {a a' : Assessment} {es : List Ledger.Entry} {w' u' : World S} :
    (v.records w'.store).assessments.records[k]? = some a →
    (v.records u'.store).assessments.records[k]? = some a' → (∀ e ∈ es, e.isRevision = false) →
    v.Enters true ids w es ids w' → v.Enters false ids' u es ids' u' →
    Resolved v ids w ids' u (.ok a, w') (.ok a', u')
  | missed {e e' : Error} {w' u' : World S} :
    v.Enters true ids w [] ids w' → v.Enters false ids' u [] ids' u' →
    Resolved v ids w ids' u (.error e, w') (.error e', u')

/-- Two sources that give the same assessment, or none. -/
inductive Alike (v : View S) (w u : World S) : AssessmentSource → AssessmentSource → Prop
  | stored {k : Nat} {a a' : Assessment} :
    (v.records w.store).assessments.records[k]? = some a →
    (v.records u.store).assessments.records[k]? = some a' → Alike v w u (.stored a.id) (.stored a'.id)
  | record {k : Nat} {a a' : Assessment} :
    (v.records w.store).assessments.records[k]? = some a →
    (v.records u.store).assessments.records[k]? = some a' → Alike v w u (.record a) (.record a')
  | stray {id : Value} : v.Stray w.idOf id → v.Stray u.idOf id → Alike v w u (.stored id) (.stored id)
  | draft {d : AssessmentDraft} : v.Noted d.observations → Alike v w u (.draft d) (.draft d)

theorem Resolved.stride {p q : Except Error Assessment × World S} (h : v.Resolved ids w ids' u p q) :
    ∃ es, v.Stride ids w ids' u es ids p.2 ids' q.2 := by
  cases h with
  | found _ _ hes hon hoff => exact ⟨_, hon, hoff, .inr hes⟩
  | missed hon hoff => exact ⟨[], hon, hoff, .inr fun _ he => absurd he List.not_mem_nil⟩

theorem run_resolve_stored (law : v.Lawful) (h : v.Charted ids w)
    (ha : (v.records w.store).assessments.records[k]? = some a) :
    (resolve v.storage (.stored a.id)).run w = (.ok a, w) := by
  obtain ⟨i, hu⟩ := h.processing ha
  have hsource : AssessmentSource.stored a.id = .stored (.text i) := congrArg _ hu.id
  exact run_resolve law hu (fun _ hi => absurd hi List.not_mem_nil) (.inl hsource)

theorem run_resolve_stray (law : v.Lawful) (h : v.Charted ids w) {id : Value}
    (hid : v.Stray w.idOf id) :
    ∃ e, (resolve v.storage (.stored id)).run w = (.error e, w) := by
  have hget := law.getAssessment id h.ready
  rcases hl : v.look .getAssessment id (v.records w.store).assessments with e | _ | a <;>
    rw [hl] at hget
  · exact ⟨e, Op.run_bind_error hget⟩
  · exact ⟨_, Op.run_bind_ok hget⟩
  · obtain ⟨t, hn, ha⟩ := look_eq_some.mp hl
    exact absurd (.inr (.inr (.inl (Shelf.mem_keys_of_get? ha)))) (h.not_uses hid hn)

namespace Abreast

theorem peers (h : v.Abreast ids w ids' u) : v.Peers w u :=
  ⟨⟨h.on.ready, h.off.ready⟩, ⟨h.on.supplied, h.off.supplied⟩, h.clock, h.types, h.values⟩

theorem enters {es : List Ledger.Entry} {ks ks' : List String} (h : v.Abreast ids w ids' u)
    (hon : v.Enters true ids w es ks w') (hoff : v.Enters false ids' u es ks' u') :
    v.Abreast ks w' ks' u' where
  on := hon.charted
  off := hoff.charted
  clock := by rw [hon.clock, hoff.clock, h.clock]
  types := by rw [hon.types, hoff.types, h.types]
  values := by rw [hon.values, hoff.values, h.values]
  below := by
    rw [hon.ledger, hoff.ledger]
    exact h.below.enterAll es

theorem rests (h : v.Abreast ids w ids' u) : v.Stride ids w ids' u [] ids w ids' u :=
  ⟨h.on.rests true, h.off.rests false, .inr fun _ he => absurd he List.not_mem_nil⟩

/-- A rule is there in both worlds or in neither. -/
theorem rule (h : v.Abreast ids w ids' u) (hs : ids[n]? = some s) (hs' : ids'[n]? = some s') :
    ((v.records w.store).rules.get? (.text s)).map Rule.unnamed =
      ((v.records u.store).rules.get? (.text s')).map Rule.unnamed := by
  have hrules := Memory.ledger_rule (m := v.records w.store) hs
  rw [h.below.rules, Memory.ledger_rule hs'] at hrules
  exact (Option.some.inj hrules).symm

theorem assessment (h : v.Abreast ids w ids' u)
    (ha : (v.records w.store).assessments.records[k]? = some a)
    (ha' : (v.records u.store).assessments.records[k]? = some a') : a.unnamed = a'.unnamed := by
  have hon : ((v.records w.store).ledger ids).assessments[k]? = some a.unnamed :=
    Memory.ledger_assessment.mpr ⟨a, ha, rfl⟩
  rw [h.below.assessments] at hon
  exact Option.some.inj (hon.symm.trans (Memory.ledger_assessment.mpr ⟨a', ha', rfl⟩))

variable (law : v.Lawful)
include law

/-! ### Rules -/

theorem update_missing (h : v.Abreast ids w ids' u) {id id' : Value}
    (hid : ∀ r, v.look .getRule id (v.records w.store).rules ≠ .ok (some r))
    (hid' : ∀ r, v.look .getRule id' (v.records u.store).rules ≠ .ok (some r)) (patch : RulePatch) :
    v.Stride ids w ids' u [] ids ((Rules.update v.storage id patch).run w).2 ids'
      ((Rules.update v.storage id' patch).run u).2 := by
  have hw := (keeps_update_missing law h.on.ready hid patch).state
  have hu := (keeps_update_missing law h.off.ready hid' patch).state
  rw [hw, hu]
  exact h.rests

/-- A checked change of a rule is made in both worlds, if the one without duplicates
avoided can judge what the rule has found there. -/
theorem apply (fair : v.Impartial) (h : v.Abreast ids w ids' u) (hs : ids[n]? = some s)
    (hs' : ids'[n]? = some s') (hr : (v.records w.store).rules.get? (.text s) = some r)
    (hr' : (v.records u.store).rules.get? (.text s') = some r') (hsame : r.unnamed = r'.unnamed)
    {patch : RulePatch} {window : Option Window} {isActive : Option Bool}
    (hwindow : ∀ win, window = some win → ∃ x y, Rules.checkWindow x y = .ok (.ok win))
    (hcalm : ((Rules.apply v.storage r' (.text s') patch window isActive).run u).1 ≠
      .error (.fault .tooLarge)) :
    ∃ es, v.Stride ids w ids' u es ids
      ((Rules.apply v.storage r (.text s) patch window isActive).run w).2 ids'
      ((Rules.apply v.storage r' (.text s') patch window isActive).run u).2 := by
  obtain ⟨tree?, hw, hu⟩ := run_checkTrees fair law h.peers patch.tree
  cases tree? with
  | error e =>
    refine ⟨[], ?_⟩
    rw [Rules.apply, Rules.apply, Op.run_bind_error hw, Op.run_bind_error hu]
    exact h.rests
  | ok tree? =>
    have htree : tree?.getD r'.tree = tree?.getD r.tree :=
      congrArg (tree?.getD ·.tree) hsame.symm
    have hon := triple_apply law h.on true hs (law.name_text (h.on.plain hs)) hr isActive hwindow
      hw rfl rfl
    have hoff := triple_apply law h.off false hs' (law.name_text (h.off.plain hs')) hr' isActive
      hwindow hu htree rfl
    obtain ⟨hjudges, hoff⟩ := hoff.state_of_ne fun hno => hcalm hno.2
    obtain ⟨-, hon⟩ := hon.state_of_ne fun hno => hno.1 (hjudges.of_below h.below)
    rw [h.clock, ← revision_unnamed hsame] at hoff
    exact ⟨_, hon, hoff, .inl ⟨_, rfl⟩⟩

theorem update (fair : v.Impartial) (h : v.Abreast ids w ids' u) (hs : ids[n]? = some s)
    (hs' : ids'[n]? = some s') (patch : RulePatch)
    (hcalm : ((Rules.update v.storage (.text s') patch).run u).1 ≠ .error (.fault .tooLarge)) :
    ∃ es, v.Stride ids w ids' u es ids ((Rules.update v.storage (.text s) patch).run w).2 ids'
      ((Rules.update v.storage (.text s') patch).run u).2 := by
  have hn : v.name .getRule (.text s) = .ok (some s) := law.name_text (h.on.plain hs)
  have hn' : v.name .getRule (.text s') = .ok (some s') := law.name_text (h.off.plain hs')
  have hrule := h.rule hs hs'
  cases hr : (v.records w.store).rules.get? (.text s) with
  | none =>
    have hr' : (v.records u.store).rules.get? (.text s') = none := by simpa [hr] using hrule
    exact ⟨[], h.update_missing law (by simp [look_of_name hn, hr]) (by simp [look_of_name hn', hr'])
      patch⟩
  | some r =>
    obtain ⟨r', hr', hsame⟩ : ∃ r', (v.records u.store).rules.get? (.text s') = some r' ∧
        r.unnamed = r'.unnamed := by
      simpa [hr, eq_comm] using hrule
    cases hknown : patch.unknown.isEmpty with
    | false => exact ⟨[], by simpa [Rules.update, hknown] using h.rests⟩
    | true =>
      have hget := law.getRule (.text s) h.on.ready
      have hget' := law.getRule (.text s') h.off.ready
      rw [look_of_name hn, hr] at hget
      rw [look_of_name hn', hr'] at hget'
      have hkey (t : String) : Rules.requireKey (.text t) = .ok () := by simp [Rules.requireKey]
      rw [Rules.run_update hknown (hkey s') hget', ← Rules.preflight_unnamed hsame] at hcalm ⊢
      rw [Rules.run_update hknown (hkey s) hget]
      cases hpre : Rules.preflight patch r with
      | error e => exact ⟨[], h.rests⟩
      | ok p =>
        rw [hpre] at hcalm
        exact h.apply law fair hs hs' hr hr' hsame (Rules.checked_of_preflight hpre) hcalm

/-! ### Other calls -/

theorem update_stray (h : v.Abreast ids w ids' u) {id : Value} (hid : v.Stray w.idOf id)
    (hid' : v.Stray u.idOf id) (patch : RulePatch) :
    v.Stride ids w ids' u [] ids ((Rules.update v.storage id patch).run w).2 ids'
      ((Rules.update v.storage id patch).run u).2 := by
  refine h.update_missing law (fun r hl => ?_) (fun r hl => ?_) patch
  · obtain ⟨t, hn, hr⟩ := look_eq_some.mp hl
    exact h.on.not_uses hid hn (.inl (Shelf.mem_keys_of_get? hr))
  · obtain ⟨t, hn, hr⟩ := look_eq_some.mp hl
    exact h.off.not_uses hid' hn (.inl (Shelf.mem_keys_of_get? hr))

theorem delete (h : v.Abreast ids w ids' u) (hs : ids[n]? = some s) (hs' : ids'[n]? = some s') :
    v.Stride ids w ids' u [.deleted n] ids ((Rules.delete v.storage (.text s)).run w).2 ids'
      ((Rules.delete v.storage (.text s')).run u).2 :=
  ⟨(keeps_delete law h.on true hs).state, (keeps_delete law h.off false hs').state, .inl ⟨_, rfl⟩⟩

theorem delete_stray (h : v.Abreast ids w ids' u) {id : Value} (hid : v.Stray w.idOf id)
    (hid' : v.Stray u.idOf id) :
    v.Stride ids w ids' u [] ids ((Rules.delete v.storage id).run w).2 ids'
      ((Rules.delete v.storage id).run u).2 :=
  ⟨(keeps_delete_stray law h.on true hid).state, (keeps_delete_stray law h.off false hid').state,
    .inr fun _ he => absurd he List.not_mem_nil⟩

theorem reevaluate (fair : v.Impartial) (h : v.Abreast ids w ids' u) (p : Value) :
    v.Stride ids w ids' u [] ids ((Vulnerabilities.reevaluate v.storage p).run w).2 ids'
      ((Vulnerabilities.reevaluate v.storage p).run u).2 := by
  rw [(keeps_reevaluate_sound law fair h.on.toSound p).state,
    (keeps_reevaluate_sound law fair h.off.toSound p).state]
  exact h.rests

theorem recordDraft (fair : v.Impartial) (h : v.Abreast ids w ids' u) (p : Value)
    {os : List Observation} (hos : v.Noted os) (time : Value) :
    v.Resolved ids w ids' u ((Assessments.recordDraft v.storage p os time).run w)
      ((Assessments.recordDraft v.storage p os time).run u) := by
  have hon := triple_recordDraft_enters law h.on true p hos time
  have hoff := triple_recordDraft_enters law h.off false p hos time
  rcases Op.runs_of_map (agree_recordDraft fair p hos time w u h.peers).1 with
    ⟨a, a', w', u', hw, hu, hsame⟩ | ⟨e, w', u', hw, hu⟩ <;> rw [hw, hu]
  · obtain ⟨hon, hrecords⟩ := hon.ok hw
    obtain ⟨hoff, hrecords'⟩ := hoff.ok hu
    have hlength : (v.records w.store).assessments.records.length =
        (v.records u.store).assessments.records.length := by
      simpa [Memory.ledger] using congrArg List.length h.below.assessments
    have hget : (v.records w'.store).assessments.records[(v.records
        u.store).assessments.records.length]? = some a := by simp [hrecords, ← hlength]
    rw [← hsame] at hoff
    refine .found hget (by simp [hrecords']) (fun e he => ?_) hon hoff
    cases List.mem_singleton.mp he
    rfl
  · exact .missed (hon.error hw) (hoff.error hu)

theorem record (fair : v.Impartial) (h : v.Abreast ids w ids' u) (p observations time : Value) :
    ∃ es, v.Stride ids w ids' u es ids
      ((Assessments.record v.storage p observations time).run w).2 ids'
      ((Assessments.record v.storage p observations time).run u).2 := by
  cases hos : readObservationList observations with
  | error e => exact ⟨[], by simpa [Assessments.record, hos, Op.run_bind] using h.rests⟩
  | ok os =>
    have hrun (w : World S) : (Assessments.record v.storage p observations time).run w =
        (Assessments.recordDraft v.storage p os time).run w := by
      rw [Assessments.record, hos]
      rfl
    rw [hrun, hrun]
    exact (h.recordDraft law fair p (law.noted_of_read hos) time).stride

/-! ### Processing -/

theorem resolve (fair : v.Impartial) (h : v.Abreast ids w ids' u) {source source' : AssessmentSource}
    (hs : v.Alike w u source source') :
    v.Resolved ids w ids' u ((Assessments.resolve v.storage source).run w)
      ((Assessments.resolve v.storage source').run u) := by
  cases hs with
  | record ha ha' =>
    exact .found ha ha' (fun _ he => absurd he List.not_mem_nil) (h.on.rests true)
      (h.off.rests false)
  | draft hd => exact h.recordDraft law fair _ hd _
  | stored ha ha' =>
    rw [run_resolve_stored law h.on ha, run_resolve_stored law h.off ha']
    exact .found ha ha' (fun _ he => absurd he List.not_mem_nil) (h.on.rests true)
      (h.off.rests false)
  | stray hid hid' =>
    obtain ⟨e, he⟩ := run_resolve_stray law h.on hid
    obtain ⟨e', he'⟩ := run_resolve_stray law h.off hid'
    rw [he, he']
    exact .missed (h.on.rests true) (h.off.rests false)

/-- An assessment is processed in both worlds, if the one without duplicates avoided
can judge all the rules that take part. -/
theorem process (fair : v.Impartial) (h : v.Abreast ids w ids' u) {source source' : AssessmentSource}
    (hs : v.Alike w u source source') (time : Option Value)
    (hcalm : ((processWhen v.storage false source' time).run u).1 ≠ .error (.fault .tooLarge)) :
    ∃ es, v.Stride ids w ids' u es ids ((processWhen v.storage true source time).run w).2 ids'
      ((processWhen v.storage false source' time).run u).2 := by
  rw [processWhen_eq] at hcalm
  rw [processWhen_eq, processWhen_eq]
  have hresolved := h.resolve law fair hs
  rcases hw : (Assessments.resolve v.storage source).run w with ⟨e | a, w'⟩ <;>
    rcases hu : (Assessments.resolve v.storage source').run u with ⟨e' | a', u'⟩ <;>
      rw [hw, hu] at hresolved
  · rw [Op.run_bind_error hw, Op.run_bind_error hu]
    exact hresolved.stride
  · cases hresolved
  · cases hresolved
  rw [Op.run_bind_ok hu] at hcalm
  rw [Op.run_bind_ok hw, Op.run_bind_ok hu]
  cases hresolved with
  | @found k _ _ es _ _ ha ha' hes hon hoff =>
    have hnext := h.enters hon hoff
    have hsame := hnext.assessment ha ha'
    by_cases ht : ∃ instant, JudgesAt a time instant
    · obtain ⟨instant, ht⟩ := ht
      have ht' : JudgesAt a' time instant := ht.of_unnamed hsame
      have hdecides : ((v.records u'.store).ledger ids').Decides k instant := by
        -- a rule that cannot be judged would have ended the call in the second world
        by_contra hno
        exact hcalm (run_process_tooLarge law hnext.off false ha' ht' hno)
      refine ⟨es ++ [.processed k instant], ?_, ?_, .inr fun e he => ?_⟩
      · exact hon.trans (enters_process law hnext.on true ha ht (hdecides.of_below hnext.below))
      · exact hoff.trans (enters_process law hnext.off false ha' ht' hdecides)
      · rcases List.mem_append.mp he with he | he
        · exact hes e he
        · cases List.mem_singleton.mp he
          rfl
    · -- at a time that cannot be read neither of the two judges
      have ht' : ∀ instant, ¬JudgesAt a' time instant := fun instant ht' =>
        ht ⟨instant, ht'.of_unnamed hsame.symm⟩
      obtain ⟨e, he⟩ := run_process_untimed v.storage w' true (not_exists.mp ht)
      obtain ⟨e', he'⟩ := run_process_untimed v.storage u' false ht'
      rw [he, he']
      exact ⟨es, hon, hoff, .inr hes⟩

end Abreast

end View

namespace Backing

variable {b : Backing} {ids ids' : List String} {w u : World b.Store}

/-- A new rule is created in both worlds or in neither. -/
theorem abreast_create (h : b.view.Abreast ids w ids' u) (input : RuleInput) :
    (∃ r r' s s' e w' u', (Rules.create b.view.storage input).run w = (.ok r, w') ∧
      (Rules.create b.view.storage input).run u = (.ok r', u') ∧ r.id = .text s ∧ r'.id = .text s' ∧
      b.view.Stride ids w ids' u [e] (ids ++ [s]) w' (ids' ++ [s']) u') ∨
    ∃ e w' u', (Rules.create b.view.storage input).run w = (.error e, w') ∧
      (Rules.create b.view.storage input).run u = (.error e, u') ∧
      b.view.Stride ids w ids' u [] ids w' ids' u' := by
  have hon := triple_create_enters h.on true input
  have hoff := triple_create_enters h.off false input
  rcases Op.runs_of_map (View.agree_create b.impartial b.lawful input w u h.peers).1 with
    ⟨r, r', w', u', hw, hu, hsame⟩ | ⟨e, w', u', hw, hu⟩
  · obtain ⟨hid, hon⟩ := hon.ok hw
    obtain ⟨hid', hoff⟩ := hoff.ok hu
    rw [← hsame] at hoff
    exact .inl ⟨r, r', _, _, _, w', u', hw, hu, hid, hid', hon, hoff, .inl ⟨_, rfl⟩⟩
  · exact .inr ⟨e, w', u', hw, hu, hon.error hw, hoff.error hu,
      .inr fun _ he => absurd he List.not_mem_nil⟩

end Backing

end PropertyRisk
