import PropertyRisk.Proofs.Plays

/-!
# Deduplication

`Backing.unresolved_dedupe`: whatever turns are played from a store without rules and
assessments, avoiding duplicates adds no rule and property with an unresolved
vulnerability, and it loses none as long as no call removes a part only of what a rule
has found on a property. Where one does, a finding can be lost: the duplicate that was
avoided would have been left.
-/

namespace PropertyRisk

open Op (Keeps)
open Engine
open Engine.Assessments

theorem getElem?_of_prefix {l l' : List α} (h : l <+: l') {i : Nat} {a : α} (ha : l[i]? = some a) :
    l'[i]? = some a := by
  obtain ⟨hi, rfl⟩ := List.getElem?_eq_some_iff.mp ha
  exact List.prefix_iff_getElem?.mp h i hi

namespace View

variable {S : Type} {v : View S} {ids ids' : List String} {w u : World S}

theorem Charted.tick (h : v.Charted ids w) (clock : Time.Stamp) :
    v.Charted ids { w with clock } :=
  { h with toSound := h.toSound.tick clock }

theorem Abreast.tick (h : v.Abreast ids w ids' u) (clock : Time.Stamp) :
    v.Abreast ids { w with clock } ids' { u with clock } :=
  { h with on := h.on.tick clock, off := h.off.tick clock, clock := rfl }

theorem Alike.tick {source source' : AssessmentSource} (h : v.Alike w u source source')
    (clock : Time.Stamp) : v.Alike { w with clock } { u with clock } source source' := by
  cases h with
  | stored ha ha' => exact .stored ha ha'
  | record ha ha' => exact .record ha ha'
  | stray hid hid' => exact .stray hid hid'
  | draft hd => exact .draft hd

end View

namespace Play

variable {b : Backing} {idOf : Nat → String} {p q : Play b} {ids ids' : List String} {turn : Turn}
  {policy : Policy} {n : Nat} {y : Value}

/-- Two plays that are abreast. -/
structure Paired (idOf : Nat → String) (p : Play b) (ids : List String) (q : Play b)
    (ids' : List String) : Prop where
  rules : p.rules = ids.map Value.text ∧ q.rules = ids'.map Value.text
  idOf : p.world.idOf = idOf ∧ q.world.idOf = idOf
  abreast : b.view.Abreast ids p.world ids' q.world

/-- What a step comes to if its call creates no rule. -/
theorem step_eq {x : Op (World b.Store) α} {f : α → Reply}
    (hcall : (turn.deed.call p.rules (b.view.records p.world.store).assessments.records).run policy
      b.view.storage = f <$> x)
    (hf : ∀ a, created (.ok (f a)) = []) :
    p.run policy turn = ((x.run { p.world with clock := turn.clock }).1.map f,
        (x.run { p.world with clock := turn.clock }).2) ∧
      p.step policy turn = ⟨p.rules, (x.run { p.world with clock := turn.clock }).2⟩ := by
  have hrun : p.run policy turn = ((x.run { p.world with clock := turn.clock }).1.map f,
      (x.run { p.world with clock := turn.clock }).2) := by
    rw [run, ← b.view_storage, hcall, Op.run_map]
  refine ⟨hrun, ?_⟩
  rw [step, hrun]
  rcases (x.run { p.world with clock := turn.clock }).1 with e | a
  · simp [Except.map, created]
  · simp [Except.map, hf]

/-- The steps of two plays lead to plays that are abreast again. -/
def Advance (idOf : Nat → String) (on off : Policy) (p : Play b) (ids : List String) (q : Play b)
    (ids' : List String) (turn : Turn) : Prop :=
  ∃ es ks ks', Paired idOf (p.step on turn) ks (q.step off turn) ks' ∧
    b.view.Stride ids { p.world with clock := turn.clock } ids'
      { q.world with clock := turn.clock } es ks (p.step on turn).world ks' (q.step off turn).world

/-- Two steps whose calls create no rule. -/
theorem Paired.advance {x x' : Op (World b.Store) α} {f : α → Reply} {on off : Policy}
    (h : Paired idOf p ids q ids')
    (hcall : (turn.deed.call p.rules (b.view.records p.world.store).assessments.records).run on
      b.view.storage = f <$> x)
    (hcall' : (turn.deed.call q.rules (b.view.records q.world.store).assessments.records).run off
      b.view.storage = f <$> x')
    (hf : ∀ a, created (.ok (f a)) = [])
    (hstride : ∃ es, b.view.Stride ids { p.world with clock := turn.clock } ids'
      { q.world with clock := turn.clock } es ids (x.run { p.world with clock := turn.clock }).2 ids'
      (x'.run { q.world with clock := turn.clock }).2) :
    Advance idOf on off p ids q ids' turn := by
  obtain ⟨es, hstride⟩ := hstride
  refine ⟨es, ids, ids', ?_⟩
  rw [(step_eq hcall hf).2, (step_eq hcall' hf).2]
  exact ⟨⟨h.rules, ⟨hstride.on.idOf.trans h.idOf.1, hstride.off.idOf.trans h.idOf.2⟩,
    (h.abreast.tick _).enters hstride.on hstride.off⟩, hstride⟩

/-- A number stands for the rules at one place in both worlds, or for nothing. -/
theorem Paired.rule (h : Paired idOf p ids q ids') {rule : Reference} (hfits : rule.Fits b.view idOf) :
    (∃ (n : Nat) (s s' : String), ids[n]? = some s ∧ ids'[n]? = some s' ∧ rule.among p.rules = .text s ∧
      rule.among q.rules = .text s') ∨
    ∃ id, b.view.Stray idOf id ∧ rule.among p.rules = id ∧ rule.among q.rules = id := by
  cases rule with
  | other id => exact .inr ⟨id, hfits, rfl, rfl⟩
  | nth n =>
    have hlength : ids.length = ids'.length := by
      simpa [Memory.ledger] using congrArg List.length h.abreast.below.rules
    rw [h.rules.1, h.rules.2]
    rcases Nat.lt_or_ge n ids.length with hn | hn
    · refine .inl ⟨n, ids[n], ids'[n], List.getElem?_eq_getElem hn,
        List.getElem?_eq_getElem (hlength ▸ hn), ?_, ?_⟩ <;> simp [Reference.among, hn, ← hlength]
    · refine .inr ⟨.null, b.stray_null idOf, ?_, ?_⟩ <;>
        simp [Reference.among, hn, ← hlength]

/-- What is to be processed is given alike in both worlds. -/
theorem Paired.subject (h : Paired idOf p ids q ids') {subject : Subject}
    (hfits : subject.Fits b.view idOf) : b.view.Alike p.world q.world
      (subject.among (b.view.records p.world.store).assessments.records)
      (subject.among (b.view.records q.world.store).assessments.records) := by
  have hlength : (b.view.records p.world.store).assessments.records.length =
      (b.view.records q.world.store).assessments.records.length := by
    simpa [Memory.ledger] using congrArg List.length h.abreast.below.assessments
  have hstray : b.view.Alike p.world q.world (.stored .null) (.stored .null) :=
    .stray (b.stray_null _) (b.stray_null _)
  have hplaced (n : Nat) : (∃ a a',
      (b.view.records p.world.store).assessments.records[n]? = some a ∧
        (b.view.records q.world.store).assessments.records[n]? = some a') ∨
      (b.view.records p.world.store).assessments.records[n]? = none ∧
        (b.view.records q.world.store).assessments.records[n]? = none := by
    rcases Nat.lt_or_ge n (b.view.records p.world.store).assessments.records.length with hn | hn
    · exact .inl ⟨_, _, List.getElem?_eq_getElem hn, List.getElem?_eq_getElem (hlength ▸ hn)⟩
    · exact .inr ⟨List.getElem?_eq_none hn, List.getElem?_eq_none (hlength ▸ hn)⟩
  cases subject with
  | draft d => exact .draft hfits
  | record n =>
    rcases hplaced n with ⟨a, a', ha, ha'⟩ | ⟨ha, ha'⟩ <;> simp only [Subject.among, ha, ha']
    · exact .record ha ha'
    · exact hstray
  | stored assessment =>
    cases assessment with
    | other id => exact .stray (h.idOf.1 ▸ hfits) (h.idOf.2 ▸ hfits)
    | nth n =>
      rcases hplaced n with ⟨a, a', ha, ha'⟩ | ⟨ha, ha'⟩ <;>
        simp only [Subject.among, Reference.among, List.getD_eq_getElem?_getD, List.getElem?_map, ha,
          ha', Option.map_some, Option.map_none, Option.getD_some, Option.getD_none]
      · exact .stored ha ha'
      · exact hstray

theorem Paired.create (h : Paired idOf p ids q ids') (clock : Time.Stamp) (input : RuleInput)
    (on off : Policy) : Advance idOf on off p ids q ids' ⟨clock, .createRule input⟩ := by
  have hrun (policy : Policy) (p : Play b) : p.run policy ⟨clock, .createRule input⟩ =
      (((Rules.create b.view.storage input).run { p.world with clock }).1.map .rule,
        ((Rules.create b.view.storage input).run { p.world with clock }).2) := by
    rw [run, ← b.view_storage]
    exact Op.run_map _ _ _
  have hnext := h.abreast.tick clock
  rcases b.abreast_create hnext input with
    ⟨r, r', s, s', e, w', u', hw, hu, hid, hid', hstride⟩ | ⟨e, w', u', hw, hu, hstride⟩
  · refine ⟨[e], ids ++ [s], ids' ++ [s'], ?_⟩
    simp only [step, hrun, hw, hu, Except.map, created, hid, hid', h.rules]
    refine ⟨⟨⟨by simp, by simp⟩, ⟨hstride.on.idOf.trans h.idOf.1, hstride.off.idOf.trans h.idOf.2⟩,
      hnext.enters hstride.on hstride.off⟩, hstride⟩
  · refine ⟨[], ids, ids', ?_⟩
    simp only [step, hrun, hw, hu, Except.map, created, h.rules, List.append_nil]
    exact ⟨⟨⟨rfl, rfl⟩, ⟨hstride.on.idOf.trans h.idOf.1, hstride.off.idOf.trans h.idOf.2⟩,
      hnext.enters hstride.on hstride.off⟩, hstride⟩

/-- A call that overflows says so. -/
theorem overflows_of_run {x : Op (World b.Store) α} {f : α → Reply}
    (hcall : (turn.deed.call p.rules (b.view.records p.world.store).assessments.records).run policy
      b.view.storage = f <$> x)
    (hf : ∀ a, created (.ok (f a)) = []) (hjudging : turn.deed.isJudging = true)
    (hx : (x.run { p.world with clock := turn.clock }).1 = .error (.fault .tooLarge)) :
    p.Overflows policy turn :=
  ⟨hjudging, by rw [(step_eq hcall hf).1, hx]; rfl⟩

/-- The step: whatever the call, the plays stay abreast. -/
theorem Paired.step (h : Paired idOf p ids q ids') (enforced : Bool)
    (hfits : turn.deed.Fits b.view idOf) (hcalm : ¬q.Overflows ⟨false, enforced⟩ turn) :
    Advance idOf ⟨true, enforced⟩ ⟨false, enforced⟩ p ids q ids' turn := by
  obtain ⟨clock, deed⟩ := turn
  have law := b.lawful
  have fair := b.impartial
  have hnext := h.abreast.tick clock
  cases deed with
  | createRule input => exact h.create clock input _ _
  | updateRule rule patch =>
    refine h.advance rfl rfl (fun _ => rfl) ?_
    rcases h.rule hfits with ⟨n, s, s', hs, hs', hp, hq⟩ | ⟨id, hid, hp, hq⟩
    · -- more is found without duplicates avoided, so if anything overflows it does so there
      have hno : ((Rules.update b.view.storage (.text s') patch).run { q.world with clock }).1 ≠
          .error (.fault .tooLarge) :=
        fun he => hcalm (overflows_of_run rfl (fun _ => rfl) rfl (hq ▸ he))
      rw [hp, hq]
      exact hnext.update law fair hs hs' patch hno
    · rw [hp, hq]
      exact ⟨[], hnext.update_stray law (h.idOf.1 ▸ hid) (h.idOf.2 ▸ hid) patch⟩
  | deleteRule rule =>
    refine h.advance rfl rfl (fun _ => rfl) ?_
    rcases h.rule hfits with ⟨n, s, s', hs, hs', hp, hq⟩ | ⟨id, hid, hp, hq⟩ <;> rw [hp, hq]
    · exact ⟨_, hnext.delete law hs hs'⟩
    · exact ⟨[], hnext.delete_stray law (h.idOf.1 ▸ hid) (h.idOf.2 ▸ hid)⟩
  | record propertyId observations assessedAt =>
    exact h.advance rfl rfl (fun _ => rfl) (hnext.record law fair propertyId observations assessedAt)
  | process subject time =>
    have hsubject : b.view.Alike { p.world with clock } { q.world with clock } _ _ :=
      (h.subject hfits).tick clock
    have hcall (policy : Policy) (p : Play b) :
        (Deed.call p.rules (b.view.records p.world.store).assessments.records
          (.process subject time)).run policy b.view.storage = .report <$> processWhen
            b.view.storage policy.dedupe
              (subject.among (b.view.records p.world.store).assessments.records) time := by
      cases time <;> rfl
    refine h.advance (hcall _ p) (hcall _ q) (fun _ => rfl) (hnext.process law fair hsubject time ?_)
    exact fun he => hcalm (overflows_of_run (hcall _ q) (fun _ => rfl) rfl he)
  | reevaluate propertyId =>
    exact h.advance rfl rfl (fun _ => rfl) ⟨[], hnext.reevaluate law fair propertyId⟩

/-! ## What is unresolved -/

theorem unresolved_iff (h : b.view.Charted ids p.world) (hr : p.rules = ids.map Value.text) :
    p.Unresolved n y ↔ ∃ k a, ((b.view.records p.world.store).ledger ids).found n k ∧
      ((b.view.records p.world.store).ledger ids).assessments[k]? = some a ∧ a.propertyId = y := by
  constructor
  · rintro ⟨x, hx, hrule, rfl, -⟩
    rw [← b.records_vulnerabilities] at hx
    obtain ⟨s, hs, hsx⟩ : ∃ s, ids[n]? = some s ∧ Value.text s = x.ruleId := by
      simpa [hr] using hrule
    obtain ⟨k, a, hfinds, ha, hp⟩ := h.finds_of_mem hx hsx.symm
    exact ⟨k, a.unnamed, ⟨s, x, hs, hfinds⟩, Memory.ledger_assessment.mpr ⟨a, ha, rfl⟩, hp⟩
  · rintro ⟨k, _, ⟨s, x, hs, hx⟩, ha, rfl⟩
    obtain ⟨a, hget, rfl⟩ := Memory.ledger_assessment.mp ha
    refine ⟨x, b.records_vulnerabilities _ ▸ hx.stored, ?_, (h.property hx hget).2.symm, ?_⟩
    · simp [hr, hs, hx.ruleId]
    · simp [Vulnerability.isUnresolved, h.opened x hx.stored]

/-- What is split in the ledger is split in the world. -/
theorem Paired.splits {on off : Policy} {es : List Ledger.Entry} {ks ks' : List String}
    (h : Paired idOf p ids q ids')
    (hstride : b.view.Stride ids { p.world with clock := turn.clock } ids'
      { q.world with clock := turn.clock } es ks (p.step on turn).world ks' (q.step off turn).world)
    (hsplits : ((b.view.records q.world.store).ledger ids').Splits
      ((b.view.records (q.step off turn).world.store).ledger ks')) : q.Splits off turn := by
  have hoff := hstride.off
  obtain ⟨m, j, k, _, _, ⟨s, x, hs, hx⟩, -, hc, hd, hp, hgone, ⟨t, z, ht, hz⟩⟩ := hsplits
  obtain ⟨c, hcget, rfl⟩ := Memory.ledger_assessment.mp hc
  obtain ⟨d, hdget, rfl⟩ := Memory.ledger_assessment.mp hd
  -- the assessments and the id of the rule are there as before
  have hs' : ks'[m]? = some s := getElem?_of_prefix hoff.named hs
  cases Option.some.inj (ht.symm.trans hs')
  refine ⟨x, b.records_vulnerabilities _ ▸ hx.stored, fun hstays => hgone ⟨s, x, hs', ?_⟩, z,
    b.records_vulnerabilities _ ▸ hz.stored, hz.ruleId.trans hx.ruleId.symm, ?_⟩
  · refine ⟨b.records_vulnerabilities _ ▸ hstays, hx.ruleId, ?_⟩
    obtain ⟨a, ha, hid⟩ := hx.assessmentId
    exact ⟨a, getElem?_of_prefix hoff.assessments ha, hid⟩
  · have hafter := getElem?_of_prefix hoff.assessments hdget
    rw [← (h.abreast.off.property hx hcget).2, ← (hoff.charted.property hz hafter).2]
    exact hp

/-- Where the call splits nothing, what is found in the second play stays covered. -/
theorem Paired.level {on off : Policy} {es : List Ledger.Entry} {ks ks' : List String}
    (h : Paired idOf p ids q ids')
    (hstride : b.view.Stride ids { p.world with clock := turn.clock } ids'
      { q.world with clock := turn.clock } es ks (p.step on turn).world ks' (q.step off turn).world)
    (hlevel : ((b.view.records p.world.store).ledger ids).Level
      ((b.view.records q.world.store).ledger ids'))
    (hwhole : ¬q.Splits off turn) :
    ((b.view.records (p.step on turn).world.store).ledger ks).Level
      ((b.view.records (q.step off turn).world.store).ledger ks') := by
  have hsplits := mt (h.splits hstride) hwhole
  have hknown := Memory.known_ledger (b.view.records q.world.store) ids'
  rw [hstride.off.ledger] at hsplits
  rw [hstride.on.ledger, hstride.off.ledger]
  rcases hstride.single with ⟨e, rfl⟩ | hes
  · exact hlevel.enter h.abreast.below hknown fun _ => hsplits
  · exact hlevel.enterAll h.abreast.below hknown hes

/-! ## Whole plays -/

theorem Paired.after (h : Paired idOf p ids q ids') (enforced : Bool) {turns : List Turn}
    (hfits : ∀ turn ∈ turns, turn.deed.Fits b.view idOf)
    (hcalm : Never ⟨false, enforced⟩ (Overflows ⟨false, enforced⟩) q turns) :
    ∃ ks ks', Paired idOf (p.after ⟨true, enforced⟩ turns) ks (q.after ⟨false, enforced⟩ turns) ks' ∧
      (Never ⟨false, enforced⟩ (Splits ⟨false, enforced⟩) q turns →
        ((b.view.records p.world.store).ledger ids).Level
          ((b.view.records q.world.store).ledger ids') →
        ((b.view.records (p.after ⟨true, enforced⟩ turns).world.store).ledger ks).Level
          ((b.view.records (q.after ⟨false, enforced⟩ turns).world.store).ledger ks')) := by
  induction turns generalizing p q ids ids' with
  | nil => exact ⟨ids, ids', h, fun _ hlevel => hlevel⟩
  | cons turn rest ih =>
    obtain ⟨es, ks, ks', hnext, hstride⟩ := h.step enforced (hfits turn List.mem_cons_self) hcalm.1
    obtain ⟨ls, ls', hafter, hlevels⟩ :=
      ih hnext (fun t ht => hfits t (List.mem_cons_of_mem turn ht)) hcalm.2
    exact ⟨ls, ls', hafter, fun hwhole hlevel =>
      hlevels hwhole.2 (h.level hstride hlevel hwhole.1)⟩

end Play

namespace Backing

variable {b : Backing} {w : World b.Store}

/-- A store in which there may be catalogs, but nothing else. -/
structure Blank (b : Backing) (w : World b.Store) : Prop where
  rules : (b.view.records w.store).rules = []
  vulnerabilities : (b.view.records w.store).vulnerabilities = []
  assessments : (b.view.records w.store).assessments = []

theorem Blank.charted (h : b.Blank w) (hw : b.view.Sound [] w) : b.view.Charted [] w where
  toSound := hw
  windows := by simp [h.rules, Shelf.records]
  nodup := List.nodup_nil
  issued := by simp
  used s hs := by
    simp [Memory.Uses, Shelf.keys, Shelf.records, h.rules, h.vulnerabilities, h.assessments] at hs
  listed := by simp [h.rules, Shelf.keys]
  opened := by simp [h.vulnerabilities, Shelf.records]

/-- Turns are played twice from a store without rules and assessments, once with
duplicates avoided and once without. -/
theorem unresolved_dedupe (hw : b.Reached [] w) (hblank : b.Blank w) (enforced : Bool)
    {turns : List Turn} (hfits : ∀ turn ∈ turns, turn.deed.Fits b.view w.idOf)
    (hcalm : Play.Never ⟨false, enforced⟩ (Play.Overflows ⟨false, enforced⟩) ⟨[], w⟩ turns) :
    (∀ n y, (Play.after ⟨true, enforced⟩ ⟨[], w⟩ turns).Unresolved n y →
      (Play.after ⟨false, enforced⟩ ⟨[], w⟩ turns).Unresolved n y) ∧
    (Play.Never ⟨false, enforced⟩ (Play.Splits ⟨false, enforced⟩) ⟨[], w⟩ turns →
      ∀ n y, (Play.after ⟨false, enforced⟩ ⟨[], w⟩ turns).Unresolved n y →
        ∃ z, z.Matches y ∧ (Play.after ⟨true, enforced⟩ ⟨[], w⟩ turns).Unresolved n z) := by
  have hcharted := hblank.charted hw.sound
  have hstart : Play.Paired w.idOf ⟨[], w⟩ [] ⟨[], w⟩ [] :=
    ⟨⟨rfl, rfl⟩, ⟨rfl, rfl⟩, hcharted, hcharted, rfl, rfl, rfl, rfl, rfl, fun _ _ hfound => hfound⟩
  obtain ⟨ks, ks', hafter, hlevel⟩ := hstart.after enforced hfits hcalm
  constructor
  · intro n y hon
    obtain ⟨k, a, hfound, ha, hy⟩ :=
      (Play.unresolved_iff hafter.abreast.on hafter.rules.1).mp hon
    exact (Play.unresolved_iff hafter.abreast.off hafter.rules.2).mpr
      ⟨k, a, hafter.abreast.below.found n k hfound, hafter.abreast.below.assessments ▸ ha, hy⟩
  · intro hwhole n y hoff
    obtain ⟨k, a, hfound, ha, rfl⟩ :=
      (Play.unresolved_iff hafter.abreast.off hafter.rules.2).mp hoff
    obtain ⟨j, c, hj, hc, hp⟩ := hlevel hwhole (fun n k a hfound ha => ⟨k, a, hfound, ha, .inl rfl⟩)
      n k a hfound ha
    exact ⟨c.propertyId, hp,
      (Play.unresolved_iff hafter.abreast.on hafter.rules.1).mpr ⟨j, c, hj, hc, rfl⟩⟩

/-! ## Turns at a house -/

/-- A call that adds to a catalog. -/
def sort (name : String) : Call :=
  .createObservationType (.text name) (.text "ENUM") .null (.bool false)

/-- A store that knows what is to be observed of a tap and of a pipe. -/
def surveyed : World Memory :=
  (((sort "pipe").run {} Memory.storage).run
    (((sort "tap").run {} Memory.storage).run (start .memory)).2).2

theorem Reached.sort {w : World Memory} (h : Reached .memory [] w) (name : String) :
    Reached .memory [] (((sort name).run {} Memory.storage).run w).2 :=
  h.call {} (c := .createObservationType _ _ _ _) trivial

theorem reached_surveyed : Reached .memory [] surveyed :=
  .sort (.sort (.empty _ 0 letters letters_injective isWhole_letters) "tap") "pipe"

theorem blank_surveyed : Blank .memory surveyed := ⟨rfl, rfl, rfl⟩

/-- A rule's tree that asks for a drip. -/
def drips (typeId : String) : Value :=
  .object [("join_operator", .text "AND"), ("conditions", .list
    [.object [("observation_type_id", .text typeId), ("value", .text "drips")]])]

/-- What is observed of the tap and of the pipe. -/
def observed (tap pipe : Value) : Value :=
  .list [.object [("observation_type_id", .text "a"), ("value", tap)],
    .object [("observation_type_id", .text "aa"), ("value", pipe)]]

theorem valid_secondDay : 1 ≤ 2024 ∧ 2024 ≤ 9999 ∧ 1 ≤ 1 ∧ 1 ≤ 12 ∧ 1 ≤ 2 ∧
    2 ≤ Time.daysInMonth 2024 1 := by
  decide

def noon : Time.Stamp := ⟨⟨2024, 1, 2, valid_secondDay⟩, .midnight, .utc⟩

def atNoon (deed : Deed) : Turn := ⟨noon, deed⟩

/-- A rule on taps finds the same twice, whatever the pipe is like. -/
def visits (first second : Value) : List Turn :=
  [atNoon (.createRule { name := .text "Drip", description := .text "It drips.", tree := drips "a" }),
    atNoon (.record (.int 7) (observed (.text "drips") first) .null),
    atNoon (.record (.int 7) (observed (.text "drips") second) .null),
    atNoon (.process (.stored (.nth 0)) none), atNoon (.process (.stored (.nth 1)) none)]

theorem visited : ∃ z, z.Matches (.int 7) ∧ (Play.after (b := .memory) ⟨true, false⟩ ⟨[], surveyed⟩
    (visits (.text "dry") (.text "drips"))).Unresolved 0 z := by
  have hfits : ∀ turn ∈ visits (.text "dry") (.text "drips"),
      turn.deed.Fits memory.view surveyed.idOf := by
    simp [visits, atNoon, Deed.Fits, Subject.Fits, Reference.Fits]
  have h := unresolved_dedupe reached_surveyed blank_surveyed false hfits (by decide +kernel)
  exact h.2 (by decide +kernel) 0 (.int 7) (by decide +kernel)

/-! ## Duplicates that matter -/

/-- The rule is changed where both visits have left what they found. -/
def change (p : Play .memory) (document : Value) : Play .memory :=
  p.step ⟨false, false⟩ (atNoon (.updateRule (.nth 0) { tree := some document }))

/-- The rule as it was created. -/
def dripRule : Rule where
  id := .text "aaa"
  name := .text "Drip"
  description := .text "It drips."
  tree := ⟨.and, [.leaf { typeId := "a", value := .text "drips" }]⟩
  effectiveFrom := .text "2024-01-02T00:00:00+00:00"
  effectiveTo := .null
  isActive := .bool true
  version := 1
  createdAt := .text "2024-01-02T00:00:00+00:00"
  updatedAt := "2024-01-02T00:00:00+00:00"

def finding (id assessment : String) : Vulnerability :=
  .opened id "aaa" assessment (.int 7) "2024-01-02T00:00:00+00:00"

/-- What both visits find. -/
def findings : List Vulnerability := [finding "aaaaaa" "aaaa", finding "aaaaaaa" "aaaaa"]

/-- What a change comes to once it is known what is read for it. -/
theorem change_eq {p : Play .memory} {fields : List (String × Value)} (tree : Criteria)
    (hrules : p.rules = [.text "aaa"]) (hclock : p.world.clock = noon)
    (hget : Memory.find p.world.store.rules (.text "aaa") = .ok (some dripRule))
    (hstamps : stampAll (p.world.store.vulnerabilities.records.filter
        (·.ruleId.equal (.text "aaa"))) = .ok (findings.map (noon, ·)))
    (htree : (((some (Value.object fields)).mapM (Rules.checkTree memory.view.storage)).run
      p.world).1 = .ok (some tree)) :
    change p (.object fields) = ⟨[.text "aaa"], ((Rules.settle memory.view.storage dripRule
      (.text "aaa") (Rules.changeOf { tree := some (.object fields) } none (some tree) none) tree
      findings).run p.world).2⟩ := by
  have hget : (memory.view.storage.perform (.getRule (.text "aaa"))).run p.world =
      (.ok (some dripRule), p.world) :=
    (Memory.run_look (fun m => Memory.find m.rules (.text "aaa")) p.world).trans (Prod.ext hget rfl)
  have hlist : (memory.view.storage.perform (.listVulnerabilitiesForRule (.text "aaa"))).run p.world =
      (.ok findings, p.world) := by
    refine (Memory.run_look (fun m => Memory.byDetection
      (m.vulnerabilities.records.filter (·.ruleId.equal (.text "aaa")))) p.world).trans
        (Prod.ext ?_ rfl)
    simp only [Memory.byDetection, hstamps]
    rw [List.mergeSort_of_pairwise (by decide)]
    rfl
  have hchecked := Op.Keeps.state (I := (· = p.world)) <|
    (memory.lawful.triple_checkedTree (some (.object fields)) p.world).mono (fun _ _ ht => ht.1)
      fun _ _ ht => ht
  have hpre : Rules.preflight { tree := some (.object fields) } dripRule = .ok (none, none) := rfl
  have hsettle := Rules.run_update_settle (by rfl) rfl hget hpre (Prod.ext htree hchecked) hlist
  rw [change, (Play.step_eq (b := .memory) (x := Rules.update memory.view.storage (.text "aaa")
    { tree := some (.object fields) }) (f := .ruleUpdate) (by rw [hrules]; rfl) (fun _ => rfl)).2,
    hrules, atNoon, ← hclock]
  exact congrArg (fun x => Play.mk [.text "aaa"] x.2) hsettle

/-- The rule comes to ask for a dripping pipe. What was found first is removed, and the
second finding, which would have been left, was skipped as a duplicate. -/
theorem finding_lost :
    (Play.after (b := .memory) ⟨false, false⟩ ⟨[], surveyed⟩ (visits (.text "dry") (.text "drips") ++
      [atNoon (.updateRule (.nth 0) { tree := some (drips "aa") })])).Unresolved 0 (.int 7) ∧
    ¬(Play.after (b := .memory) ⟨true, false⟩ ⟨[], surveyed⟩ (visits (.text "dry") (.text "drips") ++
      [atNoon (.updateRule (.nth 0) { tree := some (drips "aa") })])).Unresolved 0 (.int 7) := by
  refine ⟨?_, by decide +kernel⟩
  rw [Play.after, List.foldl_append]
  show (change (.after ⟨false, false⟩ ⟨[], surveyed⟩ (visits (.text "dry") (.text "drips")))
    (drips "aa")).Unresolved 0 (.int 7)
  rw [drips, change_eq ⟨.and, [.leaf { typeId := "aa", value := .text "drips" }]⟩
    (by decide +kernel) (by decide +kernel) (by decide +kernel) (by decide +kernel)
    (by decide +kernel)]
  decide +kernel

/-- A rule's tree that asks for a flow of more than five. -/
def gushes : Value :=
  .object [("join_operator", .text "AND"), ("conditions", .list
    [.object [("observation_type_id", .text "aa"), ("operator", .text "GREATER_THAN"),
      ("value_type", .text "NUMBER"), ("value", .int 5)]])]

/-- The rule comes to ask for a flow, and a third visit finds one. -/
def flooded : List Turn :=
  [atNoon (.updateRule (.nth 0) { tree := some gushes }),
    atNoon (.record (.int 8) (observed (.text "dry") (.int 9)) .null),
    atNoon (.process (.stored (.nth 2)) none)]

/-- The change overflows on the second finding, so the rule stays as it was, unless that
finding was skipped as a duplicate. -/
theorem finding_added :
    (Play.after (b := .memory) ⟨true, false⟩ ⟨[], surveyed⟩
      (visits (.int 0) (.int (10 ^ 400)) ++ flooded)).Unresolved 0 (.int 8) ∧
    ¬(Play.after (b := .memory) ⟨false, false⟩ ⟨[], surveyed⟩
      (visits (.int 0) (.int (10 ^ 400)) ++ flooded)).Unresolved 0 (.int 8) := by
  refine ⟨by decide +kernel, ?_⟩
  rw [Play.after, List.foldl_append]
  show ¬(Play.after ⟨false, false⟩ (change (.after ⟨false, false⟩ ⟨[], surveyed⟩
    (visits (.int 0) (.int (10 ^ 400)))) gushes) flooded.tail).Unresolved 0 (.int 8)
  rw [gushes, change_eq ⟨.and, [.leaf
      { typeId := "aa", operator := .greaterThan, kind := .number, value := .int 5 }]⟩
    (by decide +kernel) (by decide +kernel) (by decide +kernel) (by decide +kernel)
    (by decide +kernel)]
  decide +kernel

end Backing

end PropertyRisk
