import PropertyRisk.Proofs.Asking
import PropertyRisk.Proofs.Reconciled
import PropertyRisk.Proofs.Versions

/-!
# Rivals

While a call changes a rule, other clients may write to the same rule or delete it. In
`Storage.contested` they do so after any request that the call makes before it writes, and
these requests may fail. The calls of rivals come to `Backing.outcomes` of the rule, and as
long as the call has not written, it has not touched the rule itself (`Backing.Fair`). So
it writes only to the version that it read, and there is none but its own change.
-/

namespace PropertyRisk

open Op (Triple Keeps)
open Engine

/-- What another client does to a rule. -/
inductive Rival
  | writes (change : RuleChange) (expected : Option Value)
  | deletes

namespace Rival

/-- A tree that is written has been read from a document. -/
def IsSound : Rival → Prop
  | writes change _ => change.IsRead
  | deletes => True

/-- What a rival does to the rule under an id, and whether it took effect. -/
def act (g : Storage σ) (s : String) : Rival → σ → Bool × σ
  | writes change expected, t =>
    match (g.perform (.updateRule (.text s) change expected)).run t with
    | (.ok (some _), t) => (true, t)
    | (_, t) => (false, t)
  | deletes, t =>
    match (g.perform (.deleteRule (.text s))).run t with
    | (.ok true, t) => (true, t)
    | (_, t) => (false, t)

/-- What rivals do one after another, and how often it took effect. -/
def actAll (g : Storage σ) (s : String) : List Rival → σ → Nat × σ
  | [], t => (0, t)
  | c :: rest, t =>
    let (took, t) := c.act g s t
    let (others, t) := actAll g s rest t
    (took.toNat + others, t)

end Rival

/-- What happens at a request: what befalls it, and what rivals do before the next one. -/
structure Round where
  mishap : Storage.Mishap := .passes
  rivals : List Rival := []

/-- A world that is shared with rivals: what is to happen at the next requests, what the
rivals have done and how often it took effect, and the errors that requests ended in. -/
structure Contest (S : Type) where
  world : World S
  rounds : List Round
  made : List Rival := []
  took : Nat := 0
  errors : List Error := []

namespace Contest

/-- A request has ended. -/
def after (t : Contest S) (answer : Except Error α) (world : World S) : Contest S :=
  { t with
    world
    errors := match answer with
      | .ok _ => t.errors
      | .error e => e :: t.errors }

/-- Rivals have done what they do. -/
def rivalled (g : Storage (World S)) (s : String) (rivals : List Rival) (t : Contest S) : Contest S :=
  { t with
    world := (Rival.actAll g s rivals t.world).2
    made := t.made ++ rivals
    took := t.took + (Rival.actAll g s rivals t.world).1 }

end Contest

/-- A storage that is shared with rivals for a rule. A change of the rule is written in one
step; any other request takes a round. -/
def Storage.contested (g : Storage (World S)) (s : String) : Storage (Contest S) where
  now := Op.within ⟨Contest.world, fun world t => { t with world }⟩ g.now
  perform r := fun t =>
    if r.operation = .updateRule then
      let (answer, w) := (g.perform r).run t.world
      (answer, t.after answer w)
    else
      let round := t.rounds.head?.getD {}
      let (answer, w, _) := (g.faulty.perform r).run (t.world, [round.mishap])
      (answer, ({ t with rounds := t.rounds.tail }.after answer w).rivalled g s round.rivals)

namespace Backing

variable {b : Backing} {w : World b.Store} {s : String} {r : Rule}

/-! ## What becomes of the rule -/

/-- What a rival makes of a rule that may be gone, and whether this is anything. -/
def outcome (b : Backing) (now : String) : Rival → Option Rule → Bool × Option Rule
  | _, none => (false, none)
  | .writes change expected, some r =>
    match b.revised change expected now r with
    | .ok (some r') => (true, some r')
    | _ => (false, some r)
  | .deletes, some _ => (true, none)

def outcomes (b : Backing) (now : String) : List Rival → Option Rule → Nat × Option Rule
  | [], r? => (0, r?)
  | c :: rest, r? =>
    let (took, r?) := b.outcome now c r?
    let (others, r?) := outcomes b now rest r?
    (took.toNat + others, r?)

theorem outcomes_append (b : Backing) (now : String) (cs ds : List Rival) (r? : Option Rule) :
    b.outcomes now (cs ++ ds) r? =
      ((b.outcomes now cs r?).1 + (b.outcomes now ds (b.outcomes now cs r?).2).1,
        (b.outcomes now ds (b.outcomes now cs r?).2).2) := by
  induction cs generalizing r? with
  | nil => simp [outcomes]
  | cons c rest ih => simp [outcomes, ih, Nat.add_assoc]

theorem outcomes_none (b : Backing) (now : String) (cs : List Rival) :
    b.outcomes now cs none = (0, none) := by
  induction cs with
  | nil => rfl
  | cons c rest ih => simp [outcomes, outcome, ih]

/-- A rule that is still there is as many versions on as rivals took effect. -/
theorem version_of_outcomes (b : Backing) {now : String} {cs : List Rival} {n : Nat} {r' : Rule}
    (h : b.outcomes now cs (some r) = (n, some r')) :
    r'.version = r.version + n ∧ (n = 0 → r' = r) := by
  induction cs generalizing r n with
  | nil =>
    cases h
    exact ⟨(Int.add_zero _).symm, fun _ => rfl⟩
  | cons c rest ih =>
    simp only [outcomes] at h
    cases c with
    | deletes =>
      simp only [outcome, outcomes_none] at h
      cases h
    | writes change expected =>
      rcases hrevised : b.revised change expected now r with e | _ | r₁ <;>
        simp only [outcome, hrevised] at h <;>
        rcases hrest : b.outcomes now rest _ with ⟨others, r?⟩ <;> rw [hrest] at h <;> cases h
      · simpa using ih hrest
      · simpa using ih hrest
      -- a change that was written counts
      · obtain ⟨tree, kept, -, -, rfl, -⟩ := revised_eq_some hrevised
        obtain ⟨hversion, -⟩ := ih hrest
        refine ⟨?_, fun hnone => by simp at hnone⟩
        rw [hversion]
        simp only [Rule.changed, Bool.toNat_true]
        omega

theorem plain_of_ruleAt : ∀ {b : Backing} {w : World b.Store}, b.RulesInOrder w →
    b.ruleAt w s = some r → b.view.Plain s
  | memory, _, _, _ => trivial
  | tables, _, h, hr => (h.rules.id_of_get? hr).1

/-- What a rival does to a rule is known from the rule alone. -/
theorem act_rival (h : b.RulesInOrder w) (hs : b.view.Plain s) {c : Rival} (hc : c.IsSound) :
    ∃ w', c.act b.storage s w = ((b.outcome w.clock.text c (b.ruleAt w s)).1, w') ∧
      b.RulesInOrder w' ∧ w'.clock = w.clock ∧
      b.ruleAt w' s = (b.outcome w.clock.text c (b.ruleAt w s)).2 := by
  have hn (operation : Operation) : b.view.name operation (.text s) = .ok (some s) :=
    b.lawful.name_text hs
  cases c with
  | deletes =>
    obtain ⟨w', hrun, horder, hb⟩ := b.run_eraseRule h (.text s)
    refine ⟨w', ?_, horder, hb.follows.clock, ?_⟩
    · rw [Rival.act, hrun, View.look_of_name (hn _)]
      show _ = ((b.outcome w.clock.text .deletes (b.ruleAt w s)).1, w')
      rw [ruleAt]
      cases (b.view.records w.store).rules.get? (.text s) <;> rfl
    · rw [ruleAt_eq hb, View.drop_of_name (hn _), Shelf.get?_erase, if_pos rfl]
      cases b.ruleAt w s <;> rfl
  | writes change expected =>
    cases hr : b.ruleAt w s with
    | none =>
      obtain ⟨answer, hrun, hnone⟩ := run_writeRule_of_none change expected h hs hr
      refine ⟨w, ?_, h, rfl, hr⟩
      rw [Rival.act, hrun]
      rcases answer with _ | _ | r'
      · rfl
      · rfl
      · exact absurd rfl (hnone r')
    | some r =>
      obtain ⟨w', hrun, horder, hb⟩ := b.run_writeRule change expected h hc (hn _) hr
      refine ⟨w', ?_, horder, hb.follows.clock, ?_⟩
      · rw [Rival.act, hrun]
        simp only [outcome]
        rcases b.revised change expected w.clock.text r with _ | _ | r' <;> rfl
      · simp only [ruleAt_eq hb, outcome]
        rcases b.revised change expected w.clock.text r with _ | _ | r'
        · exact hr
        · exact hr
        · simp [Shelf.get?_put]

theorem actAll_rivals (h : b.RulesInOrder w) (hs : b.view.Plain s) {cs : List Rival}
    (hc : ∀ c ∈ cs, c.IsSound) :
    ∃ w', Rival.actAll b.storage s cs w = ((b.outcomes w.clock.text cs (b.ruleAt w s)).1, w') ∧
      b.RulesInOrder w' ∧ w'.clock = w.clock ∧
      b.ruleAt w' s = (b.outcomes w.clock.text cs (b.ruleAt w s)).2 := by
  induction cs generalizing w with
  | nil => exact ⟨w, rfl, h, rfl, rfl⟩
  | cons c rest ih =>
    obtain ⟨w₁, hact, h₁, hclock₁, hrule₁⟩ := act_rival h hs (hc c List.mem_cons_self)
    obtain ⟨w₂, hrest, h₂, hclock₂, hrule₂⟩ := ih h₁ fun d hd => hc d (List.mem_cons_of_mem c hd)
    rw [hclock₁, hrule₁] at hrest hrule₂
    refine ⟨w₂, ?_, h₂, hclock₂.trans hclock₁, hrule₂⟩
    rw [Rival.actAll, hact]
    simp only [hrest]
    rfl

/-! ## Before the change is written -/

/-- A shared world in which the rule that was read has gone through what the rivals have
done, and nothing else. -/
structure Fair (b : Backing) (s : String) (now : String) (r : Rule) (t : Contest b.Store) : Prop where
  inOrder : b.RulesInOrder t.world
  clock : t.world.clock.text = now
  rounds : ∀ round ∈ t.rounds, ∀ c ∈ round.rivals, c.IsSound
  made : ∀ c ∈ t.made, c.IsSound
  outcomes : b.outcomes now t.made (some r) = (t.took, b.ruleAt t.world s)

namespace Fair

variable {now : String} {t : Contest b.Store}

theorem after (h : b.Fair s now r t) {w' : World b.Store} (horder : b.RulesInOrder w')
    (hb : t.world.Beside (fun x => (b.view.records x).rules) w') (answer : Except Error α) :
    b.Fair s now r (t.after answer w') where
  inOrder := horder
  clock := (congrArg Time.Stamp.text hb.1.clock).trans h.clock
  rounds := h.rounds
  made := h.made
  outcomes := h.outcomes.trans (congrArg (t.took, ·) (ruleAt_of_beside hb s).symm)

theorem rivalled (h : b.Fair s now r t) (hs : b.view.Plain s) {cs : List Rival}
    (hc : ∀ c ∈ cs, c.IsSound) : b.Fair s now r (t.rivalled b.storage s cs) := by
  obtain ⟨w', hact, horder, hclock, hrule⟩ := actAll_rivals h.inOrder hs hc
  rw [h.clock] at hact hrule
  unfold Contest.rivalled
  rw [hact]
  refine ⟨horder, (congrArg Time.Stamp.text hclock).trans h.clock, h.rounds, fun c hmem => ?_, ?_⟩
  · exact (List.mem_append.mp hmem).elim (h.made c) (hc c)
  · rw [outcomes_append, h.outcomes, hrule]

/-- The rivals alone would have left the rule as it is. -/
theorem ruleAt_eq (h : b.Fair s w.clock.text r t) (hw : b.RulesInOrder w)
    (hr : b.ruleAt w s = some r) :
    b.ruleAt t.world s = b.ruleAt (Rival.actAll b.storage s t.made w).2 s := by
  obtain ⟨w', hact, -, -, hrule⟩ := actAll_rivals hw (plain_of_ruleAt hw hr) h.made
  rw [hact, hrule, hr, h.outcomes]

/-- A request that is not about rules, and then what rivals do. -/
theorem triple_perform (h : b.Fair s now r t) (hs : b.view.Plain s) {q : Request α}
    (hq : q.operation ≠ .updateRule) {Q : α → Prop}
    (hrun : Triple (b.storage.perform q) t.world
      (fun a w' => Q a ∧ b.RulesInOrder w' ∧ t.world.Beside (fun x => (b.view.records x).rules) w')
      (fun _ w' => b.RulesInOrder w' ∧ t.world.Beside (fun x => (b.view.records x).rules) w')) :
    Triple ((b.storage.contested s).perform q) t (fun a t' => Q a ∧ b.Fair s now r t')
      (fun e t' => e ∈ t'.errors ∧ b.Fair s now r t') := by
  have hkeep := World.Beside.refl (fun x => (b.view.records x).rules) t.world
  have hfaulty := Storage.triple_faulty hrun [(t.rounds.head?.getD {}).mishap]
    (fun _ => ⟨h.inOrder, hkeep⟩) (fun _ _ _ ht => ht.2) fun _ _ _ ht => ht
  have hrounds : ∀ c ∈ (t.rounds.head?.getD {}).rivals, c.IsSound := by
    cases hround : t.rounds.head? with
    | none => exact nofun
    | some round => exact h.rounds round (List.mem_of_mem_head? hround)
  have hnext : b.Fair s now r { t with rounds := t.rounds.tail } :=
    { h with rounds := fun round hmem => h.rounds round (List.mem_of_mem_tail hmem) }
  unfold Triple at hfaulty ⊢
  simp only [Op.run, Storage.contested, if_neg hq] at hfaulty ⊢
  rcases hans : b.storage.faulty.perform q (t.world, [(t.rounds.head?.getD {}).mishap])
    with ⟨e | a, w', rest⟩ <;> rw [hans] at hfaulty
  · exact ⟨List.mem_cons_self, (hnext.after hfaulty.1 hfaulty.2 _).rivalled hs hrounds⟩
  · exact ⟨hfaulty.1, (hnext.after hfaulty.2.1 hfaulty.2.2 _).rivalled hs hrounds⟩

/-- The change is written only to the version that was read, so no rival has taken effect. -/
theorem triple_write (h : b.Fair s now r t) (hs : b.view.Plain s) {change : RuleChange}
    {tree : Option Criteria} (hc : change.Proper tree)
    (htree : ∀ c, tree = some c → ∃ document, Criteria.read document = .ok c) :
    Triple ((b.storage.contested s).perform (.updateRule (.text s) change (some (.int r.version)))) t
      (fun found t' => match found with
        | none => b.Fair s now r t'
        | some r' => t'.took = 0 ∧ b.ruleAt t'.world s = some r' ∧
            r' = r.changed (b.view.kept change) tree now)
      (fun e t' => e ∈ t'.errors ∧ b.Fair s now r t') := by
  have hn : b.view.name .updateRule (.text s) = .ok (some s) := b.lawful.name_text hs
  have hread : change.IsRead := hc.isRead htree
  unfold Triple
  simp only [Op.run, Storage.contested]
  cases hr : b.ruleAt t.world s with
  | none =>
    obtain ⟨answer, hrun, hnone⟩ := run_writeRule_of_none change (some (.int r.version)) h.inOrder
      hs hr
    have hsame := h.after h.inOrder (.refl _ _) answer
    simp only [Op.run] at hrun
    rw [hrun]
    rcases answer with e | _ | r'
    · exact ⟨List.mem_cons_self, hsame⟩
    · exact hsame
    · exact absurd rfl (hnone r')
  | some r₁ =>
    obtain ⟨w', hrun, horder, hb⟩ := b.run_writeRule change (some (.int r.version)) h.inOrder
      hread hn hr
    simp only [Op.run] at hrun
    rw [hrun]
    rw [h.clock] at hb ⊢
    rcases hrevised : b.revised change (some (.int r.version)) now r₁ with e | _ | r' <;>
      rw [hrevised] at hb
    · exact ⟨List.mem_cons_self, h.after horder ⟨hb.follows, congrArg Memory.rules hb.records⟩ _⟩
    · exact h.after horder ⟨hb.follows, congrArg Memory.rules hb.records⟩ _
    · -- each rival that takes effect adds one to the version, and it is still the one that was read
      obtain ⟨-, -, -, hversion, -⟩ := revised_eq_some hrevised
      obtain ⟨hcount, hsame⟩ := b.version_of_outcomes (h.outcomes.trans (by rw [hr]))
      have htook : t.took = 0 := by
        have := hversion _ rfl
        omega
      cases hsame htook
      refine ⟨htook, ?_, revised_of_proper hc hrevised⟩
      show b.ruleAt w' s = _
      rw [Backing.ruleAt_eq hb, Shelf.get?_put, if_pos rfl]

end Fair

/-- What a call relies on before it writes its change, and the errors that it may end in:
those of its requests, and its own. -/
def contest (b : Backing) (s : String) (now : String) (r : Rule) : Contract (Contest b.Store) where
  inv := b.Fair s now r
  may q := q.writesRules = false
  errs e t := e ∈ t.errors ∨ (∃ i, e = .invalid i) ∨ e = .fault .tooLarge

theorem meets_contest {now : String} (hs : b.view.Plain s) :
    (b.storage.contested s).Meets (b.contest s now r) where
  now t := by
    refine ⟨t.world.clock, ?_⟩
    show (Op.within _ b.storage.now).run t = _
    have hnow := b.view_storage ▸ b.lawful.now (w := t.world)
    simp only [Op.run] at hnow
    simp only [Op.run, Op.within, hnow]
  perform {α q t} hq h := by
    have hop : q.operation ≠ .updateRule := by
      intro he
      cases q with
      | updateRule => exact Bool.noConfusion hq
      | _ => cases he
    refine (h.triple_perform hs (Q := fun _ => True) hop ((b.keeps_rules h.inOrder hq).mono
      (fun _ _ ht => ⟨trivial, ht⟩) fun _ _ ht => ht)).mono (fun _ _ ht => ht)
      fun _ _ ht => ⟨.inl ht.1, ht.2⟩
  overflow _ := .inr (.inr rfl)

end Backing

/-! ## The whole change -/

namespace Backing

variable {b : Backing} {w : World b.Store} {s : String} {r : Rule} {patch : RulePatch}

theorem triple_getContested {now : String} {t : Contest b.Store} (h : b.Fair s now r t)
    (hr : b.ruleAt t.world s = some r) (hs : b.view.Plain s) :
    Triple (Rules.get (b.storage.contested s) (.text s)) t
      (fun current t' => current = r ∧ b.Fair s now r t')
      (fun e t' => e ∈ t'.errors ∧ b.Fair s now r t') := by
  refine Triple.bind (h.triple_perform hs (q := .getRule (.text s)) (Q := fun found => found = some r)
    nofun (Triple.of_run (t := t.world) (a := some r) ?_ ⟨rfl, h.inOrder, .refl _ _⟩)) ?_
  · rw [run_getRule_at h.inOrder hs, hr]
  · rintro found t' ⟨rfl, ht⟩
    exact Triple.pure ⟨rfl, ht⟩

/-- A checked change is applied, or the rule stays as the rivals have left it. -/
theorem triple_applyContested {now : String} {t : Contest b.Store} (h : b.Fair s now r t)
    (hs : b.view.Plain s) {window : Option Window} {isActive : Option Bool}
    (hwindow : Rules.patchedWindow r patch = .ok (window.map .ok))
    (hflag : Rules.flagOf patch.isActive = .ok isActive) :
    Triple (Rules.apply (b.storage.contested s) r (.text s) patch window isActive) t
      (fun u t' => t'.took = 0 ∧ b.ruleAt t'.world s = some u.rule ∧
        ∃ tree, patch.tree.mapM Criteria.read = .ok tree ∧
          patch.LeadsTo b.view.column tree now r u.rule)
      (fun e t' => (b.contest s now r).errs e t' ∧ b.Fair s now r t') := by
  have hg : (b.storage.contested s).Meets (b.contest s now r) := meets_contest hs
  refine (Rules.triple_checkTrees_of_meets hg Request.writesRules_of_isRead
    (fun i _ => .inr (.inl ⟨i, rfl⟩)) patch.tree h).bind ?_
  rintro tree t ⟨⟨htree, -⟩, h⟩
  refine Triple.bind (hg.upheld rfl h) fun xs t h => ?_
  refine Triple.bind (Rules.upheld_reconcileAll hg (fun hq _ => Request.writesRules_of_isRead hq)
    _ xs (fun _ _ => rfl) h) fun outcomes t h => ?_
  refine Triple.bind ((Fair.triple_write h hs ⟨rfl, rfl, rfl, rfl⟩
    (Criteria.read_of_mapM htree)).mono (fun _ _ ht => ht) fun _ _ ht => ⟨.inl ht.1, ht.2⟩) ?_
  rintro (_ | r') t ht
  · exact Triple.throw ⟨.inr (.inl ⟨_, rfl⟩), ht⟩
  · obtain ⟨htook, hr', rfl⟩ := ht
    exact Triple.pure ⟨htook, hr', tree, htree,
      View.leadsTo_changed b.lawful hwindow hflag now⟩

/-- A change of a rule in the face of rivals. It succeeds only if none of them has taken
effect; then the rule is as the patch makes it of the rule that was read, one version on.
Otherwise the rule is as the rivals have left it, and where the ends of windows are texts,
the error is a refusal, or that of a request of the call, or a number is too large. And in
every state that requests lead to, whoever makes them, the version of a rule is one more
than the changes that were written to it. -/
theorem update_loses_nothing (hw : b.RulesInOrder w) (hr : b.ruleAt w s = some r)
    {rounds : List Round} (hrounds : ∀ round ∈ rounds, ∀ c ∈ round.rivals, c.IsSound)
    (patch : RulePatch) :
    Triple (Rules.update (b.storage.contested s) (.text s) patch) { world := w, rounds }
      (fun u t => t.took = 0 ∧ b.ruleAt t.world s = some u.rule ∧
        ∃ tree, patch.tree.mapM Criteria.read = .ok tree ∧
          patch.LeadsTo b.view.column tree w.clock.text r u.rule)
      (fun e t => b.ruleAt t.world s = b.ruleAt (Rival.actAll b.storage s t.made w).2 s ∧
        (patch.OnTexts r → e ∈ t.errors ∨ (∃ i, e = .invalid i) ∨ e = .fault .tooLarge)) ∧
    ∀ writes v, b.Served writes v → ∀ s' r', b.ruleAt v s' = some r' →
      r'.version = 1 + writes s' := by
  refine ⟨?_, fun writes v hv => hv.counted.version⟩
  have hs := plain_of_ruleAt hw hr
  have hfair : b.Fair s w.clock.text r { world := w, rounds } :=
    ⟨hw, rfl, hrounds, nofun, congrArg (0, ·) hr.symm⟩
  have hend {e : Error} {t : Contest b.Store} (he : (b.contest s w.clock.text r).errs e t)
      (ht : b.Fair s w.clock.text r t) :
      b.ruleAt t.world s = b.ruleAt (Rival.actAll b.storage s t.made w).2 s ∧
        (patch.OnTexts r → e ∈ t.errors ∨ (∃ i, e = .invalid i) ∨ e = .fault .tooLarge) :=
    ⟨ht.ruleAt_eq hw hr, fun _ => he⟩
  unfold Rules.update
  split
  · exact Triple.throw (hend (.inr (.inl ⟨_, rfl⟩)) hfair)
  refine Triple.bind_run (Op.run_ofExcept_ok _ _) ?_
  refine ((triple_getContested hfair hr hs).mono (fun _ _ ht => ht)
    fun _ _ ht => hend (.inl ht.1) ht.2).bind ?_
  rintro current t ⟨rfl, h⟩
  refine Triple.bind_check (fun e he => ⟨h.ruleAt_eq hw hr, fun htexts => ?_⟩) fun window hwindow => ?_
  · obtain ⟨window, hok⟩ := Rules.patchedWindow_of_onTexts htexts
    cases hok.symm.trans he
  have happly {window : Option Window} {isActive : Option Bool}
      (hwindow : Rules.patchedWindow current patch = .ok (window.map .ok))
      (hflag : Rules.flagOf patch.isActive = .ok isActive) :=
    (triple_applyContested h hs hwindow hflag).mono (fun _ _ ht => ht) fun _ _ ht => hend ht.1 ht.2
  split
  · exact happly hwindow ‹_›
  · exact happly hwindow ‹_›
  · exact Triple.throw (hend (.inr (.inl ⟨_, rfl⟩)) h)

/-! ## A leak that is renamed -/

/-- The rule is to be in force no more. -/
def retired : RulePatch where
  isActive := some (.bool false)

/-- Another client gives the rule a name, if it still has the version that is expected. -/
def named (expected : Option Value) : Rival := .writes { name := some (.text "Drip") } expected

/-- The change of the rule, with what happens meanwhile. -/
def retiring (rounds : List Round) : Except Error RuleUpdate × Contest Memory :=
  (Rules.update (Memory.storage.contested "leak") (.text "leak") retired).run { world := leaks, rounds }

/-- A rival that expects another version does not take effect. -/
theorem update_retired : ∃ u t, retiring [{ rivals := [named (some (.int 7))] }] = (.ok u, t) ∧
    t.took = 0 ∧ u.rule.version = 2 := by
  have hsound : ∀ round ∈ [({ rivals := [named (some (.int 7))] } : Round)],
      ∀ c ∈ round.rivals, c.IsSound := by
    intro round hround c hc
    cases List.mem_singleton.mp hround
    cases List.mem_singleton.mp hc
    exact nofun
  have h := (update_loses_nothing (b := memory) (s := "leak") (r := waterRule "leak")
    (rulesInOrder_of_ready memory ready_leaks) rfl hsound retired).1
  have hok : (retiring [{ rivals := [named (some (.int 7))] }]).1.toOption.isSome := by cbv
  rcases hrun : retiring [{ rivals := [named (some (.int 7))] }] with ⟨_ | u, t⟩
  · rw [hrun] at hok
    cases hok
  · obtain ⟨htook, -, tree, -, hto⟩ := h.ok hrun
    exact ⟨u, t, rfl, htook, hto.version⟩

/-- Where a rival has taken effect and a request of the call fails, it ends in this failure. -/
theorem update_retired_unlisted :
    (retiring [{ rivals := [named none] },
      { mishap := .fails ⟨.listVulnerabilitiesForRule, .unstated⟩ }]).1 =
        .error (.storage ⟨.listVulnerabilitiesForRule, .unstated⟩) ∧
    (retiring [{ rivals := [named none] },
      { mishap := .fails ⟨.listVulnerabilitiesForRule, .unstated⟩ }]).2.took = 1 :=
  ⟨rfl, rfl⟩

end Backing

end PropertyRisk
