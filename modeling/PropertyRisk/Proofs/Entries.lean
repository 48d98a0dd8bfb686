import PropertyRisk.Proofs.Charts
import PropertyRisk.Proofs.Processed

/-!
# What calls enter in the ledger

Each call of a run leaves its world at rest or makes entries in its ledger, and
which ones it makes is the same for peers with the same rules and assessments: it
does not matter what they have found. Only a comparison of numbers that are too
large can come between, where something is judged that only one of them has found.
-/

namespace PropertyRisk

open Op (Agree Triple Keeps Quiet)
open Engine
open Engine.Assessments

namespace Ledger

/-- Whether everything that a rule has found can be judged by a tree. -/
def Judges (L : Ledger) (n : Nat) (tree : Criteria) : Prop :=
  ∀ k a, L.found n k → L.assessments[k]? = some a → ∃ t, tree.evaluate a.observations = .ok t

theorem Judges.of_below {K L : Ledger} {n : Nat} {tree : Criteria} (h : L.Judges n tree)
    (hb : K.Below L) : K.Judges n tree :=
  fun k a hk ha => h k a (hb.found n k hk) (hb.assessments ▸ ha)

end Ledger

/-! ## The checks of a patch -/

namespace Engine.Rules

/-- What a patch sets that is checked on the rule alone: the window and the flag. -/
def preflight (patch : RulePatch) (r : Rule) : Except Error (Option Window × Option Bool) :=
  match patchedWindow r patch with
  | .error e => .error e
  | .ok window =>
    match patchProblems patch, window, flagOf patch.isActive with
    | [], none, .ok isActive => .ok (none, isActive)
    | [], some (.ok window), .ok isActive => .ok (some window, isActive)
    | problems, window, _ =>
      .error (.invalid (.ruleChange (problems ++ (window.map problemOf).getD [])))

variable {g : Storage σ} {t : σ} {id : Value} {patch : RulePatch} {r r' : Rule}

/-- A patch of a rule that is there is checked, and then applied. -/
theorem run_update (hknown : patch.unknown.isEmpty = true) (hkey : requireKey id = .ok ())
    (hget : (g.perform (.getRule id)).run t = (.ok (some r), t)) :
    (update g id patch).run t = (Op.ofExcept (preflight patch r) >>= fun p =>
      apply g r id patch p.1 p.2).run t := by
  have hfound : (get g id).run t = (.ok r, t) := Op.run_bind_ok hget
  simp only [update, hknown, Bool.not_true, Bool.false_eq_true, if_false, hkey]
  rw [Op.run_bind_ok (Op.run_ofExcept_ok _ _), Op.run_bind_ok hfound]
  unfold preflight
  cases patchedWindow r patch with
  | error e => rfl
  | ok window =>
    rw [Op.run_bind_ok (Op.run_ofExcept_ok _ _)]
    rcases patchProblems patch with _ | ⟨problem, rest⟩ <;> rcases window with _ | _ | window <;>
      rcases flagOf patch.isActive with _ | isActive <;> rfl

/-- What is left to do for a change once all that it goes by is read. -/
def settle (g : Storage σ) (current : Rule) (id : Value) (change : RuleChange) (tree : Criteria)
    (listed : List Vulnerability) : Op σ RuleUpdate := do
  let outcomes ← reconcileAll g tree listed
  match ← g.perform (.updateRule id change (some (.int current.version))) with
  | none => throw (.invalid (.modifiedConcurrently id))
  | some rule => return ⟨rule, removals outcomes, failures outcomes⟩

theorem run_update_settle (hknown : patch.unknown.isEmpty = true) (hkey : requireKey id = .ok ())
    (hget : (g.perform (.getRule id)).run t = (.ok (some r), t))
    {p : Option Window × Option Bool} (hpre : preflight patch r = .ok p) {tree : Option Criteria}
    (htree : (patch.tree.mapM (checkTree g)).run t = (.ok tree, t)) {xs : List Vulnerability}
    (hlist : (g.perform (.listVulnerabilitiesForRule id)).run t = (.ok xs, t)) :
    (update g id patch).run t =
      (settle g r id (changeOf patch p.1 tree p.2) (tree.getD r.tree) xs).run t := by
  rw [run_update hknown hkey hget, hpre, Op.run_bind_ok (Op.run_ofExcept_ok _ _), apply,
    Op.run_bind_ok htree, Op.run_bind_ok hlist]
  rfl

theorem preflight_unnamed (h : r.unnamed = r'.unnamed) : preflight patch r = preflight patch r' :=
  (congrArg (preflight patch) h : preflight patch r.unnamed = preflight patch r'.unnamed)

theorem checked_of_preflight {p : Option Window × Option Bool} (h : preflight patch r = .ok p) :
    ∀ win, p.1 = some win → ∃ x y, checkWindow x y = .ok (.ok win) := by
  unfold preflight at h
  split at h
  · cases h
  rename_i hwindow
  split at h <;> cases h
  · exact nofun
  · intro win hwin
    cases hwin
    exact ⟨_, _, patchedWindow_eq_some hwindow⟩

end Engine.Rules

namespace View

variable {S : Type} {v : View S} {ids : List String} {w w' u : World S} {n k : Nat} {s : String}
  {x : Vulnerability} {a : Assessment} {r : Rule} {tree : Criteria}

/-! ## Judging what a rule has found -/

section

variable (law : v.Lawful)
include law

theorem run_observed (h : v.Ready w) (hx : v.Text x.assessmentId) :
    (observationsOf v.storage x.assessmentId).run w = (.ok (v.storage.observed w x), w) := by
  obtain ⟨a?, hrun, hobserved⟩ := run_getAssessment_of_text law h hx
  rw [observationsOf, Op.run_bind_ok hrun, hobserved]
  cases a? <;> rfl

theorem triple_reconcile_exact (h : v.Ready w)
    (hx : x ∈ (v.records w.store).vulnerabilities.records) :
    Triple (Rules.reconcile v.storage tree x) w
      (fun _ w' => (∃ t, tree.evaluate (v.storage.observed w x) = .ok t) ∧
        v.Becomes w ((v.records w.store).dropping fun y =>
          decide (y = x) && tree.refutes (v.storage.observed w x)) w')
      (fun e _ => e = .fault .tooLarge ∧
        ∃ e, tree.evaluate (v.storage.observed w x) = .error e) := by
  have hobserved := run_observed law h (h.kept.findings x hx).assessmentId
  refine Triple.bind_run (Op.run_attempt_ok hobserved) ?_
  dsimp only
  cases ht : tree.evaluate (v.storage.observed w x) with
  | error e =>
    -- trees compare nothing where nothing was observed
    have hne : (v.storage.observed w x).isEmpty = false := by
      by_contra hempty
      rw [Bool.not_eq_false, List.isEmpty_iff] at hempty
      cases (hempty ▸ tree.evaluate_nil).symm.trans ht
    rw [if_neg (Bool.eq_false_iff.mp hne)]
    exact Triple.of_run_error (Op.run_bind_error (by rw [judge, ht]; rfl)) ⟨rfl, e, rfl⟩
  | ok t =>
    have hjudged := run_judged ⟨t, ht⟩ Rules.Outcome.kept .kept (Rules.discard v.storage x) w
    cases hr : tree.refutes (v.storage.observed w x) with
    | false =>
      rw [hr, if_neg Bool.false_ne_true] at hjudged
      exact Triple.of_run hjudged ⟨⟨t, rfl⟩, h.becomes_dropping (by simp)⟩
    | true =>
      obtain ⟨w', hrun, hb⟩ := run_deleteStored law h hx
      rw [hr, if_pos rfl, Rules.discard, Op.run_bind_ok (Op.run_attempt_ok hrun)] at hjudged
      exact Triple.of_run hjudged ⟨⟨t, rfl⟩, by simpa using hb⟩

/-- Everything on the list is judged, and what the tree refutes is removed, unless
numbers too large to be compared come between. -/
theorem triple_reconcileAll_exact {xs : List Vulnerability} (h : v.Ready w) (hnd : xs.Nodup)
    (hxs : ∀ x ∈ xs, x ∈ (v.records w.store).vulnerabilities.records) :
    Triple (Rules.reconcileAll v.storage tree xs) w
      (fun _ w' => (∀ x ∈ xs, ∃ t, tree.evaluate (v.storage.observed w x) = .ok t) ∧
        v.Becomes w ((v.records w.store).dropping fun y =>
          decide (y ∈ xs) && tree.refutes (v.storage.observed w y)) w')
      (fun e _ => e = .fault .tooLarge ∧
        ∃ x ∈ xs, ∃ e, tree.evaluate (v.storage.observed w x) = .error e) := by
  induction xs generalizing w with
  | nil =>
    exact Triple.pure ⟨nofun, h.becomes_dropping (by simp)⟩
  | cons x rest ih =>
    obtain ⟨hnew, hnd⟩ := List.nodup_cons.mp hnd
    refine ((triple_reconcile_exact law h (hxs x List.mem_cons_self)).mono (fun _ _ hq => hq)
      fun e _ he => ⟨he.1, x, List.mem_cons_self, he.2⟩).bind ?_
    rintro outcome w₁ ⟨hjudged, hb⟩
    have h₁ : v.Ready w₁ := hb.ready (h.kept.dropping _)
    have hobserved (y : Vulnerability) : v.storage.observed w₁ y = v.storage.observed w y :=
      observed_congr law h h₁ (hb.records ▸ rfl)
    -- the others are still there, and are judged on the same observations
    have hrest := ih h₁ hnd fun y hy => by
      rw [hb.records]
      have hne : y ≠ x := fun he => hnew (he ▸ hy)
      exact Memory.mem_dropping.mpr ⟨hxs y (List.mem_cons_of_mem _ hy), by simp [hne]⟩
    simp only [hobserved, hb.records, Memory.dropping_dropping] at hrest
    refine Triple.bind (hrest.mono (fun _ _ hq => hq) fun e _ he => ?_) ?_
    · obtain ⟨he, y, hy, herr⟩ := he
      exact ⟨he, y, List.mem_cons_of_mem _ hy, herr⟩
    rintro others w₂ ⟨hall, hb₂⟩
    refine Triple.pure ⟨fun y hy => ?_, ?_⟩
    · rcases List.mem_cons.mp hy with rfl | hy
      · exact hjudged
      · exact hall y hy
    · have hsame : (fun y => (decide (y = x) && tree.refutes (v.storage.observed w x)) ||
          (decide (y ∈ rest) && tree.refutes (v.storage.observed w y))) =
          fun y => decide (y ∈ x :: rest) && tree.refutes (v.storage.observed w y) := by
        funext y
        by_cases hyx : y = x
        · subst hyx
          simp [hnew]
        · simp [hyx]
      rw [hsame] at hb₂
      exact hb.trans hb₂

/-! ## Changing a rule -/

/-- What a checked change makes of a rule, if the store takes it. -/
def revision (v : View S) (change : RuleChange) (tree : Option Criteria) (now : String) (r : Rule) :
    Rule :=
  match v.takes change r.version with
  | .ok _ => r.changed (v.kept change) tree now
  | .error _ => r

end

theorem revision_unnamed {r r' : Rule} (h : r.unnamed = r'.unnamed) (change : RuleChange)
    (tree : Option Criteria) (now : String) :
    (v.revision change tree now r).unnamed = (v.revision change tree now r').unnamed := by
  have hsame (r : Rule) :
      (v.revision change tree now r).unnamed = (v.revision change tree now r.unnamed).unnamed := by
    unfold revision
    show _ = (match v.takes change r.version with
      | .ok _ => r.unnamed.changed (v.kept change) tree now
      | .error _ => r.unnamed).unnamed
    cases v.takes change r.version <;> rfl
  rw [hsame r, h, ← hsame r']

/-- What a change of a rule has made of a world: all that the rule had found was
judged by the tree, and the rule is written or it is as it was. -/
structure Revised (v : View S) (w : World S) (s : String) (r' : Rule) (tree : Criteria)
    (w' : World S) : Prop where
  judged : ∀ x ∈ (v.records w.store).vulnerabilities.records, x.ruleId = .text s →
    ∃ t, tree.evaluate (v.storage.observed w x) = .ok t
  becomes : ∃ rules : Shelf Key Rule, (rules = (v.records w.store).rules.put (.text s) r' ∨
      rules = (v.records w.store).rules ∧ rules.get? (.text s) = some r') ∧
    v.Becomes w { (v.records w.store).dropping fun x =>
      decide (x.ruleId = .text s) && tree.refutes (v.storage.observed w x) with rules } w'

section

variable (law : v.Lawful)
include law

/-- A checked window can be read again. -/
theorem readable_revision {patch : RulePatch} {window : Option Window} {isActive : Option Bool}
    {tree : Option Criteria} {now : String} (hr : r.window.Readable)
    (hwindow : ∀ win, window = some win → ∃ x y, Rules.checkWindow x y = .ok (.ok win)) :
    (v.revision (Rules.changeOf patch window tree isActive) tree now r).window.Readable := by
  unfold revision
  split
  · cases window with
    | none => exact hr
    | some win =>
      obtain ⟨x, y, hchecked⟩ := hwindow win rfl
      obtain ⟨hstart, hstop⟩ := kept_window law hchecked
      show Window.Readable ⟨v.column win.start, v.column win.stop⟩
      rw [hstart, hstop]
      exact (Rules.written_of_checkWindow hchecked).readable
  · exact hr

theorem observed_of_finds (h : v.Charted ids w) (hx : (v.records w.store).Finds s k x)
    (ha : (v.records w.store).assessments.records[k]? = some a) :
    v.storage.observed w x = a.observations := by
  obtain ⟨t, -, hid, hget⟩ := h.ready.kept.assessments.get?_of_mem (List.mem_of_getElem? ha)
  have hrun := run_observationsOf law h.ready hget
  rw [← hid, ← (h.property hx ha).1] at hrun
  rw [Storage.observed, hrun]
  rfl

/-- A change that has passed its checks is made, unless something that the rule has
found cannot be judged. -/
theorem triple_apply_revised (h : v.Ready w) (hst : (v.records w.store).Stamped) {id : Value}
    (hn : v.name .getRule id = .ok (some s))
    (hr : (v.records w.store).rules.get? (.text s) = some r) {patch : RulePatch}
    {window : Option Window} {isActive : Option Bool} {tree? : Option Criteria}
    (htree? : (patch.tree.mapM (Rules.checkTree v.storage)).run w = (.ok tree?, w))
    (htree : tree?.getD r.tree = tree) {change : RuleChange}
    (hc : Rules.changeOf patch window tree? isActive = change) :
    Triple (Rules.apply v.storage r id patch window isActive) w
      (fun _ w' => v.Revised w s (v.revision change tree? w.clock.text r) tree w')
      (fun e w' => v.Revised w s (v.revision change tree? w.clock.text r) tree w' ∨
        e = .fault .tooLarge ∧ ∃ x ∈ (v.records w.store).vulnerabilities.records,
          x.ruleId = .text s ∧ ∃ e, tree.evaluate (v.storage.observed w x) = .error e) := by
  obtain ⟨xs, hperm, hlist⟩ := law.listForRule h hst
    (law.name_congr .listVulnerabilitiesForRule hn)
  have hmem := mem_listed hperm
  refine Triple.bind_run htree? (Triple.bind_run hlist ?_)
  rw [htree, hc]
  refine Triple.bind ((triple_reconcileAll_exact law h (h.nodup_listed hperm)
    fun x hx => ((hmem x).mp hx).1).mono (fun _ _ hq => hq) fun e _ he => ?_) ?_
  · obtain ⟨he, x, hx, herr⟩ := he
    exact .inr ⟨he, x, ((hmem x).mp hx).1, ((hmem x).mp hx).2, herr⟩
  rintro outcomes u ⟨hjudged, hb⟩
  rw [Memory.dropping_listed hperm] at hb
  obtain ⟨w', hwrite, hb'⟩ := run_updateRule_dropping law h (law.name_congr _ hn) hr change
    (hc ▸ ⟨rfl, rfl, rfl, rfl⟩) ((law.triple_checkedTree _ w).ok htree?).2 hb
  have hdone : v.Revised w s (v.revision change tree? w.clock.text r) tree w' := by
    refine ⟨fun x hx hxs => hjudged x ((hmem x).mpr ⟨hx, hxs⟩), ?_⟩
    unfold revision
    cases htakes : v.takes change r.version with
    | ok _ =>
      rw [htakes] at hb'
      exact ⟨_, .inl rfl, hb'⟩
    | error _ =>
      rw [htakes] at hb'
      exact ⟨_, .inr ⟨rfl, hr⟩, hb'⟩
  refine Triple.bind (Keeps.of_run hwrite hdone |>.mono (fun _ _ hq => hq) fun _ _ => .inl) ?_
  rintro (_ | _) u' hu'
  · exact Triple.throw (.inl hu')
  · exact Triple.pure hu'

/-- A change that has passed its checks is entered, unless something that the rule
has found cannot be judged. -/
theorem triple_apply (h : v.Charted ids w) (dedupe : Bool) {id : Value} (hs : ids[n]? = some s)
    (hn : v.name .getRule id = .ok (some s))
    (hr : (v.records w.store).rules.get? (.text s) = some r) {patch : RulePatch}
    {window : Option Window} (isActive : Option Bool) {tree? : Option Criteria}
    (hwindow : ∀ win, window = some win → ∃ x y, Rules.checkWindow x y = .ok (.ok win))
    (htree? : (patch.tree.mapM (Rules.checkTree v.storage)).run w = (.ok tree?, w))
    (htree : tree?.getD r.tree = tree) {r' : Rule}
    (hr' : v.revision (Rules.changeOf patch window tree? isActive) tree? w.clock.text r = r') :
    Triple (Rules.apply v.storage r id patch window isActive) w
      (fun _ w' => ((v.records w.store).ledger ids).Judges n tree ∧
        v.Enters dedupe ids w [.revised n r'.unnamed tree] ids w')
      (fun e w' => ((v.records w.store).ledger ids).Judges n tree ∧
          v.Enters dedupe ids w [.revised n r'.unnamed tree] ids w' ∨
        e = .fault .tooLarge ∧ ¬((v.records w.store).ledger ids).Judges n tree) := by
  have hreadable : r'.window.Readable :=
    hr' ▸ readable_revision law (h.windows r (Shelf.mem_records_of_get? hr)) hwindow
  have hentered (w' : World S) (hsound : v.Sound [] w') (hw' : v.Revised w s r' tree w') :
      ((v.records w.store).ledger ids).Judges n tree ∧
        v.Enters dedupe ids w [.revised n r'.unnamed tree] ids w' := by
    obtain ⟨rules, hrules, hb⟩ := hw'.becomes
    refine ⟨?_, h.revise dedupe hs (Shelf.mem_keys_of_get? hr) hreadable hrules
      (fun x a k hx ha => ?_) (fun x hx => by simp [hx]) hsound hb⟩
    -- what the ledger has the rule find is stored, so it has been judged
    · rintro k c ⟨t, x, ht, hx⟩ hc
      obtain ⟨a, ha, rfl⟩ := Memory.ledger_assessment.mp hc
      cases Option.some.inj (ht.symm.trans hs)
      have hjudged := hw'.judged x hx.stored hx.ruleId
      rwa [observed_of_finds law h hx ha] at hjudged
    · simp [hx.ruleId, observed_of_finds law h hx ha]
  refine ((keeps_apply law h.toSound hn hr patch window isActive).and
    (triple_apply_revised law h.ready h.stamped hn hr htree? htree rfl)).mono ?_ ?_
  · rintro _ w' ⟨hsound, hw'⟩
    exact hentered w' hsound (hr' ▸ hw')
  · rintro e w' ⟨hsound, hw' | ⟨he, x, hx, hxs, e', herr⟩⟩
    · exact .inl (hentered w' hsound (hr' ▸ hw'))
    · refine .inr ⟨he, fun hall => ?_⟩
      obtain ⟨k, a, hfinds, ha, -⟩ := h.finds_of_mem hx hxs
      obtain ⟨t, ht⟩ := hall k a.unnamed ⟨s, x, hs, hfinds⟩
        (Memory.ledger_assessment.mpr ⟨a, ha, rfl⟩)
      rw [observed_of_finds law h hfinds ha] at herr
      cases herr.symm.trans ht

/-! ## Other calls -/

/-- A value that names none of the ids that are handed out. -/
def Stray (v : View S) (idOf : Nat → String) (x : Value) : Prop :=
  ∀ operation n, v.name operation x ≠ .ok (some (idOf n))

namespace Charted

omit law in
theorem not_uses (h : v.Charted ids w) {id : Value} (hid : v.Stray w.idOf id) {operation : Operation}
    {t : String} (hn : v.name operation id = .ok (some t)) : ¬(v.records w.store).Uses t := by
  intro hu
  obtain ⟨n, rfl⟩ := h.used t hu
  exact hid operation n hn

omit law in
theorem plain (h : v.Charted ids w) (hs : ids[n]? = some s) : v.Plain s := by
  obtain ⟨i, -, rfl⟩ := h.issued s (List.mem_of_getElem? hs)
  exact h.supplied.plain i

end Charted

/-- A change of a rule that is not there changes nothing. -/
theorem keeps_update_missing {id : Value} (h : v.Ready w)
    (hid : ∀ r, v.look .getRule id (v.records w.store).rules ≠ .ok (some r)) (patch : RulePatch) :
    Keeps (· = w) (Rules.update v.storage id patch) w := by
  have hmissing : ∃ e, (Rules.get v.storage id).run w = (.error e, w) := by
    have hget := law.getRule id h
    rcases hl : v.look .getRule id (v.records w.store).rules with e | _ | r <;> rw [hl] at hget
    · exact ⟨e, Op.run_bind_error hget⟩
    · exact ⟨_, Op.run_bind_ok hget⟩
    · exact absurd hl (hid r)
  obtain ⟨e, hmissing⟩ := hmissing
  unfold Rules.update
  split
  · exact Triple.throw rfl
  refine Keeps.bind ((Quiet.ofExcept _).keeps rfl) ?_
  rintro _ _ rfl
  exact Keeps.of_run (Op.run_bind_error hmissing) rfl

theorem keeps_delete (h : v.Charted ids w) (dedupe : Bool) (hs : ids[n]? = some s) :
    Keeps (v.Enters dedupe ids w [.deleted n] ids) (Rules.delete v.storage (.text s)) w := by
  have hplain := h.plain hs
  obtain ⟨xs, -, hlist⟩ := law.listForRule h.ready h.stamped (law.name_text hplain)
  obtain ⟨w', hrun, hb⟩ := law.deleteRule (.text s) h.ready
  refine Triple.bind_run (a := ()) (by simp [Rules.requireKey]) (Triple.bind_run hlist ?_)
  refine Keeps.bind (Keeps.of_run hrun (h.drop_rule dedupe hs (law.name_text hplain) hb)) ?_
  intro deleted w' hw'
  split
  · exact Triple.pure hw'
  · exact Triple.throw hw'

theorem keeps_delete_stray (h : v.Charted ids w) (dedupe : Bool) {id : Value}
    (hid : v.Stray w.idOf id) :
    Keeps (v.Enters dedupe ids w [] ids) (Rules.delete v.storage id) w := by
  have hrests (u : World S) (hu : u = w) : v.Enters dedupe ids w [] ids u := hu ▸ h.rests dedupe
  have hlook : Keeps (· = w) (Op.ofExcept (Rules.requireKey id) >>= fun _ =>
      v.storage.perform (.listVulnerabilitiesForRule id)) w :=
    Quiet.keeps ((Quiet.ofExcept _).bind fun _ => law.reads rfl) rfl
  obtain ⟨w', hrun, hb⟩ := law.deleteRule id h.ready
  -- what is not there is not taken away
  have hdrop : v.drop .deleteRule id (v.records w.store).rules = (v.records w.store).rules := by
    unfold View.drop
    split
    · rename_i t hn
      exact Shelf.erase_of_get?_none (Shelf.get?_eq_none_iff.mpr fun hk =>
        h.not_uses hid hn (.inl hk))
    · rfl
  rw [hdrop] at hb
  have hdone : Keeps (v.Enters dedupe ids w [] ids) (do
      if ← v.storage.perform (.deleteRule id) then return ()
      else throw (.notFound .rule id) : Op (World S) Unit) w := by
    refine Keeps.bind (Keeps.of_run hrun (h.rests_of_becomes dedupe hb)) fun deleted w' hw' => ?_
    split
    · exact Triple.pure hw'
    · exact Triple.throw hw'
  rw [Rules.delete, ← bind_assoc]
  refine Triple.bind (hlook.mono (fun _ _ hw => hw) fun _ => hrests) ?_
  rintro _ _ rfl
  exact hdone

/-- Everything that was found triggers, or its rule is gone, so nothing is removed when
a property is judged again. -/
theorem keeps_reexamine_grounds (h : v.Sound [] w)
    (hx : x ∈ (v.records w.store).vulnerabilities.records) :
    Keeps (· = w) (Vulnerabilities.reexamine v.storage x) w := by
  obtain ⟨t, ht, hrule⟩ := (h.ready.kept.findings x hx).ruleId
  obtain ⟨i, a, hi, ha, -, hall⟩ := h.grounds x hx
  have hget := run_getRule_text law h.ready ht
  rw [← hrule] at hget
  refine Triple.bind_run (Op.run_attempt_ok hget) ?_
  cases hr : (v.records w.store).rules.get? (.text t) with
  | none => exact Triple.pure rfl
  | some r =>
    have hobserved := run_observationsOf law h.ready ha
    rw [← hi] at hobserved
    refine Triple.bind_run (Op.run_attempt_ok hobserved) ?_
    simp only
    split
    · exact Triple.pure rfl
    · refine Triple.bind_run (a := true) (by rw [judge, hall t r hrule hr]; rfl) (Triple.pure rfl)

theorem keeps_reevaluate_sound (fair : v.Impartial) (h : v.Sound [] w) (p : Value) :
    Keeps (· = w) (Vulnerabilities.reevaluate v.storage p) w := by
  have hall (xs : List Vulnerability)
      (hxs : ∀ x ∈ xs, x ∈ (v.records w.store).vulnerabilities.records) :
      Keeps (· = w) (Vulnerabilities.reexamineAll v.storage xs) w := by
    induction xs with
    | nil => exact Triple.pure rfl
    | cons x rest ih =>
      refine Keeps.bind (keeps_reexamine_grounds law h (hxs x List.mem_cons_self)) ?_
      rintro finding _ rfl
      refine Keeps.bind (ih fun y hy => hxs y (List.mem_cons_of_mem x hy)) ?_
      rintro others _ rfl
      exact Triple.pure rfl
  refine Triple.bind ((fair.listed p).mono (fun _ _ hq => hq) fun _ _ he => he) ?_
  rintro xs _ ⟨rfl, hxs⟩
  refine Keeps.bind (hall xs hxs) ?_
  rintro findings _ rfl
  exact Triple.pure rfl

/-! ## New records -/

theorem triple_recordDraft_enters (h : v.Charted ids w) (dedupe : Bool) (p : Value)
    {os : List Observation} (hos : v.Noted os) (time : Value) :
    Triple (recordDraft v.storage p os time) w
      (fun a w' => v.Enters dedupe ids w [.recorded a.unnamed] ids w' ∧
        (v.records w'.store).assessments.records =
          (v.records w.store).assessments.records ++ [a])
      (fun _ w' => v.Enters dedupe ids w [] ids w') := by
  have hcreate (t : Value) : Triple (v.storage.perform (.createAssessment ⟨p, os, t⟩)) w
      (fun a w' => v.Enters dedupe ids w [.recorded a.unnamed] ids w' ∧
        (v.records w'.store).assessments.records =
          (v.records w.store).assessments.records ++ [a])
      (fun _ w' => v.Enters dedupe ids w [] ids w') := by
    refine (law.createAssessment (d := ⟨p, os, t⟩) h.ready h.supplied hos).mono ?_
      fun _ _ hb => h.rests_of_becomes dedupe hb
    rintro a w' ⟨hid, -, hp, hi, hb⟩
    refine ⟨h.put_assessment dedupe hid hp hi hb, hb.records ▸ Shelf.records_put_of_new ?_⟩
    exact Shelf.get?_eq_none_iff.mpr fun hm =>
      h.supplied.unused _ (Nat.lt_succ_self _) (.inr (.inr (.inl hm)))
  unfold recordDraft
  split
  · exact Triple.bind_ofExcept (fun _ => h.rests dedupe) fun _ _ => hcreate _
  · exact hcreate _

omit law in
theorem Charted.legible (h : v.Charted ids w) : v.Legible w :=
  ⟨h.ready.whole, h.supplied.plain, ⟨h.ready.kept.rules, h.windows⟩,
    ⟨h.ready.kept.vulnerabilities, h.stamped⟩⟩

end

end View

namespace Backing

variable {b : Backing} {ids : List String} {w : World b.Store}

theorem triple_createRule_enters (h : b.view.Charted ids w) (dedupe : Bool) {d : RuleDraft}
    (hd : d.IsChecked) :
    Triple (b.view.storage.perform (.createRule d)) w
      (fun r w' => r.id = .text (w.idOf (w.issued + 1)) ∧ b.view.Enters dedupe ids w
        [.created r.unnamed] (ids ++ [w.idOf (w.issued + 1)]) w')
      (fun _ w' => b.view.Enters dedupe ids w [] ids w') := by
  obtain ⟨document, hread⟩ := hd.tree
  have hlegible := b.perform_legible (r := .createRule d) h.legible hd
  rw [← b.view_storage] at hlegible
  refine ((b.lawful.createRule h.ready h.supplied (b.lawful.tree_of_read hread)).and hlegible).mono
    ?_ fun _ _ he => h.rests_of_becomes dedupe he.1
  rintro r w' ⟨⟨hid, -, hi, hb⟩, -, hl⟩
  have hget : (b.view.records w'.store).rules.get? (.text (w.idOf (w.issued + 1))) = some r := by
    rw [hb.records, Shelf.get?_put, if_pos rfl]
  exact ⟨hid, h.put_rule dedupe hid (hl.rules.windows r (Shelf.mem_records_of_get? hget)) hi hb⟩

theorem triple_create_enters (h : b.view.Charted ids w) (dedupe : Bool) (input : RuleInput) :
    Triple (Rules.create b.view.storage input) w
      (fun r w' => r.id = .text (w.idOf (w.issued + 1)) ∧ b.view.Enters dedupe ids w
        [.created r.unnamed] (ids ++ [w.idOf (w.issued + 1)]) w')
      (fun _ w' => b.view.Enters dedupe ids w [] ids w') := by
  have law := b.lawful
  have hrests := h.rests dedupe
  refine Triple.bind_ofExcept (fun _ => hrests) fun name _ => ?_
  refine Triple.bind_ofExcept (fun _ => hrests) fun description _ => ?_
  refine Triple.bind_run law.now (Triple.bind_ofExcept (fun _ => hrests) fun window hwindow => ?_)
  split
  · refine ((Rules.triple_checkTree law.readsQuietly _ _).mono (fun _ _ ht => ht)
      (fun _ _ ht => ht ▸ hrests)).bind ?_
    rintro tree w ⟨rfl, ht⟩
    exact triple_createRule_enters h dedupe ⟨⟨_, ht⟩, Rules.written_of_checkWindow hwindow⟩
  · exact Triple.throw hrests

end Backing

end PropertyRisk
