import PropertyRisk.Proofs.Frames
import PropertyRisk.Proofs.Windows

/-!
# Writing to a rule

Any client of a store may write to a rule or delete it. `Backing.revised` is what a
change comes to that is written to a rule, whatever it sets and whichever version it
expects, and `Backing.run_writeRule` that the store does just this. Of the store only
the rules need be in order.
-/

namespace PropertyRisk

open Op (Triple Keeps)

theorem mapM_some_eq_ok {f : α → Except ε β} {a : α} {b? : Option β}
    (h : (some a).mapM f = .ok b?) : ∃ b, f a = .ok b ∧ b? = some b := by
  change some <$> f a = _ at h
  cases hf : f a <;> rw [hf] at h <;> cases h
  exact ⟨_, rfl, rfl⟩

/-- Whether a request may write to the rules. -/
def Request.writesRules : Request α → Bool
  | createRule _ | updateRule .. | deleteRule _ => true
  | _ => false

theorem Request.writesRules_of_isRead {r : Request α} (hr : r.isRead) : r.writesRules = false := by
  cases r <;> first
    | rfl
    | exact absurd hr Bool.false_ne_true

namespace Request

/-- The rule that a request is to create. -/
def drafts? : Request α → Option RuleDraft
  | createRule d => some d
  | _ => none

/-- The change of a rule that a request asks for, and the id given. -/
def revises? : Request α → Option (Value × RuleChange)
  | updateRule id change _ => some (id, change)
  | _ => none

/-- The id given of a rule that a request is to delete. -/
def repeals? : Request α → Option Value
  | deleteRule id => some id
  | _ => none

end Request

/-- A tree that a change has as one that was read has been read from a document. -/
def RuleChange.IsRead (change : RuleChange) : Prop :=
  ∀ tree, change.tree = some (.parsed tree) → ∃ document, Criteria.read document = .ok tree

theorem RuleChange.Proper.isRead {change : RuleChange} {tree : Option Criteria}
    (h : change.Proper tree)
    (htree : ∀ c, tree = some c → ∃ document, Criteria.read document = .ok c) :
    change.IsRead := by
  intro c hc
  rw [h.tree] at hc
  cases tree <;> cases hc
  exact htree c rfl

theorem RuleChange.IsRead.document {change : RuleChange} {tree : Criteria} (h : change.IsRead)
    (ht : change.tree.mapM TreeSource.read = .ok (some tree)) :
    ∃ document, Criteria.read document = .ok tree := by
  cases hsource : change.tree with
  | none =>
    rw [hsource] at ht
    cases ht
  | some source =>
    rw [hsource] at ht
    obtain ⟨c, hread, hc⟩ := mapM_some_eq_ok ht
    cases hc
    cases source with
    | document document => exact ⟨document, hread⟩
    | parsed c =>
      cases hread
      exact h tree hsource

/-- A request whose tree, if any, has been read from a document. -/
def View.Parsed (v : View S) : {α : Type} → Request α → Prop
  | _, .createRule d => v.Tree d.tree
  | _, .updateRule _ change _ => change.IsRead
  | _, _ => True

/-! ## In memory -/

namespace Memory

variable {w : World Memory} {s : String} {r : Rule}

/-- What writing a change to a rule comes to: the changed rule, or nothing where another
version is expected. -/
def revised (change : RuleChange) (expected : Option Value) (now : String) (r : Rule) :
    Except Error (Option Rule) := do
  let tree ← (change.tree.mapM TreeSource.read).mapError (.invalid <| .tree ·)
  if expected.any (!·.equal (.int r.version)) then .ok none
  else if !change.others.isEmpty then .error (.fault .wrongShape)
  else .ok (some (r.changed change tree now))

theorem run_writeRule (change : RuleChange) (expected : Option Value)
    (hr : w.store.rules.get? (.text s) = some r) :
    ∃ w', (updateRule (.text s) change expected).run w =
        (revised change expected w.clock.text r, w') ∧
      view.Becomes w { w.store with
        rules := match revised change expected w.clock.text r with
          | .ok (some r') => w.store.rules.put (.text s) r'
          | _ => w.store.rules } w' := by
  simp only [updateRule, revised]
  cases change.tree.mapM TreeSource.read with
  | error problems => exact ⟨w, rfl, becomes⟩
  | ok tree =>
    simp only [Op.run_bind, Op.run_orElse_ok, World.run_stored, find_text, hr, Op.run_ofExcept_ok,
      Except.mapError, ok_bind]
    by_cases hstale : expected.any (!·.equal (.int r.version)) = true
    · rw [if_pos hstale, if_pos hstale]
      exact ⟨w, rfl, becomes⟩
    rw [if_neg hstale, if_neg hstale]
    by_cases hothers : (!change.others.isEmpty) = true
    · rw [if_pos hothers, if_pos hothers]
      exact ⟨w, rfl, becomes⟩
    · rw [if_neg hothers, if_neg hothers]
      exact ⟨_, rfl, becomes⟩

theorem run_writeRule_of_absent (h : TextKeys w.store.rules) (change : RuleChange)
    (expected : Option Value) {id : Value}
    (hno : ∀ r, view.look .updateRule id w.store.rules ≠ .ok (some r)) :
    ∃ answer, (updateRule id change expected).run w = (answer, w) ∧
      ∀ r', answer ≠ .ok (some r') := by
  simp only [updateRule]
  cases change.tree.mapM TreeSource.read with
  | error problems => exact ⟨_, rfl, by simp⟩
  | ok tree =>
    simp only [Op.run_bind, Op.run_orElse_ok, World.run_stored, h.find .updateRule]
    rcases hlook : view.look .updateRule id w.store.rules with e | _ | r
    · exact ⟨_, rfl, by simp⟩
    · exact ⟨_, rfl, by simp⟩
    · exact absurd hlook (hno r)

/-- A change that is written is one of the version that it expects, if any. -/
theorem revised_eq_some {change : RuleChange} {expected : Option Value} {now : String} {r' : Rule}
    (h : revised change expected now r = .ok (some r')) :
    ∃ tree, change.tree.mapM TreeSource.read = .ok tree ∧
      (∀ n, expected = some (.int n) → n = r.version) ∧ r' = r.changed change tree now := by
  obtain ⟨tree, htree, h⟩ := bind_eq_ok.mp h
  refine ⟨tree, ?_, ?_, ?_⟩
  · cases hread : change.tree.mapM TreeSource.read <;> rw [hread] at htree <;> cases htree
    rfl
  · rintro n rfl
    by_contra hne
    simp [Value.equal, hne] at h
  · split at h
    · cases h
    split at h
    · cases h
    · cases h
      rfl

end Memory

/-! ## In tables -/

namespace Tables

variable {w : World Tables} {s : String} {r : Rule}

/-- Every rule can be read, and is under its own id. -/
structure RulesInOrder (w : World Tables) : Prop where
  reads : ReadsRules w.store
  rules : view.Shelved Rule.id (records w.store).rules

theorem revised_eq_some {change : RuleChange} {expected : Option Value} {now : String} {r' : Rule}
    (h : revised change expected now r = .ok (some r')) :
    ∃ tree, change.tree.mapM TreeSource.read = .ok tree ∧
      (∀ n, expected = some (.int n) → n = r.version) ∧
      r' = r.changed { view.kept change with id := none, createdAt := none } tree now := by
  obtain ⟨tree, htree, h⟩ := bind_eq_ok.mp h
  obtain ⟨name, -, h⟩ := bind_eq_ok.mp h
  obtain ⟨description, -, h⟩ := bind_eq_ok.mp h
  obtain ⟨start, -, h⟩ := bind_eq_ok.mp h
  obtain ⟨stop, -, h⟩ := bind_eq_ok.mp h
  obtain ⟨version, hversion, h⟩ := bind_eq_ok.mp h
  split at h
  · cases h
  rename_i hfresh
  refine ⟨tree, ?_, ?_, ?_⟩
  · cases hread : change.tree.mapM TreeSource.read <;> rw [hread] at htree <;> cases htree
    rfl
  · rintro n rfl
    -- a number that a column takes is compared as it is
    obtain ⟨q, hq, rfl⟩ := mapM_some_eq_ok hversion
    have hnumber := boundCell_eq_ok.mp hq
    simp only [Cell.number] at hnumber
    split at hnumber <;> cases hnumber
    simpa [Value.equal] using hfresh
  · obtain ⟨_, -, h⟩ := bind_eq_ok.mp h
    obtain ⟨_, -, h⟩ := bind_eq_ok.mp h
    obtain ⟨_, -, h⟩ := bind_eq_ok.mp h
    cases h
    rfl

theorem run_writeRule (h : RulesInOrder w) {change : RuleChange} (hc : change.IsRead)
    (expected : Option Value) {id : Value} (hn : view.name .updateRule id = .ok (some s))
    (hr : (records w.store).rules.get? (.text s) = some r) :
    ∃ w', (view.storage.perform (.updateRule id change expected)).run w =
        (revised change expected w.clock.text r, w') ∧
      ReadsRules w'.store ∧
      view.RulesBecome w (match revised change expected w.clock.text r with
        | .ok (some r') => (records w.store).rules.put (.text s) r'
        | _ => (records w.store).rules) w' := by
  simp only [records, Shelf.get?_relabel text_injective, Option.map_eq_some_iff] at hr
  obtain ⟨row, hr, rfl⟩ := hr
  have hid : row.id = s := Value.text.inj (id_of_shelved h.rules hr).1
  have hreadable : ∀ c, change.tree.mapM TreeSource.read = .ok (some c) → c.Readable := by
    intro c hread
    obtain ⟨document, hd⟩ := hc.document hread
    exact Criteria.readable_of_read hd
  rcases run_changeRule_cases h.reads expected hn hr hreadable
    with ⟨e, he, hrun⟩ | ⟨he, hrun⟩ | ⟨new, he, hnew, hread, hrun⟩
  · rw [he]
    exact ⟨w, Op.run_bind_error hrun, h.reads, .refl view w⟩
  · rw [he]
    exact ⟨w, Op.run_bind_ok hrun, h.reads, .refl view w⟩
  · have hreads := h.reads.withRule (s := s) hread
    rw [hid] at hrun
    rw [he]
    refine ⟨{ w with store := w.store.withRule s new }, (Op.run_bind_ok hrun).trans ?_, hreads,
      ⟨rfl, rfl, Nat.le_refl _⟩, records_withRule, fun hwhole => hwhole.withRule hread⟩
    -- the new row is asked for again
    show (getRule id).run _ = _
    rw [run_getRule hreads, View.look_of_name (name_congr hn), records_withRule]
    simp [Shelf.get?_put]

/-- Where no row has the id, none is changed. -/
theorem triple_changeRule_of_absent (change : RuleChange) (expected : Option Value) {id : Value}
    (hno : ∀ r, view.look .updateRule id (records w.store).rules ≠ .ok (some r)) :
    Triple (changeRule id change expected) w (fun found w' => found = false ∧ w' = w)
      (fun _ w' => w' = w) := by
  refine Triple.bind (Triple.orElse (Q := fun _ w' => w' = w) (fun _ _ => rfl) fun _ _ => rfl) ?_
  rintro tree w' rfl
  refine Triple.bind_run (World.run_stored w') ?_
  unfold prepare
  split
  case isFalse => exact Triple.throw rfl
  simp only [pure_bind, bindText_eq, mapM_bindText_eq, mapM_bindNumber_eq]
  iterate 4 refine Triple.bind_ofExcept (fun _ => rfl) fun _ _ => ?_
  refine Triple.bind_ofExcept (fun _ => rfl) fun id? hid => ?_
  refine Triple.bind_ofExcept (fun _ => rfl) fun _ _ => ?_
  have hnone : id?.bind w'.store.rules.rows.get? = none := by
    cases id? with
    | none => rfl
    | some t =>
      by_contra hrow
      obtain ⟨row, hrow⟩ := Option.ne_none_iff_exists'.mp hrow
      refine hno row.record (View.look_eq_some.mpr ⟨t, hid, ?_⟩)
      simpa [records, Shelf.get?_relabel text_injective] using ⟨row, hrow, rfl⟩
  rw [hnone]
  exact Triple.pure ⟨rfl, rfl⟩

theorem run_writeRule_of_absent (change : RuleChange) (expected : Option Value) {id : Value}
    (hno : ∀ r, view.look .updateRule id (records w.store).rules ≠ .ok (some r)) :
    ∃ answer, (view.storage.perform (.updateRule id change expected)).run w = (answer, w) ∧
      ∀ r', answer ≠ .ok (some r') := by
  have htriple := triple_changeRule_of_absent change expected hno
  rcases hrun : (changeRule id change expected).run w with ⟨e | found, w'⟩
  · obtain rfl : w' = w := htriple.error hrun
    exact ⟨_, Op.run_bind_error hrun, nofun⟩
  · obtain ⟨rfl, rfl⟩ := htriple.ok hrun
    exact ⟨_, Op.run_bind_ok hrun, nofun⟩

theorem rulesInOrder_of_become {rules : Shelf Key Rule} {w' : World Tables}
    (hreads : ReadsRules w'.store) (hb : view.RulesBecome w rules w')
    (hrules : view.Shelved Rule.id rules) : RulesInOrder w' := by
  refine ⟨hreads, ?_⟩
  rw [show records w'.store = _ from hb.records]
  exact hrules

end Tables

/-! ## Either store -/

namespace Backing

variable {b : Backing} {w : World b.Store} {s : String} {r r' : Rule} {change : RuleChange}
  {expected : Option Value} {now : String}

/-- The rule under an id. -/
def ruleAt (b : Backing) (w : World b.Store) (s : String) : Option Rule :=
  (b.view.records w.store).rules.get? (.text s)

/-- Rules can be looked up and written to. -/
def RulesInOrder : (b : Backing) → World b.Store → Prop
  | memory => fun w : World Memory => Memory.TextKeys w.store.rules
  | tables => Tables.RulesInOrder

/-- What writing a change to a rule comes to: the changed rule, or nothing where another
version is expected. -/
def revised : Backing → RuleChange → Option Value → String → Rule → Except Error (Option Rule)
  | memory => Memory.revised
  | tables => Tables.revised

theorem rulesInOrder_of_ready : ∀ (b : Backing) {w : World b.Store}, b.view.Ready w → b.RulesInOrder w
  | memory, _, h => Memory.TextKeys.of_shelved h.kept.rules
  | tables, _, h => ⟨h.whole.toReadsRules, h.kept.rules⟩

theorem rulesInOrder_empty (b : Backing) (clock : Time.Stamp) (issued : Nat)
    (idOf : Nat → String) : b.RulesInOrder ⟨b.empty, clock, issued, idOf⟩ := by
  have hrecords : b.view.records b.empty = {} := b.records_empty
  exact b.rulesInOrder_of_ready ⟨b.whole_empty, hrecords ▸ .empty⟩

/-- Time has no part in it. -/
theorem rulesInOrder_tick : ∀ (b : Backing) {w : World b.Store}, b.RulesInOrder w →
    ∀ clock, b.RulesInOrder { w with clock }
  | memory, _, h, _ => h
  | tables, _, h, _ => ⟨h.reads, h.rules⟩

theorem run_lookUpRule : ∀ (b : Backing) {w : World b.Store}, b.RulesInOrder w → ∀ id : Value,
    (b.storage.perform (.getRule id)).run w =
      (b.view.look .getRule id (b.view.records w.store).rules, w)
  | memory, w, h, id => (Memory.run_look (fun m => Memory.find m.rules id) w).trans
      (congrArg (·, w) (h.find .getRule id))
  | tables, _, h, _ => Tables.run_getRule h.reads

/-- What is under an id is found under it. -/
theorem run_getRule_at (h : b.RulesInOrder w) (hs : b.view.Plain s) :
    (b.storage.perform (.getRule (.text s))).run w = (.ok (b.ruleAt w s), w) := by
  rw [b.run_lookUpRule h, View.look_of_name (b.lawful.name_text hs)]
  rfl

/-- A write to a rule. -/
theorem run_writeRule (change : RuleChange) (expected : Option Value) : ∀ (b : Backing)
    {w : World b.Store} {id : Value}, b.RulesInOrder w → change.IsRead →
      b.view.name .updateRule id = .ok (some s) → b.ruleAt w s = some r →
    ∃ w', (b.storage.perform (.updateRule id change expected)).run w =
        (b.revised change expected w.clock.text r, w') ∧
      b.RulesInOrder w' ∧
      b.view.RulesBecome w (match b.revised change expected w.clock.text r with
        | .ok (some r') => (b.view.records w.store).rules.put (.text s) r'
        | _ => (b.view.records w.store).rules) w'
  | memory, w, _, h, _, hn, hr => by
    cases Memory.eq_text_of_name hn
    obtain ⟨w', hrun, hb⟩ := Memory.run_writeRule change expected hr
    refine ⟨w', hrun, ?_, .of_becomes hb⟩
    have hrules := congrArg Memory.rules hb.records
    show Memory.TextKeys w'.store.rules
    rw [show w'.store.rules = _ from hrules]
    split
    · exact h.put s _
    · exact h
  | tables, w, _, h, hc, hn, hr => by
    obtain ⟨w', hrun, hreads, hb⟩ := Tables.run_writeRule h hc expected hn hr
    refine ⟨w', hrun, Tables.rulesInOrder_of_become hreads hb ?_, hb⟩
    rcases hrev : Tables.revised change expected w.clock.text r with e | _ | r'
    · exact h.rules
    · exact h.rules
    · obtain ⟨tree, -, -, rfl⟩ := Tables.revised_eq_some hrev
      obtain ⟨hplain, hown⟩ := h.rules.id_of_get? hr
      exact h.rules.put hplain hown

/-- Where the id is that of no rule, none is written. -/
theorem run_writeRule_of_absent (change : RuleChange) (expected : Option Value) :
    ∀ (b : Backing) {w : World b.Store} {id : Value}, b.RulesInOrder w →
    (∀ r, b.view.look .updateRule id (b.view.records w.store).rules ≠ .ok (some r)) →
    ∃ answer, (b.storage.perform (.updateRule id change expected)).run w = (answer, w) ∧
      ∀ r', answer ≠ .ok (some r')
  | memory, _, _, h, hno => Memory.run_writeRule_of_absent h change expected hno
  | tables, _, _, _, hno => Tables.run_writeRule_of_absent change expected hno

/-- Nothing is written under an id that no rule is under. -/
theorem run_writeRule_of_none (change : RuleChange) (expected : Option Value)
    (h : b.RulesInOrder w) (hs : b.view.Plain s) (hr : b.ruleAt w s = none) :
    ∃ answer, (b.storage.perform (.updateRule (.text s) change expected)).run w = (answer, w) ∧
      ∀ r', answer ≠ .ok (some r') := by
  refine b.run_writeRule_of_absent change expected h fun r hlook => ?_
  rw [View.look_of_name (b.lawful.name_text hs), show (b.view.records w.store).rules.get? _ = none
    from hr] at hlook
  cases hlook

theorem run_eraseRule : ∀ (b : Backing) {w : World b.Store}, b.RulesInOrder w → ∀ id : Value,
    ∃ w', (b.storage.perform (.deleteRule id)).run w =
        ((b.view.look .deleteRule id (b.view.records w.store).rules).map Option.isSome, w') ∧
      b.RulesInOrder w' ∧
      b.view.RulesBecome w (b.view.drop .deleteRule id (b.view.records w.store).rules) w'
  | memory, w, h, id => by
    refine ⟨_, Memory.run_deleteRule h, ?_, .of_becomes Memory.becomes⟩
    show Memory.TextKeys (Memory.view.drop .deleteRule id w.store.rules)
    unfold View.drop
    split
    · exact h.erase _
    · exact h
  | tables, w, h, id => by
    obtain ⟨w', hrun, hreads, hb⟩ := Tables.run_deleteRule h.reads id
    exact ⟨w', hrun, Tables.rulesInOrder_of_become hreads hb (h.rules.drop _ _), hb⟩

/-- A request that is not about rules leaves them as they are. -/
theorem keeps_rules : ∀ (b : Backing) {w : World b.Store} {r : Request α}, b.RulesInOrder w →
    r.writesRules = false →
    Keeps (fun w' => b.RulesInOrder w' ∧ w.Beside (fun t => (b.view.records t).rules) w')
      (b.storage.perform r) w
  | memory, w, r, h, hr => by
    have hkeep (w' : World Memory) (hb : w.Beside Memory.rules w') :
        Memory.TextKeys w'.store.rules ∧ w.Beside Memory.rules w' :=
      ⟨hb.2 ▸ h, hb⟩
    have hspares : r.Spares Memory.rules := by
      cases r <;> first
        | exact Bool.noConfusion hr
        | exact trivial
        | exact fun _ _ => rfl
    exact (Memory.keeps_beside hspares).imp hkeep
  | tables, w, r, h, hr => by
    have hkeep (w' : World Tables) (hb : w.Beside Tables.rules w') :
        Tables.RulesInOrder w' ∧ w.Beside (fun t => (Tables.records t).rules) w' :=
      ⟨⟨⟨hb.2 ▸ h.reads.rules, hb.2 ▸ h.reads.trees⟩, by
        show View.Shelved _ _ (Tables.records w'.store).rules
        simpa only [Tables.records, hb.2] using h.rules⟩, hb.1, by
        simp only [Tables.records, hb.2]⟩
    have hspares : Tables.Spares Tables.rules r := by
      cases r <;> first
        | exact Bool.noConfusion hr
        | exact trivial
        | exact fun _ _ => rfl
    exact (Tables.keeps_beside hspares).imp hkeep

/-- A new rule. -/
theorem triple_createRule : ∀ (b : Backing) {w : World b.Store} {d : RuleDraft},
    b.RulesInOrder w → b.view.Plain (w.idOf (w.issued + 1)) → b.view.Tree d.tree →
    Triple (b.storage.perform (.createRule d)) w
      (fun r w' => r = d.stored b.tag b.view.flag (w.idOf (w.issued + 1)) w.clock.text ∧
        w'.issued = w.issued + 1 ∧ b.RulesInOrder w' ∧
        b.view.RulesBecome w
          ((b.view.records w.store).rules.put (.text (w.idOf (w.issued + 1))) r) w')
      (fun _ w' => b.RulesInOrder w' ∧ w.Beside (fun t => (b.view.records t).rules) w')
  | memory, _, _, h, _, _ =>
    Triple.of_run rfl ⟨rfl, rfl, h.put _ _, .of_becomes Memory.becomes_issued⟩
  | tables, w, d, h, hs, hd => by
    refine (Tables.triple_createRule h.reads hs hd).mono ?_ ?_
    · rintro r w' ⟨hr, hissued, hreads, hb⟩
      exact ⟨hr, hissued, Tables.rulesInOrder_of_become hreads hb (h.rules.put hs (hr ▸ rfl)), hb⟩
    · rintro e w' ⟨-, rfl⟩
      exact ⟨⟨h.reads, h.rules⟩, .issued⟩

theorem ruleAt_eq {w' : World b.Store} {rules : Shelf Key Rule} (hb : b.view.RulesBecome w rules w')
    (s : String) : b.ruleAt w' s = rules.get? (.text s) := by
  rw [ruleAt, hb.records]

theorem ruleAt_of_beside {w' : World b.Store}
    (hb : w.Beside (fun t => (b.view.records t).rules) w') (s : String) :
    b.ruleAt w' s = b.ruleAt w s :=
  congrArg (·.get? (.text s)) hb.2

theorem revised_eq_some : ∀ {b : Backing}, b.revised change expected now r = .ok (some r') →
    ∃ tree kept, change.tree.mapM TreeSource.read = .ok tree ∧
      (∀ n, expected = some (.int n) → n = r.version) ∧ r' = r.changed kept tree now ∧
      (change.id = none → kept.id = none)
  | memory, h => by
    obtain ⟨tree, htree, hversion, hr'⟩ := Memory.revised_eq_some h
    exact ⟨tree, change, htree, hversion, hr', fun hid => hid⟩
  | tables, h => by
    obtain ⟨tree, htree, hversion, hr'⟩ := Tables.revised_eq_some h
    exact ⟨tree, _, htree, hversion, hr', fun _ => rfl⟩

/-- A change that leaves a rule where it is sets what the store keeps of it. -/
theorem revised_of_proper : ∀ {b : Backing} {tree : Option Criteria}, change.Proper tree →
    b.revised change expected now r = .ok (some r') →
    r' = r.changed (b.view.kept change) tree now
  | memory, tree, hc, h => by
    obtain ⟨tree', htree, -, rfl⟩ := Memory.revised_eq_some h
    have hread : change.tree.mapM TreeSource.read = .ok tree := by
      rw [hc.tree]
      cases tree <;> rfl
    cases hread.symm.trans htree
    simp [View.kept, view, Memory.view]
  | tables, tree, hc, h => by
    obtain ⟨tree', htree, -, rfl⟩ := Tables.revised_eq_some h
    have hread : change.tree.mapM TreeSource.read = .ok tree := by
      rw [hc.tree]
      cases tree <;> rfl
    cases hread.symm.trans htree
    simp only [View.kept, view, hc.id, hc.createdAt]

/-! ## The window of what is written -/

/-- A new rule has the window that was checked for it. -/
theorem window_stored {d : RuleDraft} (h : Window.Written ⟨d.effectiveFrom, d.effectiveTo⟩)
    (id now : String) :
    (d.stored b.tag b.view.flag id now).window = ⟨d.effectiveFrom, d.effectiveTo⟩ := by
  obtain ⟨hstart, hstop⟩ := h.kept b.tag_null fun _ => b.tag_text _
  have hgiven : d.effectiveFrom.orElse (.text now) = d.effectiveFrom := if_pos h.holds_start
  dsimp only at hstart hstop
  rw [RuleDraft.window_stored, hgiven, hstart, hstop]

theorem window_unchanged (hfrom : change.effectiveFrom = none) (hto : change.effectiveTo = none)
    (tree : Option Criteria) : (r.changed (b.view.kept change) tree now).window = r.window := by
  simp only [Rule.window, Rule.changed, View.kept, hfrom, hto, Option.map_none, Option.getD_none]

/-- A rule has the window that a change sets, once that was checked. -/
theorem window_changed {w : Window} (h : w.Written) (hfrom : change.effectiveFrom = some w.start)
    (hto : change.effectiveTo = some w.stop) (tree : Option Criteria) :
    (r.changed (b.view.kept change) tree now).window = w := by
  obtain ⟨hstart, hstop⟩ := h.kept b.lawful.column_null
    fun _ => b.lawful.column_text b.lawful.plain_stamp
  simp only [Rule.window, Rule.changed, View.kept, hfrom, hto, Option.map_some, Option.getD_some,
    hstart, hstop]

/-! ## What requests make of the rules -/

/-- What a request may make of the rules of a store. -/
inductive RuleEffect (b : Backing) (w w' : World b.Store) (q : Request α) : Prop
  | same (h : (b.view.records w'.store).rules = (b.view.records w.store).rules)
  | created {d : RuleDraft} (hq : q.drafts? = some d) (hissued : w'.issued = w.issued + 1)
      (h : (b.view.records w'.store).rules =
        (b.view.records w.store).rules.put (.text (w.idOf (w.issued + 1)))
          (d.stored b.tag b.view.flag (w.idOf (w.issued + 1)) w.clock.text))
  | changed {id : Value} {change : RuleChange} {expected : Option Value} {s : String} {r r' : Rule}
      (hq : q.revises? = some (id, change)) (hs : b.view.name .updateRule id = .ok (some s))
      (hr : b.ruleAt w s = some r) (hr' : b.revised change expected w.clock.text r = .ok (some r'))
      (h : (b.view.records w'.store).rules = (b.view.records w.store).rules.put (.text s) r')
  | deleted {id : Value} {s : String} (hq : q.repeals? = some id)
      (hs : b.view.name .deleteRule id = .ok (some s))
      (h : (b.view.records w'.store).rules = (b.view.records w.store).rules.erase (.text s))

/-- A store does nothing else to its rules. -/
theorem keeps_ruleEffect (h : b.RulesInOrder w) (hplain : b.view.Plain (w.idOf (w.issued + 1)))
    {q : Request α} (hq : b.view.Parsed q) :
    Keeps (fun w' => b.RulesInOrder w' ∧ w.Follows w' ∧ b.RuleEffect w w' q)
      (b.storage.perform q) w := by
  have hbeside (w' : World b.Store)
      (hb : b.RulesInOrder w' ∧ w.Beside (fun t => (b.view.records t).rules) w') :
      b.RulesInOrder w' ∧ w.Follows w' ∧ b.RuleEffect w w' q :=
    ⟨hb.1, hb.2.1, .same hb.2.2⟩
  cases hwrites : q.writesRules with
  | false => exact (b.keeps_rules h hwrites).imp hbeside
  | true =>
    cases q with
    | createRule d =>
      refine Keeps.of_triple (b.triple_createRule h hplain hq) ?_ fun _ => hbeside
      rintro r w' ⟨rfl, hissued, hin, hb⟩
      exact ⟨hin, hb.follows, .created rfl hissued (congrArg Memory.rules hb.records)⟩
    | updateRule id change expected =>
      by_cases hfound : ∃ r, b.view.look .updateRule id (b.view.records w.store).rules = .ok (some r)
      case neg =>
        obtain ⟨answer, hrun, -⟩ := b.run_writeRule_of_absent change expected h
          fun r hr => hfound ⟨r, hr⟩
        exact Keeps.of_run hrun ⟨h, .refl w, .same rfl⟩
      obtain ⟨r, hlook⟩ := hfound
      obtain ⟨s, hs, hr⟩ := View.look_eq_some.mp hlook
      obtain ⟨w', hrun, hin, hb⟩ := b.run_writeRule change expected h hq hs hr
      refine Keeps.of_run hrun ⟨hin, hb.follows, ?_⟩
      -- only a change that comes to a rule is written
      have hrules := congrArg Memory.rules hb.records
      rcases hrevised : b.revised change expected w.clock.text r with e | _ | r' <;>
        simp only [hrevised] at hrules
      · exact .same hrules
      · exact .same hrules
      · exact .changed rfl hs hr hrevised hrules
    | deleteRule id =>
      obtain ⟨w', hrun, hin, hb⟩ := b.run_eraseRule h id
      refine Keeps.of_run hrun ⟨hin, hb.follows, ?_⟩
      have hrules := congrArg Memory.rules hb.records
      simp only [View.drop] at hrules
      split at hrules
      · exact .deleted rfl ‹_› hrules
      · exact .same hrules
    | _ => cases hwrites

end Backing

end PropertyRisk
