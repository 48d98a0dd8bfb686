import PropertyRisk.Proofs.Judgements
import PropertyRisk.Proofs.RuleWrites

/-!
# One judgement on every path

`Backing.paths_agree`: what a change of a rule's tree deletes is what its preview counts,
what judging a property again deletes once the tree has been written directly, and what
judging a single vulnerability finds not to trigger.
-/

namespace PropertyRisk

open Op (Triple)
open Engine

/-- A patch that sets a tree, and nothing else. -/
def Engine.RulePatch.ofTree (document : Value) : RulePatch := { tree := some document }

/-- A change that sets a tree, and nothing else. -/
def RuleChange.ofTree (source : TreeSource) : RuleChange := { tree := some source }

theorem Engine.RulePatch.accepted_ofTree {σ : Type} {g : Storage σ} (hg : g.ReadsQuietly) {s : σ}
    {r : Rule} {document : Value} {tree : Criteria}
    (h : (Rules.checkTree g document).run s = (.ok tree, s)) :
    (ofTree document).Accepted g s r none (some tree) none := by
  have hread := ((Rules.triple_checkTree hg document s).ok h).2
  have hnull : document ≠ .null := by
    rintro rfl
    cases hread
  refine ⟨rfl, ?_, rfl, rfl, ?_⟩
  · show (if some document = some .null then [RuleProblem.treeNull] else []) = []
    rw [if_neg (by simpa using hnull)]
  · show (some <$> Rules.checkTree g document).run s = _
    rw [Op.run_map, h]
    rfl

namespace Backing

variable {b : Backing} {w w' : World b.Store} {s : String} {r : Rule} {document : Value}
  {tree : Criteria}

/-- The vulnerabilities of a world that a later one does not have. -/
def gone (b : Backing) (w w' : World b.Store) : List Vulnerability :=
  (b.vulnerabilities w.store).filter fun x => x ∉ b.vulnerabilities w'.store

theorem mem_vulnerabilities_of_dropping {m : Memory} {f : Vulnerability → Bool}
    (hb : b.view.Becomes w m w')
    (hm : m.vulnerabilities = ((b.view.records w.store).dropping f).vulnerabilities)
    {x : Vulnerability} :
    x ∈ b.vulnerabilities w'.store ↔ x ∈ b.vulnerabilities w.store ∧ f x = false := by
  rw [← b.records_vulnerabilities, ← b.records_vulnerabilities, hb.records, hm]
  exact Memory.mem_dropping

theorem gone_of_dropping {m : Memory} {f : Vulnerability → Bool}
    (hb : b.view.Becomes w m w')
    (hm : m.vulnerabilities = ((b.view.records w.store).dropping f).vulnerabilities) :
    b.gone w w' = (b.vulnerabilities w.store).filter f := by
  refine List.filter_congr fun x hx => ?_
  have hiff := mem_vulnerabilities_of_dropping hb hm (x := x)
  cases hf : f x <;> simp [hiff, hx, hf]

/-! ## Writing a tree directly -/

/-- A tree that is written directly is then that of the rule, and nothing else changes. -/
theorem becomes_of_written (hw : b.view.Ready w) (hr : b.ruleAt w s = some r)
    {source : TreeSource} (hsource : source.read = .ok tree)
    (hread : Criteria.read document = .ok tree) {expected : Option Value} {r' : Rule}
    (hrun : (b.storage.perform (.updateRule (.text s) (.ofTree source) expected)).run w =
      (.ok (some r'), w')) :
    r'.tree = tree ∧ r'.id = .text s ∧ b.view.Becomes w { b.view.records w.store with
      rules := (b.view.records w.store).rules.put (.text s) r' } w' := by
  have hc : (RuleChange.ofTree source).IsRead := by
    intro c hc
    cases hc
    cases hsource
    exact ⟨document, hread⟩
  obtain ⟨u, hwrite, -, hb⟩ := run_writeRule _ expected b (rulesInOrder_of_ready b hw) hc
    (b.lawful.name_text (hw.kept.rules.id_of_get? hr).1) hr
  obtain ⟨hrevised, rfl⟩ := Prod.mk.inj (hwrite.symm.trans hrun)
  rw [hrevised] at hb
  obtain ⟨tree', kept, htree, -, rfl, hid⟩ := revised_eq_some hrevised
  have htree' : tree' = some tree := by
    obtain ⟨c, hc, rfl⟩ := mapM_some_eq_ok htree
    rw [Except.ok.inj (hsource.symm.trans hc)]
  refine ⟨by simp [Rule.changed, htree'], ?_, hb.becomes hw.whole⟩
  show kept.id.getD r.id = _
  rw [hid rfl]
  exact (hw.kept.rules.id_of_get? hr).2

section

variable (hw : b.view.Ready w) (hst : Stamped (b.vulnerabilities w.store)) {r' : Rule}
  (hid : r'.id = .text s) (htree : r'.tree = tree)
  (hplain : b.view.Plain s)
  (hb : b.view.Becomes w { b.view.records w.store with
    rules := (b.view.records w.store).rules.put (.text s) r' } w')
include hw hid hplain hb

theorem ready_of_written : b.view.Ready w' := hb.ready (hw.kept.put_rule hplain hid)

theorem observed_of_written (x : Vulnerability) :
    b.storage.observed w' x = b.storage.observed w x := by
  rw [← b.view_storage]
  exact View.observed_congr b.lawful hw (ready_of_written hw hid hplain hb) (hb.records ▸ rfl)

omit hw hid hplain in
theorem vulnerabilities_of_written : b.vulnerabilities w'.store = b.vulnerabilities w.store := by
  rw [← b.records_vulnerabilities, ← b.records_vulnerabilities, hb.records]

omit hw hid hplain in
/-- Only what the rule has found is judged by another tree now. -/
theorem ruleOf?_of_written (x : Vulnerability) : (b.view.records w'.store).ruleOf? x =
    if x.ruleId = .text s then some r' else (b.view.records w.store).ruleOf? x := by
  rw [hb.records]
  unfold Memory.ruleOf?
  split
  case h_1 t ht =>
    rw [ht, Shelf.get?_put]
    by_cases hts : t = s
    · simp [hts]
    · simp [hts]
  case h_2 hne =>
    rw [if_neg fun h => hne s h]

end

/-- What comes of a tree that is written to a rule depends on what is read from its source
only. -/
theorem revised_ofTree_congr : ∀ (b : Backing) {source other : TreeSource},
    source.read = other.read → ∀ (expected : Option Value) (now : String) (r : Rule),
    b.revised (.ofTree source) expected now r = b.revised (.ofTree other) expected now r
  | memory, source, other, h, expected, now, r => by
    have htree : (RuleChange.ofTree source).tree.mapM TreeSource.read =
        (RuleChange.ofTree other).tree.mapM TreeSource.read := by
      show some <$> source.read = some <$> other.read
      rw [h]
    simp only [revised, Memory.revised, htree]
    rfl
  | tables, source, other, h, expected, now, r => by
    have htree : (RuleChange.ofTree source).tree.mapM TreeSource.read =
        (RuleChange.ofTree other).tree.mapM TreeSource.read := by
      show some <$> source.read = some <$> other.read
      rw [h]
    simp only [revised, Tables.revised, htree]
    rfl

theorem takes_of_revised : ∀ {b : Backing} {change : RuleChange} {tree : Option Criteria} {now : String}
    {r r' : Rule}, change.Proper tree →
    b.revised change (some (.int r.version)) now r = .ok (some r') →
    b.view.takes change r.version = .ok ()
  | memory, _, _, _, _, _, _, _ => rfl
  | tables, change, tree, now, r, r', hc, h => by
    have hrevised := Tables.revised_of_proper hc now r
    rw [show Tables.revised change _ now r = _ from h] at hrevised
    cases ht : Tables.takes change r.version with
    | ok _ => exact ht
    | error e =>
      rw [ht] at hrevised
      cases hrevised

/-- A world in which a tree has been written to a rule directly, at any version that was
expected. -/
def WritesTree (b : Backing) (w : World b.Store) (s : String) (document : Value)
    (w' : World b.Store) : Prop :=
  ∃ source expected r', source.read = Criteria.read document ∧
    (b.storage.perform (.updateRule (.text s) (.ofTree source) expected)).run w =
      (.ok (some r'), w')

/-- All ways of judging what a rule has found by a tree come to the removal of the same
vulnerabilities. -/
structure Agree (b : Backing) (w : World b.Store) (s : String) (document : Value)
    (removed : List Vulnerability) : Prop where
  own : ∀ x ∈ removed, x ∈ b.vulnerabilities w.store ∧ x.ruleId = .text s
  previewed : (Rules.preview b.storage (.text s) document).run w =
    (.ok ⟨(b.vulnerabilities w.store).countP (·.ruleId = .text s), removed.length⟩, w)
  writes : ∃ w₁, b.WritesTree w s document w₁
  unmoved : ∀ {w₁}, b.WritesTree w s document w₁ →
    b.vulnerabilities w₁.store = b.vulnerabilities w.store
  reevaluated : ∀ {w₁ p xs}, b.WritesTree w s document w₁ →
    (b.storage.perform (.listVulnerabilitiesForProperty p none)).run w₁ = (.ok xs, w₁) →
    ∃ report w₂, (Vulnerabilities.reevaluate b.storage p).run w₁ = (.ok report, w₂) ∧
      ∀ x, x.ruleId = .text s →
        (x ∈ b.gone w₁ w₂ ↔ x ∈ removed ∧ x.propertyId.equal (b.spot p) = true)
  evaluated : ∀ {w₁ x}, b.WritesTree w s document w₁ → x ∈ b.vulnerabilities w.store →
    x.ruleId = .text s → b.storage.observed w x ≠ [] →
    ∃ triggers, (Vulnerabilities.evaluate b.storage x.id).run w₁ = (.ok triggers, w₁) ∧
      (triggers = false ↔ x ∈ removed)

section

variable (hw : b.view.Ready w) (hst : Stamped (b.vulnerabilities w.store))
  (hr : b.ruleAt w s = some r) (hread : Criteria.read document = .ok tree)
  (hj : ∀ x ∈ b.vulnerabilities w.store, x.ruleId = .text s →
    ∃ t, tree.evaluate (b.storage.observed w x) = .ok t)
include hw hr hread hj

/-- Judging a property again under the new tree removes what is refuted on it. -/
theorem gone_of_reevaluate (hst : Stamped (b.vulnerabilities w.store))
    (hothers : ∀ x ∈ b.vulnerabilities w.store, x.ruleId ≠ .text s → ∀ r',
      (b.view.records w.store).ruleOf? x = some r' →
      ∃ t, r'.tree.evaluate (b.storage.observed w x) = .ok t)
    {w₁ : World b.Store} (hwritten : b.WritesTree w s document w₁) {p : Value}
    {xs : List Vulnerability}
    (hlist : (b.storage.perform (.listVulnerabilitiesForProperty p none)).run w₁ = (.ok xs, w₁)) :
    ∃ report w₂, (Vulnerabilities.reevaluate b.storage p).run w₁ = (.ok report, w₂) ∧
      ∀ x, x.ruleId = .text s → (x ∈ b.gone w₁ w₂ ↔ x ∈ b.vulnerabilities w.store ∧
        tree.refutes (b.storage.observed w x) = true ∧ x.propertyId.equal (b.spot p) = true) := by
  obtain ⟨source, expected, r', hsource, hrun⟩ := hwritten
  have hplain := (hw.kept.rules.id_of_get? hr).1
  obtain ⟨htree, hid, hb⟩ := becomes_of_written hw hr (hsource.trans hread) hread hrun
  have hw₁ := ready_of_written hw hid hplain hb
  have hfound := vulnerabilities_of_written hb
  have hobserved := observed_of_written hw hid hplain hb
  -- what the rule has found is judged by the new tree, all else by the tree that it had before
  have hjudged : ∀ x ∈ xs, ∀ r₁, (b.view.records w₁.store).ruleOf? x = some r₁ →
      ∃ t, r₁.tree.evaluate (b.view.storage.observed w₁ x) = .ok t := by
    intro x hx r₁ hr₁
    have hmem : x ∈ b.vulnerabilities w.store := by
      rw [← hfound, ← b.records_vulnerabilities]
      exact (List.mem_filter.mp
        ((perm_listForProperty b hw₁ (hfound ▸ hst) hlist).mem_iff.mp hx)).1
    rw [b.view_storage, hobserved]
    rw [ruleOf?_of_written hb] at hr₁
    split at hr₁
    case isTrue hown =>
      cases hr₁
      exact htree ▸ hj x hmem hown
    case isFalse hother => exact hothers x hmem hother r₁ hr₁
  obtain ⟨w₂, hreevaluate, hb₂⟩ := run_reevaluate_judged hw₁ (hfound ▸ hst) hlist hjudged
  refine ⟨_, w₂, hreevaluate, fun x hown => ?_⟩
  have hrefuted : b.view.refuted w₁ x = tree.refutes (b.storage.observed w x) := by
    rw [View.refuted, ruleOf?_of_written hb, if_pos hown, b.view_storage, hobserved, Option.any_some,
      htree]
  rw [gone_of_dropping hb₂ rfl, List.mem_filter, hfound, hrefuted]
  simp [and_comm]

/-- A single vulnerability is judged by the new tree. -/
theorem evaluate_of_written {w₁ : World b.Store} (hwritten : b.WritesTree w s document w₁)
    {x : Vulnerability} (hx : x ∈ b.vulnerabilities w.store) (hown : x.ruleId = .text s)
    (hne : b.storage.observed w x ≠ []) :
    ∃ triggers, (Vulnerabilities.evaluate b.storage x.id).run w₁ = (.ok triggers, w₁) ∧
      (triggers = false ↔ tree.refutes (b.storage.observed w x) = true) := by
  obtain ⟨source, expected, r', hsource, hrun⟩ := hwritten
  have hplain := (hw.kept.rules.id_of_get? hr).1
  obtain ⟨htree, hid, hb⟩ := becomes_of_written hw hr (hsource.trans hread) hread hrun
  obtain ⟨triggers, ht⟩ := hj x hx hown
  have hrule : (b.view.records w₁.store).ruleOf? x = some r' := by
    rw [ruleOf?_of_written hb, if_pos hown]
  have hjudge : r'.tree.evaluate (b.view.storage.observed w₁ x) = .ok triggers := by
    rw [b.view_storage, observed_of_written hw hid hplain hb, htree, ht]
  refine ⟨triggers, run_evaluate_judged (ready_of_written hw hid hplain hb)
    (vulnerabilities_of_written hb ▸ hx) hrule hjudge, ?_⟩
  rw [Criteria.refutes_iff]
  simp [hne, ht]

end

/-- A change to a tree that the checks let through, where everything can be judged, goes
through, and every other way of judging by that tree agrees with what it removes. -/
theorem paths_agree (hw : b.view.Ready w) (hst : Stamped (b.vulnerabilities w.store))
    (hr : (b.storage.perform (.getRule (.text s))).run w = (.ok (some r), w))
    (hcheck : (Rules.checkTree b.storage document).run w = (.ok tree, w))
    (hwrite : ∃ r', ((b.storage.perform (.updateRule (.text s) (.ofTree (.document document))
      (some (.int r.version)))).run w).1 = .ok (some r'))
    (hj : ∀ x ∈ b.vulnerabilities w.store, x.ruleId = .text s →
      ∃ t, tree.evaluate (b.storage.observed w x) = .ok t)
    (hothers : ∀ x ∈ b.vulnerabilities w.store, x.ruleId ≠ .text s → ∀ r',
      (b.view.records w.store).ruleOf? x = some r' →
      ∃ t, r'.tree.evaluate (b.storage.observed w x) = .ok t) :
    ∃ u w', (Rules.update b.storage (.text s) (.ofTree document)).run w = (.ok u, w') ∧
      b.Agree w s document (b.gone w w') := by
  have law := b.lawful
  have hquiet : b.storage.ReadsQuietly := b.view_storage ▸ law.readsQuietly
  have hread := ((Rules.triple_checkTree hquiet document w).ok hcheck).2
  -- the rule is there, under an id that is kept as it is
  obtain ⟨hplain, hget⟩ := View.get?_of_getRule law hw (b.view_storage ▸ hr)
  -- a store that takes the tree as a document takes it as it was read
  obtain ⟨r', hr'⟩ := hwrite
  obtain ⟨w₁, hrun₁, -⟩ := run_writeRule (.ofTree (.document document))
    (some (.int r.version)) b (rulesInOrder_of_ready b hw) nofun (law.name_text hplain) hget
  have hrevised : b.revised (.ofTree (.document document)) (some (.int r.version)) w.clock.text r =
      .ok (some r') := by
    rw [hrun₁] at hr'
    exact hr'
  have hsame : (TreeSource.parsed tree).read = (TreeSource.document document).read := hread.symm
  have hproper : (RuleChange.ofTree (.parsed tree)).Proper (some tree) := ⟨rfl, rfl, rfl, rfl⟩
  have htakes : b.view.takes (.ofTree (.parsed tree)) r.version = .ok () :=
    takes_of_revised hproper ((revised_ofTree_congr b hsame _ _ r).trans hrevised)
  have hjudged := hj
  have hstamped := hst
  rw [← b.records_vulnerabilities] at hj hst
  rw [← b.view_storage] at hj hcheck
  obtain ⟨w', hupdate, hb⟩ := View.run_update_judged law hw hst hplain hget
    (RulePatch.accepted_ofTree law.readsQuietly hcheck) htakes hj
  rw [b.view_storage] at hupdate hb
  have hgone : b.gone w w' = (b.vulnerabilities w.store).filter fun x =>
      decide (x.ruleId = .text s) && tree.refutes (b.storage.observed w x) :=
    gone_of_dropping hb rfl
  have hmem (x : Vulnerability) (hown : x.ruleId = .text s) : x ∈ b.gone w w' ↔
      x ∈ b.vulnerabilities w.store ∧ tree.refutes (b.storage.observed w x) = true := by
    simp [hgone, hown]
  refine ⟨_, w', hupdate, ?own, ?previewed, ?writes, ?unmoved, ?reevaluated, ?evaluated⟩
  case own =>
    intro x hx
    rw [hgone, List.mem_filter, Bool.and_eq_true, decide_eq_true_eq] at hx
    exact ⟨hx.1, hx.2.1⟩
  case previewed =>
    have hpreview := View.run_preview law hw hst hplain hget hread hj
    rw [b.view_storage, b.records_vulnerabilities] at hpreview
    rw [hpreview, hgone, ← List.countP_eq_length_filter]
  case writes =>
    exact ⟨w₁, _, _, r', rfl, hrun₁.trans (by rw [hrevised])⟩
  case unmoved =>
    rintro w₁ ⟨source, expected, r₁, hsource, hrun⟩
    obtain ⟨-, -, hb₁⟩ := becomes_of_written hw hget (hsource.trans hread) hread hrun
    exact vulnerabilities_of_written hb₁
  case reevaluated =>
    intro w₁ p xs hwritten hlist
    obtain ⟨report, w₂, hrun, hiff⟩ :=
      gone_of_reevaluate hw hget hread hjudged hstamped hothers hwritten hlist
    refine ⟨report, w₂, hrun, fun x hown => ?_⟩
    rw [hiff x hown, hmem x hown, and_assoc]
  case evaluated =>
    intro w₁ x hwritten hx hown hne
    obtain ⟨triggers, hrun, hiff⟩ := evaluate_of_written hw hget hread hjudged hwritten hx hown hne
    refine ⟨triggers, hrun, hiff.trans ?_⟩
    rw [hmem x hown]
    exact (and_iff_right hx).symm

/-- All that the rule has found is judged alike when it is to ask for no water. -/
theorem leaks_agree : ∃ u w', (Rules.update Memory.storage (.text "leak") dry).run leaks = (.ok u, w') ∧
    memory.Agree leaks "leak" (dry.tree.getD .null) (memory.gone leaks w') := by
  have hcheck : (Rules.checkTree Memory.storage (dry.tree.getD .null)).run leaks =
      (.ok ⟨.and, [.leaf { typeId := "water", value := .text "no" }]⟩, leaks) := by
    cbv
  have hj : ∀ x ∈ memory.vulnerabilities leaks.store, x.ruleId = .text "leak" → ∃ t,
      Criteria.evaluate (Memory.storage.observed leaks x)
        ⟨.and, [.leaf { typeId := "water", value := .text "no" }]⟩ = .ok t := by
    decide +kernel
  have hothers : ∀ x ∈ memory.vulnerabilities leaks.store, x.ruleId ≠ .text "leak" → ∀ r',
      (memory.view.records leaks.store).ruleOf? x = some r' →
      ∃ t, r'.tree.evaluate (Memory.storage.observed leaks x) = .ok t := by
    intro x hx hne
    rcases mem_leaks.mp hx with rfl | rfl <;> exact absurd rfl hne
  exact paths_agree (b := .memory) (r := waterRule "leak") ready_leaks stamped_leaks rfl hcheck
    ⟨_, rfl⟩ hj hothers

end Backing

end PropertyRisk
