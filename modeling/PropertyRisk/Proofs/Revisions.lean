import PropertyRisk.Proofs.Batches
import PropertyRisk.Proofs.Founded
import PropertyRisk.Proofs.Peers
import PropertyRisk.Proofs.Typed
import PropertyRisk.Proofs.WellFormed

/-!
# Creating a rule and setting all of it

The values that a rule is created from can be set in a rule that is there. They are checked twice
over, for a new rule and for a patch, and in both places the same values pass. What is stored is
the same too, but for blanks around the labels, which a new rule loses and a changed one keeps:
`Backing.changed_as_created`.
-/

namespace PropertyRisk

open Op (Triple)
open Engine

/-! ## Labels -/

namespace Text

/-- A blank is no half of a surrogate pair. -/
theorem half?_of_isBlank {c : Char} (h : isBlank c = true) : half? c = none := by
  have hlow : c.toNat ≤ 0x3000 := by
    simp [isBlank, isSpace] at h
    omega
  simp only [half?, Bool.and_eq_true, decide_eq_true_eq, ite_eq_right_iff]
  omega

theorem isWhole_trim_eq (s : String) : isWhole (trim s) = isWhole s := by
  rw [Bool.eq_iff_iff]
  refine ⟨fun h => List.all_eq_true.mpr fun c hc => ?_, isWhole_trim⟩
  by_cases hblank : isBlank c = true
  · rw [half?_of_isBlank hblank]
    rfl
  · exact List.all_eq_true.mp h c (Rules.mem_trim hc (by simpa using hblank))

end Text

namespace Engine.Rules

theorem requiredText_text (s : String) : requiredText (.text s) =
    .ok (if isBlankText s then none else some (Text.trim s)) := by
  by_cases hs : s = ""
  · subst hs
    rfl
  · simp [requiredText, Value.holds, hs]

theorem isEmptyLabel_text (s : String) : isEmptyLabel (.text s) = isBlankText s := by
  by_cases hs : s = ""
  · subst hs
    rfl
  · simp [isEmptyLabel, Value.holds, Value.plain, hs]

end Engine.Rules

/-! ## Values of a rule -/

namespace Engine

/-- What a rule is made of: labels, a document with its tree, a window whose start is given, and
whether it is active. -/
structure RuleValues where
  name : String
  description : String
  tree : Value
  effectiveFrom : Value
  effectiveTo : Value
  isActive : Bool
  starts : effectiveFrom.holds = true

namespace RuleValues

/-- The values for a new rule. -/
def input (x : RuleValues) : RuleInput where
  name := .text x.name
  description := .text x.description
  tree := x.tree
  effectiveFrom := x.effectiveFrom
  effectiveTo := x.effectiveTo
  isActive := .bool x.isActive

/-- The values for a rule that is there. -/
def patch (x : RuleValues) : RulePatch where
  name := some (.text x.name)
  description := some (.text x.description)
  tree := some x.tree
  effectiveFrom := some x.effectiveFrom
  effectiveTo := some x.effectiveTo
  isActive := some (.bool x.isActive)

/-- The rule that is to be stored once its window and its tree are read. -/
def draft (x : RuleValues) (window : Window) (tree : Criteria) : RuleDraft where
  name := .text (Text.trim x.name)
  description := .text (Text.trim x.description)
  tree := tree
  effectiveFrom := window.start
  effectiveTo := window.stop
  isActive := .bool x.isActive

/-- The change that is to be made once window and tree are read. -/
def change (x : RuleValues) (window : Window) (tree : Criteria) : RuleChange :=
  Rules.changeOf x.patch (some window) (some tree) (some x.isActive)

/-- The window, if it and the labels are in order. -/
def screened (x : RuleValues) : Except Error Window :=
  match Rules.checkWindow x.effectiveFrom x.effectiveTo with
  | .error e => .error e
  | .ok window =>
    match Rules.isBlankText x.name, Rules.isBlankText x.description, window with
    | false, false, .ok window => .ok window
    | noName, noDescription, window => .error <| .invalid <| .rule <|
        (if noName then [.nameMissing] else []) ++
        (if noDescription then [.descriptionMissing] else []) ++ Rules.problemOf window

end RuleValues

end Engine

/-- Errors that are one, or reject what was given both of them. -/
def Error.Akin (e e' : Error) : Prop := e' = e ∨ e.isRejection = true ∧ e'.isRejection = true

namespace Engine.RuleValues

variable {σ : Type} {g : Storage σ} {s : σ} (x : RuleValues) {window : Window} {tree : Criteria}

theorem run_create {now : String} (hnow : g.now.run s = (.ok now, s)) :
    (Rules.create g x.input).run s = (Op.ofExcept x.screened >>= fun window =>
      Rules.checkTree g x.tree >>= fun tree =>
        g.perform (.createRule (x.draft window tree))).run s := by
  have hstart : x.effectiveFrom.orElse (.text now) = x.effectiveFrom := if_pos x.starts
  unfold Rules.create
  simp only [input, Rules.requiredText_text]
  rw [Op.run_bind_ok (Op.run_ofExcept_ok _ _), Op.run_bind_ok (Op.run_ofExcept_ok _ _),
    Op.run_bind_ok hnow, hstart, screened]
  cases Rules.checkWindow x.effectiveFrom x.effectiveTo with
  | error e => rfl
  | ok window =>
    rw [Op.run_bind_ok (Op.run_ofExcept_ok _ _)]
    cases Rules.isBlankText x.name <;> cases Rules.isBlankText x.description <;> cases window <;> rfl

/-- A patch of all fields depends on nothing that the rule has. -/
theorem patchedWindow_patch (r : Rule) : Rules.patchedWindow r x.patch =
    (Rules.checkWindow x.effectiveFrom x.effectiveTo).map some := by
  have hstart : x.effectiveFrom.orElse r.effectiveFrom = x.effectiveFrom := if_pos x.starts
  simp only [Rules.patchedWindow, patch, Option.isSome_some, Bool.or_self, if_true,
    Option.getD_some, hstart]
  cases Rules.checkWindow x.effectiveFrom x.effectiveTo <;> rfl

theorem patchProblems_patch : Rules.patchProblems x.patch =
    (if Rules.isBlankText x.name then [.blank "name"] else []) ++
      (if Rules.isBlankText x.description then [.blank "description"] else []) ++
      (if x.tree = .null then [.treeNull] else []) := by
  simp [Rules.patchProblems, Rules.labelProblems, patch, Rules.isEmptyLabel_text, Rules.flagOf,
    Rules.problemOf]

variable {x}

theorem screened_eq_ok (h : x.screened = .ok window) :
    Rules.checkWindow x.effectiveFrom x.effectiveTo = .ok (.ok window) ∧
      Rules.isBlankText x.name = false ∧ Rules.isBlankText x.description = false := by
  unfold screened at h
  split at h
  · cases h
  rename_i hwindow
  split at h <;> cases h
  exact ⟨hwindow, ‹_›, ‹_›⟩

/-- What is refused for a new rule before its tree is looked at is refused for any rule. -/
theorem preflight_of_refused {e : Error} (h : x.screened = .error e) (r : Rule) :
    ∃ e', Rules.preflight x.patch r = .error e' ∧ e.Akin e' := by
  have hwindow := x.patchedWindow_patch r
  unfold screened at h
  cases hread : Rules.checkWindow x.effectiveFrom x.effectiveTo with
  | error e' =>
    rw [hread] at h hwindow
    cases h
    exact ⟨_, by rw [Rules.preflight, hwindow]; rfl, .inl rfl⟩
  | ok window =>
    rw [hread] at h hwindow
    -- a label is blank, or the window is out of order
    have hproblem : Rules.patchProblems x.patch ≠ [] ∨ ∃ problem, window = .error problem := by
      rw [patchProblems_patch]
      cases hname : Rules.isBlankText x.name <;>
        cases hdescription : Rules.isBlankText x.description <;> cases window <;> simp_all
    have hrejects : e.isRejection = true := by
      dsimp only at h
      split at h <;> cases h
      rfl
    rw [Rules.preflight, hwindow]
    rcases hproblem with hlabel | ⟨problem, rfl⟩
    · cases hproblems : Rules.patchProblems x.patch with
      | nil => exact absurd hproblems hlabel
      | cons problem rest => exact ⟨_, rfl, .inr ⟨hrejects, rfl⟩⟩
    · cases Rules.patchProblems x.patch <;> exact ⟨_, rfl, .inr ⟨hrejects, rfl⟩⟩

theorem preflight_of_screened (h : x.screened = .ok window) (r : Rule) :
    Rules.preflight x.patch r = if x.tree = .null then .error (.invalid (.ruleChange [.treeNull]))
      else .ok (some window, some x.isActive) := by
  obtain ⟨hwindow, hname, hdescription⟩ := screened_eq_ok h
  have hpatched : Rules.patchedWindow r x.patch = .ok (some (.ok window)) := by
    rw [patchedWindow_patch, hwindow]
    rfl
  have hflag : Rules.flagOf x.patch.isActive = .ok (some x.isActive) := rfl
  rw [Rules.preflight, hpatched, patchProblems_patch, hname, hdescription, hflag]
  by_cases hnull : x.tree = .null <;> simp [hnull, Rules.problemOf]

/-- The values pass all checks, and come to this window and this tree. -/
structure Passes (x : RuleValues) (g : Storage σ) (s : σ) (window : Window) (tree : Criteria) :
    Prop where
  screened : x.screened = .ok window
  given : x.tree ≠ .null
  tree : (Rules.checkTree g x.tree).run s = (.ok tree, s)

theorem Passes.accepted (h : x.Passes g s window tree) (r : Rule) :
    x.patch.Accepted g s r (some window) (some tree) (some x.isActive) where
  known := rfl
  labels := by
    obtain ⟨-, hname, hdescription⟩ := screened_eq_ok h.screened
    simp [patchProblems_patch, hname, hdescription, h.given]
  window := by
    rw [patchedWindow_patch, (screened_eq_ok h.screened).1]
    rfl
  isActive := rfl
  tree := (Op.run_bind_ok h.tree : (some <$> Rules.checkTree g x.tree).run s = (.ok (some tree), s))

end Engine.RuleValues

namespace View

variable {S : Type} {v : View S} {w : World S} {s : String} {r : Rule}

/-- Values that do not pass end both calls, in errors that are akin. -/
theorem passes_or_refused (law : v.Lawful) (h : v.Ready w) (hs : v.Plain s)
    (hr : (v.records w.store).rules.get? (.text s) = some r) (x : RuleValues) :
    (∃ window tree, x.Passes v.storage w window tree) ∨
      ∃ e e', (Rules.create v.storage x.input).run w = (.error e, w) ∧
        (Rules.update v.storage (.text s) x.patch).run w = (.error e', w) ∧ e.Akin e' := by
  have hget : (v.storage.perform (.getRule (.text s))).run w = (.ok (some r), w) := by
    rw [run_getRule_text law h hs, hr]
  have hcreate := x.run_create (law.now (w := w))
  have hknown : x.patch.unknown.isEmpty = true := rfl
  have hkey : Rules.requireKey (.text s) = .ok () := by simp [Rules.requireKey]
  have hupdate := Rules.run_update hknown hkey hget
  cases hscreened : x.screened with
  | error e =>
    obtain ⟨e', hpre, hakin⟩ := RuleValues.preflight_of_refused hscreened r
    rw [hscreened] at hcreate
    rw [hpre] at hupdate
    exact .inr ⟨e, e', hcreate, hupdate, hakin⟩
  | ok window =>
    rw [hscreened, Op.run_bind_ok (Op.run_ofExcept_ok _ _)] at hcreate
    rw [RuleValues.preflight_of_screened hscreened] at hupdate
    by_cases hnull : x.tree = .null
    · -- a tree that is missing is refused where it is read, or before
      rw [if_pos hnull] at hupdate
      rw [hnull] at hcreate
      exact .inr ⟨_, _, hcreate, hupdate, .inr ⟨rfl, rfl⟩⟩
    · rw [if_neg hnull, Op.run_bind_ok (Op.run_ofExcept_ok _ _)] at hupdate
      have hquiet := Rules.quiet_checkTree law.readsQuietly x.tree w
      rcases hcheck : (Rules.checkTree v.storage x.tree).run w with ⟨e | tree, u⟩
      all_goals obtain rfl : u = w := (congrArg Prod.snd hcheck).symm.trans hquiet
      · refine .inr ⟨e, e, hcreate.trans (Op.run_bind_error hcheck), hupdate.trans ?_, .inl rfl⟩
        exact Op.run_bind_error (Op.run_bind_error hcheck)
      · exact .inl ⟨window, tree, hscreened, hnull, hcheck⟩

/-- A rule that is there is changed to values that pass, if the store takes the change. -/
theorem run_update_passing (law : v.Lawful) (hw : v.Steady w) (hs : v.Plain s)
    (hr : (v.records w.store).rules.get? (.text s) = some r) {x : RuleValues} {window : Window}
    {tree : Criteria} (hx : x.Passes v.storage w window tree)
    (hcalm : ∀ y ∈ (v.records w.store).vulnerabilities.records, y.ruleId = .text s →
      tree.Comparable (v.storage.observed w y)) :
    ∃ w', match v.takes (x.change window tree) r.version with
      | .error e => (Rules.update v.storage (.text s) x.patch).run w = (.error e, w')
      | .ok _ => ∃ changed, (Rules.update v.storage (.text s) x.patch).run w = (.ok changed, w') ∧
          changed.rule = r.changed (v.kept (x.change window tree)) (some tree) w.clock.text ∧
          (v.records w'.store).rules.get? (.text s) = some changed.rule := by
  obtain ⟨w', hrun, hb⟩ := run_update_taken law hw.ready hw.stamped hs hr (hx.accepted r)
    fun y hy hys => (hcalm y hy hys).evaluate
  refine ⟨w', ?_⟩
  have hrules := congrArg Memory.rules hb.records
  rw [RuleValues.change]
  cases htakes : v.takes (Rules.changeOf x.patch (some window) (some tree) (some x.isActive))
      r.version with
  | error e => rw [hrun, htakes]; rfl
  | ok taken =>
    simp only [htakes] at hrules
    refine ⟨_, by rw [hrun, htakes]; rfl, rfl, ?_⟩
    rw [hrules, Shelf.get?_put, if_pos rfl]

end View

/-! ## What the store takes -/

namespace Tables

variable {w : World Tables} {x : RuleValues} {window : Window} {tree : Criteria} {version : Int}

/-- The columns of a new rule and those of a changed one turn down the same labels. -/
theorem ruleCells_draft (hwindow : window.Written) (hversion : fitsWord version = true)
    (now : String) : (ruleCells (x.draft window tree) now).map (fun _ => ()) =
      takes (x.change window tree) version := by
  obtain ⟨start, hstart⟩ := hwindow.start
  have hgiven : (Value.text start.text).orElse (.text now) = .text start.text :=
    Value.orElse_stamp start _
  have bindStamp (operation : Operation) (stamp : Time.Stamp) :
      boundCell operation (Cell.text (.text stamp.text)) = .ok (some stamp.text) := by
    rw [boundCell_text, if_pos (Time.isWhole_text stamp)]
  have bindStop (operation : Operation) :
      ∃ cell, boundCell operation (Cell.text window.stop) = .ok cell := by
    rcases hwindow.stop with hnull | ⟨last, hlast⟩
    · exact ⟨none, by rw [hnull]; rfl⟩
    · exact ⟨_, by rw [hlast]; exact bindStamp operation last⟩
  obtain ⟨stop, hstop⟩ := bindStop .createRule
  obtain ⟨stop', hstop'⟩ := bindStop .updateRule
  have bindVersion : boundCell .updateRule (Cell.number (.int version)) = .ok (.int version) := by
    rw [Cell.number_int hversion, boundCell]
  simp only [ruleCells, takes, RuleValues.draft, RuleValues.change, Rules.changeOf,
    RuleValues.patch, hstart, hgiven, Option.map_some, Option.mapM_some, bindStamp, hstop, hstop',
    bindVersion, boundCell_text, Text.isWhole_trim_eq]
  by_cases hname : Text.isWhole x.name = true <;>
    by_cases hdescription : Text.isWhole x.description = true <;>
      simp only [hname, hdescription] <;> rfl

/-- A new rule is stored just if a change to the same values is taken. -/
theorem answer_createRule_draft (hw : view.Ready w) (hs : view.Supplied w) (htree : tree.Readable)
    (hwindow : window.Written) (hversion : fitsWord version = true) :
    ((view.storage.perform (.createRule (x.draft window tree))).run w).1.map (fun _ => ()) =
      takes (x.change window tree) version := by
  have hanswer := answer_createRule (d := x.draft window tree) hw hs htree
  rw [← ruleCells_draft hwindow hversion w.clock.text]
  generalize (view.storage.perform (.createRule (x.draft window tree))).run w = answer at hanswer
  obtain ⟨answer, u⟩ := answer
  -- both answers are errors, or neither is
  rcases answer with e | r <;>
    rcases hcells : ruleCells (x.draft window tree) w.clock.text with e' | cells <;>
    rw [hcells] at hanswer
  · cases hanswer
    rfl
  · cases hanswer
  · cases hanswer
  · rfl

end Tables

namespace Backing

variable {b : Backing} {w : World b.Store} {s : String} {r : Rule}

/-- Whether the store can hold the version of a rule: in tables it is of 64 bits. -/
def HoldsVersion : Backing → Int → Prop
  | memory => fun _ => True
  | tables => (fitsWord · = true)

theorem answer_createRule_draft : ∀ (b : Backing) {w : World b.Store} {x : RuleValues}
    {window : Window} {tree : Criteria} {version : Int}, b.view.Ready w → b.view.Supplied w →
    b.view.Tree tree → window.Written → b.HoldsVersion version →
    ((b.view.storage.perform (.createRule (x.draft window tree))).run w).1.map (fun _ => ()) =
      b.view.takes (x.change window tree) version
  | memory, _, _, _, _, _, _, _, _, _, _ => rfl
  | tables, _, _, _, _, _, hw, hs, htree, hwindow, hversion =>
    Tables.answer_createRule_draft hw hs htree hwindow hversion

/-- A store that takes a change keeps its labels as they are. -/
theorem column_of_takes : ∀ {b : Backing} {x : RuleValues} {window : Window} {tree : Criteria}
    {version : Int}, b.view.takes (x.change window tree) version = .ok () →
    b.view.column (.text x.name) = .text x.name ∧
      b.view.column (.text x.description) = .text x.description
  | memory, _, _, _, _, _ => ⟨rfl, rfl⟩
  | tables, x, _, _, _, h => by
    obtain ⟨_, hname, h⟩ := bind_eq_ok.mp h
    obtain ⟨_, hdescription, -⟩ := bind_eq_ok.mp h
    obtain ⟨_, hcell, -⟩ := mapM_some_eq_ok hname
    obtain ⟨_, hcell', -⟩ := mapM_some_eq_ok hdescription
    exact ⟨Tables.column_of_bound hcell, Tables.column_of_bound hcell'⟩

end Backing

/-! ## Both ways -/

/-- What a caller sets of a rule. -/
structure Rule.Content where
  name : Value
  description : Value
  tree : Criteria
  window : Window
  isActive : Value

def Rule.content (r : Rule) : Rule.Content := ⟨r.name, r.description, r.tree, r.window, r.isActive⟩

namespace Backing

variable {b : Backing} {w : World b.Store} {s : String} {r : Rule} {x : RuleValues}
  {window : Window} {tree : Criteria}

theorem content_stored (hwindow : window.Written) (id now : String) :
    ((x.draft window tree).stored b.tag b.view.flag id now).content =
      ⟨.text (Text.trim x.name), .text (Text.trim x.description), tree, window,
        .bool x.isActive⟩ := by
  rw [Rule.content, window_stored hwindow]
  simp only [RuleDraft.stored, RuleValues.draft, b.tag_text, b.lawful.flag_bool]

theorem content_changed (hwindow : window.Written) {version : Int}
    (htakes : b.view.takes (x.change window tree) version = .ok ()) (now : String) :
    (r.changed (b.view.kept (x.change window tree)) (some tree) now).content =
      ⟨.text x.name, .text x.description, tree, window, .bool x.isActive⟩ := by
  obtain ⟨hname, hdescription⟩ := column_of_takes htakes
  rw [Rule.content, window_changed hwindow rfl rfl]
  simp only [Rule.changed, View.kept, RuleValues.change, Rules.changeOf, RuleValues.patch,
    Option.map_some, Option.getD_some, hname, hdescription, b.lawful.flag_bool]

/-- A rule is created from values that pass, if the store takes a change to them. -/
theorem run_create_passing (hw : b.view.Steady w) (hx : x.Passes b.view.storage w window tree)
    {version : Int} (hversion : b.HoldsVersion version) :
    ∃ u, match b.view.takes (x.change window tree) version with
      | .error e => (Rules.create b.view.storage x.input).run w = (.error e, u)
      | .ok _ => ∃ new, (Rules.create b.view.storage x.input).run w = (.ok new, u) ∧
          new = (x.draft window tree).stored b.tag b.view.flag (w.idOf (w.issued + 1))
            w.clock.text ∧
          b.ruleAt u (w.idOf (w.issued + 1)) = some new := by
  have law := b.lawful
  have htree := law.tree_of_read
    ((Rules.triple_checkTree law.readsQuietly x.tree w).ok hx.tree).2
  have hwindow := Rules.written_of_checkWindow (RuleValues.screened_eq_ok hx.screened).1
  have hcreate := x.run_create (law.now (w := w))
  rw [hx.screened, Op.run_bind_ok (Op.run_ofExcept_ok _ _), Op.run_bind_ok hx.tree] at hcreate
  have hanswer := answer_createRule_draft b (x := x) hw.ready hw.supplied htree hwindow hversion
  have hstores := b.triple_createRule (d := x.draft window tree) (b.rulesInOrder_of_ready hw.ready)
    (hw.supplied.plain _) htree
  rw [← b.view_storage] at hstores
  rw [hcreate, ← hanswer]
  rcases hwrite : (b.view.storage.perform (.createRule (x.draft window tree))).run w with
    ⟨e | new, u⟩
  · exact ⟨u, rfl⟩
  · obtain ⟨hnew, -, -, hb⟩ := hstores.ok hwrite
    exact ⟨u, new, rfl, hnew, by rw [ruleAt_eq hb, Shelf.get?_put, if_pos rfl]⟩

/-- The values that a rule is created from are set in a rule that is there. Either both calls end
in an error, and the errors are akin; or both store the rule that they answer with. Then the two
rules have the same tree, window and flag, but a new rule has lost the blanks around its labels,
which a changed one keeps. -/
theorem changed_as_created (hw : b.view.Steady w) (hr : b.ruleAt w s = some r)
    (hversion : b.HoldsVersion r.version) (x : RuleValues)
    (hcalm : ∀ tree, Criteria.read x.tree = .ok tree → ∀ y ∈ b.vulnerabilities w.store,
      y.ruleId = .text s → tree.Comparable (b.storage.observed w y)) :
    (∃ e e' u u', (Rules.create b.storage x.input).run w = (.error e, u) ∧
      (Rules.update b.storage (.text s) x.patch).run w = (.error e', u') ∧ e.Akin e') ∨
    ∃ new changed u u', (Rules.create b.storage x.input).run w = (.ok new, u) ∧
      b.ruleAt u (w.idOf (w.issued + 1)) = some new ∧
      (Rules.update b.storage (.text s) x.patch).run w = (.ok changed, u') ∧
      b.ruleAt u' s = some changed.rule ∧
      changed.rule.name = .text x.name ∧ changed.rule.description = .text x.description ∧
      new.content = { changed.rule.content with
        name := .text (Text.trim x.name), description := .text (Text.trim x.description) } := by
  have law := b.lawful
  have hs := (hw.ready.kept.rules.id_of_get? hr).1
  rw [← b.view_storage] at hcalm ⊢
  rw [← b.records_vulnerabilities] at hcalm
  rcases View.passes_or_refused law hw.ready hs hr x with ⟨window, tree, hx⟩ | hrefused
  case inr =>
    obtain ⟨e, e', hcreate, hupdate, hakin⟩ := hrefused
    exact .inl ⟨e, e', w, w, hcreate, hupdate, hakin⟩
  have hread := ((Rules.triple_checkTree law.readsQuietly x.tree w).ok hx.tree).2
  have hwindow := Rules.written_of_checkWindow (RuleValues.screened_eq_ok hx.screened).1
  -- both calls come to a write, which is taken in both or in neither
  obtain ⟨u, hcreate⟩ := run_create_passing hw hx hversion
  obtain ⟨u', hupdate⟩ := View.run_update_passing law hw hs hr hx (hcalm tree hread)
  cases htakes : b.view.takes (x.change window tree) r.version with
  | error e =>
    rw [htakes] at hcreate hupdate
    exact .inl ⟨e, e, u, u', hcreate, hupdate, .inl rfl⟩
  | ok taken =>
    rw [htakes] at hcreate hupdate
    obtain ⟨new, hnew, rfl, hstored⟩ := hcreate
    obtain ⟨changed, hchanged, hrule, hstored'⟩ := hupdate
    have hcontent := content_changed (r := r) hwindow htakes w.clock.text
    rw [← hrule] at hcontent
    refine .inr ⟨_, changed, u, u', hnew, hstored, hchanged, hstored',
      congrArg Rule.Content.name hcontent, congrArg Rule.Content.description hcontent, ?_⟩
    rw [content_stored hwindow, hcontent]

/-! ## Blanks around a name -/

/-- Tables with a rule on leaks, which has found one. -/
def leaked : World Tables := (Call.runAll {} Tables.storage leak (start .tables)).2

def stain : RuleValues where
  name := " Stain "
  description := "Water has come through."
  tree := .object [("join_operator", .text "or"), ("conditions", .list
    [.object [("observation_type_id", .text "a"), ("operator", .text "not_equals"),
      ("value", .text "no")]])]
  effectiveFrom := .text "2024-02-01"
  effectiveTo := .text ""
  isActive := false
  starts := by decide

def stainTree : Criteria :=
  ⟨.or, [.leaf { typeId := "a", operator := .notEquals, kind := .enum, value := .text "no" }]⟩

theorem changed_stain : ∃ new changed u u',
    (Rules.create Tables.storage stain.input).run leaked = (.ok new, u) ∧
    (Rules.update Tables.storage (.text "aa") stain.patch).run leaked = (.ok changed, u') ∧
    new.content = { changed.rule.content with
      name := .text "Stain", description := .text "Water has come through." } := by
  obtain ⟨as, hreached⟩ := reached_leak .tables
  have hrule : ((ruleAt tables leaked "aa").any fun r => fitsWord r.version) = true := by
    decide +kernel
  obtain ⟨r, hr, hversion⟩ := (Option.any_eq_true _ _).mp hrule
  have hread : Criteria.read stain.tree = .ok stainTree := by decide +kernel
  have hunordered : ∀ l ∈ stainTree.leaves, l.operator.isOrder = false := by decide
  have hcreated : ((Rules.create Tables.storage stain.input).run leaked).1.toBool = true := by
    decide +kernel
  rcases changed_as_created (b := tables) hreached.sound.toSteady hr hversion stain
      (fun tree htree y _ _ => by
        cases hread.symm.trans htree
        exact fun l hl hover =>
          Bool.false_ne_true ((hunordered l hl).symm.trans hover.byOrder)) with
    ⟨e, _, u, _, hcreate, -⟩ | ⟨new, changed, u, u', hcreate, -, hupdate, -, -, -, hcontent⟩
  · rw [show (Rules.create Tables.storage stain.input).run leaked = (.error e, u) from hcreate]
      at hcreated
    cases hcreated
  · refine ⟨new, changed, u, u', hcreate, hupdate, hcontent.trans ?_⟩
    have htrim : Text.trim stain.name = "Stain" ∧
        Text.trim stain.description = "Water has come through." := by
      decide +kernel
    rw [htrim.1, htrim.2]

/-- A changed rule keeps the blanks that a new one loses. -/
theorem changed_untrimmed : ∃ new changed u u',
    (Rules.create Tables.storage stain.input).run leaked = (.ok new, u) ∧
    (Rules.update Tables.storage (.text "aa") stain.patch).run leaked = (.ok changed, u') ∧
    new.content.name = .text "Stain" ∧ changed.rule.content.name = .text " Stain " := by
  have hcreate : ((Rules.create Tables.storage stain.input).run leaked).1.map Rule.name =
      .ok (.text "Stain") := by decide +kernel
  have hupdate : ((Rules.update Tables.storage (.text "aa") stain.patch).run leaked).1.map
      (·.rule.name) = .ok (.text " Stain ") := by decide +kernel
  obtain ⟨new, u, hnew, hname⟩ := Op.exists_of_answer hcreate
  obtain ⟨changed, u', hchanged, hname'⟩ := Op.exists_of_answer hupdate
  exact ⟨new, changed, u, u', hnew, hchanged, hname, hname'⟩

end Backing

end PropertyRisk
