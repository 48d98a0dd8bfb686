import PropertyRisk.Engine.Call
import PropertyRisk.Proofs.Contracts
import PropertyRisk.Proofs.Views
import PropertyRisk.Proofs.Windows

/-!
# What calls ask of their storage

`Call.Asks` says which requests a call may come to make. `Call.upheld`: where
these are allowed by a contract that the storage meets, the call keeps the
invariant of the contract, whatever it ends in.
-/

namespace PropertyRisk

open Op (Triple)
open Engine

/-- Whether a request comes with a time that is to be read. -/
def Request.isTimed : Request α → Bool
  | listRulesEffectiveAt _ | listVulnerabilitiesForProperty _ (some _) => true
  | _ => false

/-- A new rule as the checks leave it. -/
structure RuleDraft.IsChecked (d : RuleDraft) : Prop where
  tree : ∃ document, Criteria.read document = .ok d.tree
  window : Window.Written ⟨d.effectiveFrom, d.effectiveTo⟩

/-- A change of a rule as the checks leave it: it sets both ends of the window or
none. -/
structure RuleChange.IsChecked (change : RuleChange) : Prop where
  proper : ∃ tree, change.Proper tree ∧
    ∀ c, tree = some c → ∃ document, Criteria.read document = .ok c
  window : change.effectiveFrom = none ∧ change.effectiveTo = none ∨
    ∃ w : Window, w.Written ∧ change.effectiveFrom = some w.start ∧
      change.effectiveTo = some w.stop

/-- A vulnerability as it is opened: the time of detection is that of the clock. -/
structure VulnerabilityDraft.IsOpening (d : VulnerabilityDraft) : Prop where
  status : d.status = .text Status.opened.name
  detectedAt : ∃ stamp : Time.Stamp, d.detectedAt = .text stamp.text

/-- The time of detection is what the clock tells in a state that a contract allows. -/
def VulnerabilityDraft.IsDated (d : VulnerabilityDraft) (C : Contract σ) (g : Storage σ) : Prop :=
  ∃ s, ∃ stamp : Time.Stamp, C.inv s ∧ g.now.run s = (.ok stamp.text, s) ∧
    d.detectedAt = .text stamp.text

/-- The time of an assessment is the given one in its written form, or left to the store if none
is given. -/
def AssessmentDraft.IsDated (d : AssessmentDraft) (time : Value) : Prop :=
  (time.holds = false ∧ d.assessedAt = .text "") ∨
    ∃ stamp : Time.Stamp, requireStampValue time = .ok stamp ∧ d.assessedAt = .text stamp.text

/-- A tree that comes of a given document, if any, has been read from it. -/
theorem Criteria.document_of_mapM {document? : Option Value} {tree : Option Criteria}
    (h : document?.mapM Criteria.read = .ok tree) (c : Criteria) (hc : tree = some c) :
    ∃ document, document? = some document ∧ Criteria.read document = .ok c := by
  subst hc
  cases document? with
  | none => cases h
  | some document =>
    change some <$> Criteria.read document = _ at h
    cases hread : Criteria.read document <;> rw [hread] at h <;> cases h
    exact ⟨document, rfl, hread⟩

theorem Criteria.read_of_mapM {document? : Option Value} {tree : Option Criteria}
    (h : document?.mapM Criteria.read = .ok tree) (c : Criteria) (hc : tree = some c) :
    ∃ document, Criteria.read document = .ok c :=
  (document_of_mapM h c hc).imp fun _ hd => hd.2

/-- Whatever a tree refers to has been found in an answer: each type, and each value under no
other type than that of its leaf. -/
structure Contract.Finds (C : Contract σ) (tree : Criteria) : Prop where
  types : ∀ l ∈ tree.leaves, ∃ ids found, C.gives (.getObservationTypes ids) found ∧
    ∃ t ∈ found, t.id = .text l.typeId
  values : ∀ l ∈ tree.leaves, ∀ id ∈ l.valueIds.getD [], ∃ ids found,
    C.gives (.getObservationValues ids) found ∧
      ∃ v ∈ found, v.id = .text id ∧ Rules.isForeign v.typeId l.typeId = false

/-- A new rule that comes of what a caller gives, once all of it is checked. -/
structure Engine.RuleInput.Passes (input : RuleInput) (C : Contract σ) (d : RuleDraft) : Prop where
  name : ∃ s, Rules.requiredText input.name = .ok (some s) ∧ d.name = .text s
  description : ∃ s, Rules.requiredText input.description = .ok (some s) ∧ d.description = .text s
  window : ∃ start, Rules.checkWindow start input.effectiveTo =
    .ok (.ok ⟨d.effectiveFrom, d.effectiveTo⟩)
  tree : Criteria.read input.tree = .ok d.tree
  finds : C.Finds d.tree

theorem Engine.RuleInput.Passes.isChecked {input : RuleInput} {C : Contract σ} {d : RuleDraft}
    (h : input.Passes C d) : d.IsChecked :=
  ⟨⟨_, h.tree⟩, h.window.elim fun _ hw => Rules.written_of_checkWindow hw⟩

/-- A patch, once all of it is checked, with the window and the tree that it leads to. -/
structure Engine.RulePatch.Passes (patch : RulePatch) (C : Contract σ) (window : Option Window)
    (tree : Option Criteria) : Prop where
  labels : Rules.patchProblems patch = []
  window : ∀ w, window = some w → ∃ start stop, Rules.checkWindow start stop = .ok (.ok w)
  read : patch.tree.mapM Criteria.read = .ok tree
  finds : ∀ c, tree = some c → C.Finds c

/-- The window that a patch leads to from that of the rule which has been found. -/
def Engine.RulePatch.Leads (patch : RulePatch) (C : Contract σ) (id : Value)
    (window : Option Window) : Prop :=
  ∃ current, C.gives (.getRule id) (some current) ∧
    Rules.patchedWindow current patch = .ok (window.map .ok)

theorem Engine.RulePatch.Passes.isChecked {patch : RulePatch} {C : Contract σ}
    {window : Option Window} {tree : Option Criteria} (h : patch.Passes C window tree)
    (isActive : Option Bool) : (Rules.changeOf patch window tree isActive).IsChecked := by
  refine ⟨⟨tree, ⟨rfl, rfl, rfl, rfl⟩, Criteria.read_of_mapM h.read⟩, ?_⟩
  cases window with
  | none => exact .inl ⟨rfl, rfl⟩
  | some w =>
    obtain ⟨start, stop, hw⟩ := h.window w rfl
    exact .inr ⟨w, Rules.written_of_checkWindow hw, rfl, rfl⟩

namespace Engine

/-- An unresolved vulnerability is not found for want of a status that can be
looked up only. -/
theorem Vulnerabilities.fault_of_firstUnresolved {ruleId : Value} {xs : List Vulnerability}
    {e : Error} (h : firstUnresolved ruleId xs = .error e) : ∃ f, e = .fault f := by
  induction xs with
  | nil => cases h
  | cons x rest ih =>
    unfold firstUnresolved at h
    split at h
    · split at h
      · rename_i he
        cases h
        unfold Vulnerability.isUnresolved at he
        split at he <;> cases he <;> exact ⟨_, rfl⟩
      · cases h
      · exact ih h
    · exact ih h

variable {C : Contract σ} {g : Storage σ} {s : σ}

/-! ## Parts of calls that refuse nothing -/

section

variable (hg : g.Meets C)
  (hread : ∀ {α} {r : Request α}, r.isRead → r.isTimed = false → C.may r)
include hg

theorem upheld_judge (tree : Criteria) (os : List Observation) (h : C.inv s) :
    C.Upheld (judge tree os) s :=
  .orElse (fun _ => hg.overflow _) h

include hread

theorem upheld_observationsOf (id : Value) (h : C.inv s) : C.Upheld (observationsOf g id) s := by
  refine (hg.upheld (hread rfl rfl) h).bind fun found t h => ?_
  cases found <;> exact .pure h

/-- A rule that is looked for, whether or not the storage fails. -/
theorem triple_attempt_getRule (id : Value) (h : C.inv s) :
    Triple (Op.attempt (g.perform (.getRule id))) s
      (fun found t => (∀ rule, found = .ok (some rule) → C.gives (.getRule id) (some rule)) ∧
        C.inv t)
      (fun e t => C.errs e t ∧ C.inv t) := by
  refine Triple.attempt ((hg.perform (hread rfl rfl) h).mono ?_ ?_)
  · rintro found t ⟨hfound, h⟩
    refine ⟨fun rule hr => ?_, h⟩
    cases hr
    exact hfound
  · exact fun e t h => ⟨fun _ _ => ⟨nofun, h.2⟩, h⟩

namespace Rules

omit hread in
theorem upheld_discard {x : Vulnerability} (hdelete : C.may (.deleteVulnerability x.id))
    (h : C.inv s) : C.Upheld (discard g x) s := by
  refine (hg.upheld hdelete h).attempt.bind fun found t h => ?_
  rcases found with _ | _ | _ <;> exact .pure h

theorem upheld_reconcile (tree : Criteria) {x : Vulnerability}
    (hdelete : C.may (.deleteVulnerability x.id)) (h : C.inv s) :
    C.Upheld (reconcile g tree x) s := by
  refine (upheld_observationsOf hg hread _ h).attempt.bind fun found t h => ?_
  cases found with
  | error failure => exact .pure h
  | ok observations =>
    simp only
    split
    · exact .pure h
    · refine (upheld_judge hg tree observations h).bind fun triggers t h => ?_
      cases triggers
      · exact upheld_discard hg hdelete h
      · exact .pure h

theorem upheld_reconcileAll (tree : Criteria) (xs : List Vulnerability)
    (hdelete : ∀ x ∈ xs, C.may (.deleteVulnerability x.id)) (h : C.inv s) :
    C.Upheld (reconcileAll g tree xs) s := by
  induction xs generalizing s with
  | nil => exact .pure h
  | cons x rest ih =>
    obtain ⟨hx, hrest⟩ := List.forall_mem_cons.mp hdelete
    exact (upheld_reconcile hg hread tree hx h).bind fun _ _ h => (ih hrest h).bind fun _ _ h =>
      .pure h

end Rules

namespace Vulnerabilities

omit hread in
theorem upheld_discard {x : Vulnerability} (hdelete : C.may (.deleteVulnerability x.id))
    (h : C.inv s) : C.Upheld (discard g x) s := by
  refine (hg.upheld hdelete h).attempt.bind fun found t h => ?_
  rcases found with _ | _ | _ <;> exact .pure h

theorem upheld_rejudge (rule : Rule) {x : Vulnerability}
    (hdelete : C.may (.deleteVulnerability x.id)) (h : C.inv s) :
    C.Upheld (rejudge g rule x) s := by
  refine (upheld_observationsOf hg hread _ h).attempt.bind fun found t h => ?_
  cases found with
  | error failure => exact .pure h
  | ok observations =>
    simp only
    split
    · exact .pure h
    · refine (upheld_judge hg rule.tree observations h).bind fun triggers t h => ?_
      cases triggers
      · exact upheld_discard hg hdelete h
      · exact .pure h

/-- A vulnerability is deleted only if its rule has been found. -/
theorem upheld_reexamine (x : Vulnerability) (hdelete : ∀ rule,
      C.gives (.getRule x.ruleId) (some rule) → C.may (.deleteVulnerability x.id))
    (h : C.inv s) : C.Upheld (reexamine g x) s := by
  refine (triple_attempt_getRule hg hread x.ruleId h).bind ?_
  rintro (failure | _ | rule) t ⟨hgives, h⟩
  · exact Contract.Upheld.pure h
  · exact Contract.Upheld.pure h
  · exact upheld_rejudge hg hread rule (hdelete rule (hgives rule rfl)) h

theorem upheld_reexamineAll (xs : List Vulnerability) (hdelete : ∀ x ∈ xs, ∀ rule,
      C.gives (.getRule x.ruleId) (some rule) → C.may (.deleteVulnerability x.id))
    (h : C.inv s) : C.Upheld (reexamineAll g xs) s := by
  induction xs generalizing s with
  | nil => exact .pure h
  | cons x rest ih =>
    obtain ⟨hx, hrest⟩ := List.forall_mem_cons.mp hdelete
    exact (upheld_reexamine hg hread x hx h).bind fun _ _ h => (ih hrest h).bind fun _ _ h =>
      .pure h

theorem upheld_reevaluate (p : Value) (hdelete : ∀ xs,
      C.gives (.listVulnerabilitiesForProperty p none) xs → ∀ x ∈ xs, ∀ rule,
        C.gives (.getRule x.ruleId) (some rule) → C.may (.deleteVulnerability x.id))
    (h : C.inv s) : C.Upheld (reevaluate g p) s :=
  (hg.perform (hread rfl rfl) h).bind fun xs _ h =>
    (upheld_reexamineAll hg hread xs (hdelete xs h.1) h.2).bind fun _ _ h => Triple.pure h

end Vulnerabilities

namespace Vulnerabilities

omit hread in
theorem upheld_create
    (hcreate : ∀ d, d.IsOpening → d.IsDated C g → C.may (.createVulnerability d))
    (ruleId assessmentId p mitigationTypeId : Value) (h : C.inv s) :
    C.Upheld (create g ruleId assessmentId p mitigationTypeId) s := by
  obtain ⟨stamp, hnow⟩ := hg.now s
  exact Triple.bind_run hnow (hg.upheld (hcreate _ ⟨rfl, stamp, rfl⟩ ⟨s, stamp, h, hnow, rfl⟩) h)

theorem upheld_findUnresolved (hfault : ∀ f s, C.errs (.fault f) s) (ruleId p : Value)
    (h : C.inv s) : C.Upheld (findUnresolved g ruleId p) s := by
  refine Contract.Upheld.bind (hg.upheld (hread rfl rfl) h) fun xs t h => ?_
  refine .ofExcept (fun e he => ?_) h
  obtain ⟨f, rfl⟩ := fault_of_firstUnresolved he
  exact hfault f t

end Vulnerabilities

namespace Assessments

theorem upheld_open (hfault : ∀ f s, C.errs (.fault f) s)
    (hcreate : ∀ d, d.IsOpening → d.IsDated C g → C.may (.createVulnerability d)) (dedupe : Bool)
    (a : Assessment) (rule : Rule) (h : C.inv s) : C.Upheld (open_ g dedupe a rule) s := by
  have hrest (existing : Option Vulnerability) (t : σ) (h : C.inv t) : C.Upheld
      (if existing.isSome then pure none
        else do return some (← Vulnerabilities.create g rule.id a.id a.propertyId .null)) t := by
    split
    · exact .pure h
    · exact (Vulnerabilities.upheld_create hg hcreate _ _ _ _ h).bind fun _ _ h => .pure h
  unfold open_
  split
  · exact (Vulnerabilities.upheld_findUnresolved hg hread hfault _ _ h).bind fun existing t h =>
      hrest existing t h
  · exact hrest none s h

section

variable {dedupe : Bool} {a : Assessment} {time : Option String}
  (hopen : ∀ {id rule s}, C.gives (.getRule id) (some rule) → C.inv s →
    C.Upheld (open_ g dedupe a rule) s)
  (htakes : ∀ {id rule e s}, C.gives (.getRule id) (some rule) →
    takesPart time rule = .error e → C.errs e s)
include hopen htakes

theorem upheld_examine (candidate : Rule) (h : C.inv s) :
    C.Upheld (examine g dedupe a time candidate) s := by
  refine (triple_attempt_getRule hg hread candidate.id h).bind ?_
  rintro (failure | _ | rule) t ⟨hgives, h⟩
  · exact Contract.Upheld.pure h
  · exact Contract.Upheld.pure h
  refine Contract.Upheld.bind
    (.ofExcept (fun e he => htakes (hgives rule rfl) he) h) fun takes t h => ?_
  split
  · refine Contract.Upheld.bind (upheld_judge hg rule.tree a.observations h) fun triggers t h => ?_
    cases triggers with
    | false => exact .pure h
    | true =>
      refine (hopen (hgives rule rfl) h).attempt.bind fun found t h => ?_
      rcases found with _ | _ | _ <;> exact .pure h
  · exact .pure h

theorem upheld_examineAll (candidates : List Rule) (h : C.inv s) :
    C.Upheld (examineAll g dedupe a time candidates) s := by
  induction candidates generalizing s with
  | nil => exact .pure h
  | cons candidate rest ih =>
    exact (upheld_examine hg hread hopen htakes candidate h).bind fun _ _ h =>
      (ih h).bind fun _ _ h => .pure h

end

end Assessments

end

/-! ## Parts of calls that may be refused -/

section

variable (hg : g.Meets C) (hall : ∀ e s, C.errs e s)
  (hread : ∀ {α} {r : Request α}, r.isRead → C.may r)
include hg hall hread

namespace Rules

theorem triple_get (id : Value) (h : C.inv s) :
    Triple (get g id) s (fun r t => C.gives (.getRule id) (some r) ∧ C.inv t)
      (fun e t => C.errs e t ∧ C.inv t) := by
  refine (hg.perform (hread rfl) h).bind ?_
  rintro (_ | r) t ⟨hfound, h⟩
  · exact Triple.throw ⟨hall _ _, h⟩
  · exact Triple.pure ⟨hfound, h⟩

theorem upheld_get (id : Value) (h : C.inv s) : C.Upheld (get g id) s :=
  (triple_get hg hall hread id h).mono (fun _ _ ht => ht.2) fun _ _ ht => ht

omit hg hall hread in
theorem mem_of_missing_eq_nil {asked : List String} {found : List Value} {id : String}
    (h : missing asked found = []) (hid : id ∈ asked) : .text id ∈ found := by
  simpa using List.filter_eq_nil_iff.mp h id hid

omit hall in
/-- Where the types of leaves are no problem, each has been found. -/
theorem triple_typeProblems (leaves : List Leaf) (h : C.inv s) :
    Triple (typeProblems g leaves) s
      (fun problems t => (problems = [] → ∀ l ∈ leaves, ∃ ids found,
        C.gives (.getObservationTypes ids) found ∧ ∃ t ∈ found, t.id = .text l.typeId) ∧ C.inv t)
      (fun e t => C.errs e t ∧ C.inv t) := by
  have hasked (l : Leaf) (hl : l ∈ leaves) : l.typeId ∈ distinctSorted (leaves.map Leaf.typeId) :=
    mem_distinctSorted.mpr (List.mem_map_of_mem hl)
  unfold typeProblems
  simp only
  split
  case isTrue hnone =>
    refine Triple.pure ⟨fun _ l hl => ?_, h⟩
    rw [List.isEmpty_iff.mp hnone] at hasked
    exact absurd (hasked l hl) List.not_mem_nil
  case isFalse =>
    refine (hg.perform (hread rfl) h).bind ?_
    rintro found t ⟨hfound, h⟩
    refine Triple.pure ⟨fun hno l hl => ⟨_, found, hfound, ?_⟩, h⟩
    have hmissing : missing (distinctSorted (leaves.map Leaf.typeId))
        (found.map ObservationType.id) = [] := by
      simpa [missingTypes] using hno
    simpa using mem_of_missing_eq_nil hmissing (hasked l hl)

omit hall in
/-- Where the values of leaves are no problem, each has been found, and none under another type. -/
theorem triple_valueProblems (leaves : List Leaf) (h : C.inv s) :
    Triple (valueProblems g leaves) s
      (fun problems t => (problems = [] → ∀ l ∈ leaves, ∀ id ∈ l.valueIds.getD [], ∃ ids found,
        C.gives (.getObservationValues ids) found ∧
          ∃ v ∈ found, v.id = .text id ∧ isForeign v.typeId l.typeId = false) ∧ C.inv t)
      (fun e t => C.errs e t ∧ C.inv t) := by
  have hasked (l : Leaf) (hl : l ∈ leaves) (id : String) (hid : id ∈ l.valueIds.getD []) :
      id ∈ distinctSorted (valueIdsOf leaves) :=
    mem_distinctSorted.mpr (List.mem_flatMap.mpr ⟨l, hl, hid⟩)
  unfold valueProblems
  simp only
  split
  case isTrue hnone =>
    refine Triple.pure ⟨fun _ l hl id hid => ?_, h⟩
    rw [List.isEmpty_iff.mp hnone] at hasked
    exact absurd (hasked l hl id hid) List.not_mem_nil
  case isFalse =>
    refine (hg.perform (hread rfl) h).bind ?_
    rintro found t ⟨hfound, h⟩
    refine Triple.pure ⟨fun hno l hl id hid => ⟨_, found, hfound, ?_⟩, h⟩
    obtain ⟨hmissing, hforeign⟩ := List.append_eq_nil_iff.mp hno
    have hmissing : missing (distinctSorted (valueIdsOf leaves))
        (found.map ObservationValue.id) = [] := by
      simpa [missingValues] using hmissing
    have hmem := mem_of_missing_eq_nil hmissing (hasked l hl id hid)
    -- the first value with the id is the one that is compared
    have hsome : (found.find? (·.id = .text id)).isSome := by
      simpa [List.find?_isSome] using hmem
    obtain ⟨v, hv⟩ := Option.isSome_iff_exists.mp hsome
    refine ⟨v, List.mem_of_find?_eq_some hv, by simpa using List.find?_some hv, ?_⟩
    have hno := List.filterMap_eq_nil_iff.mp (List.flatMap_eq_nil_iff.mp hforeign l hl) id hid
    rw [hv] at hno
    simpa using hno

omit hall in
/-- A checked tree has been read from a document, and all that it refers to has been found. -/
theorem triple_checkTree_of_meets (hinvalid : ∀ i s, C.errs (.invalid i) s) (document : Value)
    (h : C.inv s) :
    Triple (checkTree g document) s
      (fun tree t => (Criteria.read document = .ok tree ∧ C.Finds tree) ∧ C.inv t)
      (fun e t => C.errs e t ∧ C.inv t) := by
  refine (Triple.orElse (Q := fun tree t => Criteria.read document = .ok tree ∧ C.inv t)
    (fun tree ht => ⟨ht, h⟩) fun _ _ => ⟨hinvalid _ _, h⟩).bind ?_
  rintro tree t ⟨htree, h⟩
  refine (triple_typeProblems hg hread tree.leaves h).bind ?_
  rintro types t ⟨htypes, h⟩
  refine (triple_valueProblems hg hread tree.leaves h).bind ?_
  rintro values t ⟨hvalues, h⟩
  split
  case h_1 hno =>
    obtain ⟨ht, hv⟩ := List.append_eq_nil_iff.mp hno
    exact Triple.pure ⟨⟨htree, htypes ht, hvalues hv⟩, h⟩
  case h_2 => exact Triple.throw ⟨hinvalid _ _, h⟩

theorem upheld_checkTree (document : Value) (h : C.inv s) : C.Upheld (checkTree g document) s :=
  (triple_checkTree_of_meets hg hread (fun _ _ => hall _ _) document h).mono (fun _ _ ht => ht.2)
    fun _ _ ht => ht

omit hall in
theorem upheld_wouldRemove (tree : Criteria) (x : Vulnerability) (h : C.inv s) :
    C.Upheld (wouldRemove g tree x) s := by
  refine (upheld_observationsOf hg (fun hr _ => hread hr) _ h).bind fun observations t h => ?_
  split
  · exact .pure h
  · exact (upheld_judge hg tree observations h).bind fun _ _ h => .pure h

theorem upheld_preview (id document : Value) (h : C.inv s) : C.Upheld (preview g id document) s := by
  refine (upheld_get hg hall hread id h).bind fun _ t h => ?_
  refine (Contract.Upheld.orElse (fun _ => hall _ _) h).bind fun tree t h => ?_
  refine (hg.upheld (hread rfl) h).bind fun xs t h => ?_
  exact (Contract.Upheld.mapM (fun x t h => upheld_wouldRemove hg hread tree x h) xs h).bind
    fun _ _ h => .pure h

theorem upheld_namesIn (tree : Criteria) (h : C.inv s) : C.Upheld (namesIn g tree) s := by
  unfold namesIn
  refine .ite (.bind (.pure h) fun types t h => ?_)
    (.bind (hg.upheld (hread rfl) h) fun types t h => ?_)
  all_goals
    refine .ite (.bind (.pure h) fun values t h => ?_)
      (.bind (hg.upheld (hread rfl) h) fun values t h => ?_)
    all_goals exact .bind (.ofExcept (fun _ _ => hall _ _) h) fun _ _ h => .pure h

theorem upheld_render (id : Value) (h : C.inv s) : C.Upheld (render g id) s :=
  (upheld_get hg hall hread id h).bind fun _ _ h =>
    (upheld_namesIn hg hall hread _ h).bind fun _ _ h => .pure h

theorem upheld_createRule (input : RuleInput)
    (hcreate : ∀ d, input.Passes C d → C.may (.createRule d)) (h : C.inv s) :
    C.Upheld (create g input) s := by
  unfold create
  refine Triple.bind_ofExcept (fun _ => ⟨hall _ _, h⟩) fun name hname => ?_
  refine Triple.bind_ofExcept (fun _ => ⟨hall _ _, h⟩) fun description hdescription => ?_
  obtain ⟨stamp, hnow⟩ := hg.now s
  refine Triple.bind_run hnow (Triple.bind_ofExcept (fun _ => ⟨hall _ _, h⟩) fun window hwindow => ?_)
  split
  · refine (triple_checkTree_of_meets hg hread (fun _ _ => hall _ _) input.tree h).bind ?_
    rintro tree t ⟨⟨htree, hfinds⟩, h⟩
    exact hg.upheld (hcreate _ ⟨⟨_, hname, rfl⟩, ⟨_, hdescription, rfl⟩, ⟨_, hwindow⟩, htree, hfinds⟩) h
  · exact Contract.Upheld.throw (hall _ _) h

omit hall in
/-- A tree that a patch sets has been read from a document, too. -/
theorem triple_checkTrees_of_meets (hinvalid : ∀ i s, C.errs (.invalid i) s)
    (document : Option Value) (h : C.inv s) :
    Triple (document.mapM (checkTree g)) s
      (fun tree t => (document.mapM Criteria.read = .ok tree ∧ ∀ c, tree = some c → C.Finds c) ∧
        C.inv t)
      (fun e t => C.errs e t ∧ C.inv t) := by
  cases document with
  | none => exact Triple.pure ⟨⟨rfl, nofun⟩, h⟩
  | some document =>
    refine Triple.map some ((triple_checkTree_of_meets hg hread hinvalid document h).mono ?_
      fun _ _ ht => ht)
    rintro tree t ⟨⟨htree, hfinds⟩, h⟩
    refine ⟨⟨?_, fun c hc => Option.some.inj hc ▸ hfinds⟩, h⟩
    show some <$> Criteria.read document = _
    rw [htree]
    rfl

section

variable (id : Value) (patch : RulePatch) (hdelete : ∀ r xs, C.gives (.getRule id) (some r) →
    C.gives (.listVulnerabilitiesForRule id) xs → ∀ x ∈ xs, C.may (.deleteVulnerability x.id))
  (hupdate : ∀ {window tree} isActive expected, patch.Passes C window tree →
    patch.Leads C id window → C.may (.updateRule id (changeOf patch window tree isActive) expected))
include hdelete hupdate

theorem upheld_apply {current : Rule} {window : Option Window} {isActive : Option Bool}
    (hcurrent : C.gives (.getRule id) (some current)) (hlabels : patchProblems patch = [])
    (hwindow : patchedWindow current patch = .ok (window.map .ok)) (h : C.inv s) :
    C.Upheld (apply g current id patch window isActive) s := by
  refine (triple_checkTrees_of_meets hg hread (fun _ _ => hall _ _) patch.tree h).bind ?_
  rintro tree t ⟨⟨htree, hfinds⟩, h⟩
  refine (hg.perform (hread rfl) h).bind ?_
  rintro xs t ⟨hxs, h⟩
  refine Triple.bind (upheld_reconcileAll hg (fun hr _ => hread hr) _ xs
    (hdelete current xs hcurrent hxs) h) fun outcomes t h => ?_
  have hchecked (w : Window) (hw : window = some w) : ∃ start stop,
      checkWindow start stop = .ok (.ok w) :=
    ⟨_, _, patchedWindow_eq_some (hw ▸ hwindow)⟩
  refine Triple.bind (hg.upheld (hupdate _ _ ⟨hlabels, hchecked, htree, hfinds⟩
    ⟨current, hcurrent, hwindow⟩) h) fun answer t h => ?_
  cases answer
  · exact Contract.Upheld.throw (hall _ _) h
  · exact Contract.Upheld.pure h

theorem upheld_update (h : C.inv s) : C.Upheld (update g id patch) s := by
  unfold update
  split
  · exact .throw (hall _ _) h
  refine (Contract.Upheld.ofExcept (fun _ _ => hall _ _) h).bind fun _ t h => ?_
  refine (triple_get hg hall hread id h).bind ?_
  rintro current t ⟨hcurrent, h⟩
  refine Triple.bind_ofExcept (fun _ => ⟨hall _ _, h⟩) fun window hwindow => ?_
  split
  · exact upheld_apply hg hall hread id patch hdelete hupdate hcurrent ‹_› hwindow h
  · exact upheld_apply hg hall hread id patch hdelete hupdate hcurrent ‹_› hwindow h
  · exact Contract.Upheld.throw (hall _ _) h

end

theorem upheld_delete (id : Value) (hdelete : C.may (.deleteRule id)) (h : C.inv s) :
    C.Upheld (delete g id) s := by
  refine (Contract.Upheld.ofExcept (fun _ _ => hall _ _) h).bind fun _ t h => ?_
  refine (hg.upheld (hread rfl) h).bind fun _ t h => ?_
  refine (hg.upheld hdelete h).bind fun deleted t h => ?_
  split
  · exact .pure h
  · exact .throw (hall _ _) h

end Rules

namespace Vulnerabilities

theorem upheld_get (id : Value) (h : C.inv s) : C.Upheld (get g id) s := by
  refine (hg.upheld (hread rfl) h).bind fun found t h => ?_
  cases found
  · exact .throw (hall _ _) h
  · exact .pure h

theorem upheld_mitigationOptions (id : Value) (h : C.inv s) :
    C.Upheld (mitigationOptions g id) s := by
  refine (upheld_get hg hall hread id h).bind fun x t h => ?_
  split
  · refine (hg.upheld (hread rfl) h).bind fun found t h => ?_
    cases found with
    | none => exact .pure h
    | some type => exact (hg.upheld (hread rfl) h).bind fun _ _ h => .pure h
  · exact .pure h

theorem upheld_evaluate (id : Value) (h : C.inv s) : C.Upheld (evaluate g id) s := by
  refine (upheld_get hg hall hread id h).bind fun x t h => ?_
  refine (hg.upheld (hread rfl) h).bind fun found t h => ?_
  cases found with
  | none => exact .pure h
  | some rule =>
    exact (upheld_observationsOf hg (fun hr _ => hread hr) _ h).bind fun _ _ h =>
      upheld_judge hg _ _ h

section

variable (id : Value)

omit hread in
theorem upheld_change {change : VulnerabilityChange} (hupdate : C.may (.updateVulnerability id change))
    (h : C.inv s) : C.Upheld (Vulnerabilities.change g id change) s := by
  refine (hg.upheld hupdate h).bind fun found t h => ?_
  cases found
  · exact .throw (hall _ _) h
  · exact .pure h

theorem upheld_assignMitigationType (hupdate : ∀ change, change.IsWorkflow →
      change.createdAt = none → change.status = none → C.may (.updateVulnerability id change))
    (typeId : Value) (h : C.inv s) : C.Upheld (assignMitigationType g id typeId) s := by
  refine (hg.upheld (hread rfl) h).bind fun found t h => ?_
  cases found with
  | none => exact .throw (hall _ _) h
  | some type =>
    obtain ⟨stamp, hnow⟩ := hg.now t
    exact Triple.bind_run hnow
      (upheld_change hg hall id (hupdate _ ⟨rfl, rfl, rfl, rfl, rfl, nofun, rfl⟩ rfl rfl) h)

omit hread in
theorem upheld_applyMitigation (hupdate : ∀ change, change.IsWorkflow →
      change.createdAt = none → change.status = some (.text Status.inReview.name) →
      C.may (.updateVulnerability id change))
    (valueId description : Value) (h : C.inv s) :
    C.Upheld (applyMitigation g id valueId description) s := by
  obtain ⟨stamp, hnow⟩ := hg.now s
  refine Triple.bind_run hnow (upheld_change hg hall id (hupdate _ ⟨rfl, rfl, rfl, rfl, rfl, ?_, rfl⟩
    rfl rfl) h)
  intro x hx
  cases hx
  exact ⟨_, rfl⟩

theorem upheld_updateStatus (status : Value) (hupdate : ∀ change, change.IsWorkflow →
      change.createdAt = none →
      (∃ st : Status, status.plain = st.name ∧ change.status = some (.text st.name)) →
      C.may (.updateVulnerability id change)) (enforced : Bool) (notes : Value) (h : C.inv s) :
    C.Upheld (updateStatus g enforced id status notes) s := by
  unfold updateStatus
  simp only
  split
  · exact .throw (hall _ _) h
  rename_i hknown
  refine (upheld_get hg hall hread id h).bind fun current t h => ?_
  refine (Contract.Upheld.ofExcept (fun _ _ => hall _ _) h).bind fun backwards t h => ?_
  split
  · exact .throw (hall _ _) h
  obtain ⟨stamp, hnow⟩ := hg.now t
  refine Triple.bind_run hnow ((upheld_change hg hall id
    (hupdate _ ⟨rfl, rfl, rfl, rfl, rfl, ?_, rfl⟩ rfl ?_) h).bind fun _ _ h => .pure h)
  · intro x hx
    cases hx
    exact ⟨_, rfl⟩
  · obtain ⟨st, hst⟩ := Option.ne_none_iff_exists'.mp (by simpa using hknown)
    have hname : status.plain = st.name := by simpa [eq_comm] using List.find?_some hst
    exact ⟨st, hname, by rw [hname]⟩

end

end Vulnerabilities

namespace Assessments

theorem upheld_get (id : Value) (h : C.inv s) : C.Upheld (get g id) s := by
  refine (hg.upheld (hread rfl) h).bind fun found t h => ?_
  cases found
  · exact .throw (hall _ _) h
  · exact .pure h

omit hread in
theorem upheld_recordDraft {os : List Observation} {time : Value}
    (hcreate : ∀ d, d.observations = os → d.IsDated time → C.may (.createAssessment d))
    (p : Value) (h : C.inv s) : C.Upheld (recordDraft g p os time) s := by
  unfold recordDraft
  split
  · refine Triple.bind_ofExcept (fun _ => ⟨hall _ _, h⟩) fun stamp hstamp => ?_
    exact hg.upheld (hcreate _ rfl (.inr ⟨stamp, hstamp, rfl⟩)) h
  · rename_i hnone
    exact hg.upheld (hcreate _ rfl (.inl ⟨by simpa using hnone, rfl⟩)) h

omit hread in
theorem upheld_record {observations time : Value}
    (hcreate : ∀ d, readObservationList observations = .ok d.observations → d.IsDated time →
      C.may (.createAssessment d)) (p : Value) (h : C.inv s) :
    C.Upheld (record g p observations time) s :=
  Triple.bind_ofExcept (fun _ => ⟨hall _ _, h⟩) fun _ hos =>
    upheld_recordDraft hg hall (fun d hd => hcreate d (by rw [hd, hos])) p h

theorem upheld_resolve {source : AssessmentSource}
    (hcreate : ∀ draft d, source = .draft draft → d.observations = draft.observations →
      d.IsDated draft.assessedAt → C.may (.createAssessment d)) (h : C.inv s) :
    C.Upheld (resolve g source) s := by
  cases source with
  | stored id => exact upheld_get hg hall hread id h
  | record a => exact .pure h
  | draft d => exact upheld_recordDraft hg hall (fun d' hd => hcreate d d' rfl hd) _ h

section

variable (source : AssessmentSource) {dedupe : Bool}
  (hcreate : ∀ draft d, source = .draft draft → d.observations = draft.observations →
    d.IsDated draft.assessedAt → C.may (.createAssessment d))
  (hopen : ∀ {id rule a s}, C.gives (.getRule id) (some rule) → C.inv s →
    C.Upheld (open_ g dedupe a rule) s)
include hcreate hopen

theorem upheld_process (h : C.inv s) : C.Upheld (process g dedupe source) s := by
  refine (upheld_resolve hg hall hread hcreate h).bind fun a t h => ?_
  refine (hg.upheld (hread rfl) h).bind fun candidates t h => ?_
  exact (upheld_examineAll hg (fun hr _ => hread hr) hopen (fun _ _ => hall _ _) candidates h).bind
    fun _ _ h => .pure h

theorem upheld_processAt (time : Value) (h : C.inv s) :
    C.Upheld (processAt g dedupe source time) s := by
  refine (upheld_resolve hg hall hread hcreate h).bind fun a t h => ?_
  simp only
  split
  · exact .throw (hall _ _) h
  refine (Contract.Upheld.ofExcept (fun _ _ => hall _ _) h).bind fun stamp t h => ?_
  refine (hg.upheld (hread rfl) h).bind fun candidates t h => ?_
  exact (upheld_examineAll hg (fun hr _ => hread hr) hopen (fun _ _ => hall _ _) candidates h).bind
    fun _ _ h => .pure h

end

theorem upheld_stateAt (p time : Value) (h : C.inv s) : C.Upheld (stateAt g p time) s :=
  (Contract.Upheld.ofExcept (fun _ _ => hall _ _) h).bind fun _ _ h =>
    (hg.upheld (hread rfl) h).bind fun _ _ h => .pure h

end Assessments

namespace Catalogs

omit hread in
theorem upheld_createObservationType
    (hwrite : ∀ d, d.id = .null → C.may (.createObservationType d))
    (name kind description multiple : Value) (h : C.inv s) :
    C.Upheld (createObservationType g name kind description multiple) s :=
  (Contract.Upheld.ofExcept (fun _ _ => hall _ _) h).bind fun _ _ h => hg.upheld (hwrite _ rfl) h

/-- A value is added only under a type that has been found. -/
theorem upheld_createObservationValue (typeId : Value)
    (hwrite : ∀ d found, d.id = .null → d.typeId = typeId →
      C.gives (.getObservationTypes [typeId]) found → found ≠ [] → C.may (.createObservationValue d))
    (value description : Value) (h : C.inv s) :
    C.Upheld (createObservationValue g typeId value description) s := by
  refine (hg.perform (hread rfl) h).bind ?_
  rintro found t ⟨hfound, h⟩
  split
  case isTrue => exact Triple.throw ⟨hall _ _, h⟩
  case isFalse hne =>
    exact hg.upheld (hwrite _ found rfl rfl hfound (by simpa using hne)) h

theorem upheld_createMitigationValue
    (hwrite : ∀ d, d.id = .null → C.may (.createMitigationValue d))
    (typeId value description category : Value) (h : C.inv s) :
    C.Upheld (createMitigationValue g typeId value description category) s := by
  refine (hg.upheld (hread rfl) h).bind fun found t h => ?_
  cases found with
  | none => exact .throw (hall _ _) h
  | some type =>
    exact (Contract.Upheld.ofExcept (fun _ _ => hall _ _) h).bind fun _ _ h =>
      hg.upheld (hwrite _ rfl) h

end Catalogs

end

/-! ## Calls -/

namespace Call

/-- Whether a call opens vulnerabilities. -/
def isOpening : Call → Bool
  | createVulnerability .. | process _ | processAt .. => true
  | _ => false

/-- Whether a call judges again what was found before. -/
def isRejudging : Call → Bool
  | updateRule .. | reevaluateProperty _ => true
  | _ => false

/-- Whether a call adds to a catalog. -/
def isFiling : Call → Bool
  | createObservationType .. | createObservationValue .. | createMitigationType ..
  | createMitigationValue .. => true
  | _ => false

/-- The change that a call may make of a vulnerability. -/
def Moves (id : Value) (change : VulnerabilityChange) : Call → Prop
  | assignMitigationType id' _ => id' = id ∧ change.status = none
  | applyMitigation id' .. => id' = id ∧ change.status = some (.text Status.inReview.name)
  | updateStatus id' status _ => id' = id ∧
      ∃ st : Status, status.plain = st.name ∧ change.status = some (.text st.name)
  | _ => False

/-- The assessment that a call may record. -/
def Records (d : AssessmentDraft) : Call → Prop
  | recordAssessment _ observations _ => readObservationList observations = .ok d.observations
  | process (.draft draft) | processAt (.draft draft) _ => d.observations = draft.observations
  | _ => False

/-- Whether a call is to record an assessment of this time. -/
def Assesses (time : Value) : Call → Prop
  | recordAssessment _ _ given => given = time
  | process (.draft draft) | processAt (.draft draft) _ => draft.assessedAt = time
  | _ => False

/-- The requests that a call may come to make. -/
def Asks (c : Call) : {α : Type} → Request α → Prop
  | _, .createRule d => (∃ input, c = .createRule input) ∧ d.IsChecked
  | _, .updateRule id change _ => (∃ patch, c = .updateRule id patch) ∧ change.IsChecked
  | _, .deleteRule id => c = .deleteRule id
  | _, .createVulnerability d => c.isOpening ∧ d.IsOpening
  | _, .updateVulnerability id change => c.Moves id change ∧ change.IsWorkflow
  | _, .deleteVulnerability _ => c.isRejudging
  | _, .createAssessment d => c.Records d
  | _, r => r.isCatalogWrite → c.isFiling

theorem asks_of_isRead (c : Call) {r : Request α} (hr : r.isRead) : c.Asks r := by
  cases r <;> first
    | exact absurd hr Bool.false_ne_true
    | exact fun h => absurd h Bool.false_ne_true

theorem asks_of_isCatalogWrite {c : Call} (hc : c.isFiling) {r : Request α}
    (hr : r.isCatalogWrite) : c.Asks r := by
  cases r <;> first
    | exact absurd hr Bool.false_ne_true
    | exact fun _ => hc

/-- What a call may come to delete: a vulnerability that is listed for the rule it changes,
which has been found, or one that is listed for the property it judges again and whose rule
has been found. -/
def Condemns (C : Contract σ) (x : Vulnerability) : Call → Prop
  | updateRule id _ => (∃ r, C.gives (.getRule id) (some r)) ∧
      ∃ xs, C.gives (.listVulnerabilitiesForRule id) xs ∧ x ∈ xs
  | reevaluateProperty p =>
      (∃ xs, C.gives (.listVulnerabilitiesForProperty p none) xs ∧ x ∈ xs) ∧
        ∃ r, C.gives (.getRule x.ruleId) (some r)
  | _ => False

/-- What more is known of a request that a call makes, by what the storage has given. -/
def Means (C : Contract σ) (c : Call) : {α : Type} → Request α → Prop
  | _, .updateVulnerability _ change => change.createdAt = none
  | _, .deleteVulnerability id => ∃ x, x.id = id ∧ c.Condemns C x
  | _, .createObservationType d => d.id = .null
  | _, .createObservationValue d => d.id = .null
  | _, .createMitigationType d => d.id = .null
  | _, .createMitigationValue d => d.id = .null
  | _, _ => True

theorem means_of_isRead (C : Contract σ) (c : Call) {r : Request α} (hr : r.isRead) :
    c.Means C r := by
  cases r <;> first
    | exact absurd hr Bool.false_ne_true
    | exact trivial

/-- How a call comes by the times in what it asks to be written. -/
def Dates (C : Contract σ) (g : Storage σ) (c : Call) : {α : Type} → Request α → Prop
  | _, .createRule d => ∃ start stop,
      Rules.checkWindow start stop = .ok (.ok ⟨d.effectiveFrom, d.effectiveTo⟩)
  | _, .updateRule id change _ => ∃ patch window, c = .updateRule id patch ∧
      patch.Leads C id window ∧ change.effectiveFrom = window.map Window.start ∧
        change.effectiveTo = window.map Window.stop
  | _, .createVulnerability d => d.IsDated C g
  | _, .createAssessment d => ∃ time, c.Assesses time ∧ d.IsDated time
  | _, _ => True

theorem dates_of_isRead (C : Contract σ) (g : Storage σ) (c : Call) {r : Request α}
    (hr : r.isRead) : c.Dates C g r := by
  cases r <;> first
    | exact absurd hr Bool.false_ne_true
    | exact trivial

theorem dates_of_isCatalogWrite (C : Contract σ) (g : Storage σ) (c : Call) {r : Request α}
    (hr : r.isCatalogWrite) : c.Dates C g r := by
  cases r <;> first
    | exact absurd hr Bool.false_ne_true
    | exact trivial

/-- A call asks for nothing else than `Asks` says, as `Means` says and with the times of
`Dates`. -/
theorem upheld_as_dated {c : Call} (hg : g.Meets C) (hall : ∀ e s, C.errs e s)
    (hasks : ∀ {α} {r : Request α}, c.Asks r → c.Means C r → c.Dates C g r → C.may r)
    (policy : Policy) (h : C.inv s) : C.Upheld (c.run policy g) s := by
  have hread : ∀ {α} {r : Request α}, r.isRead → C.may r := fun hr =>
    hasks (c.asks_of_isRead hr) (c.means_of_isRead C hr) (c.dates_of_isRead C g hr)
  have hwrite (hc : c.isFiling) : ∀ {α} {r : Request α}, r.isCatalogWrite → c.Means C r →
      C.may r :=
    fun hr hm => hasks (asks_of_isCatalogWrite hc hr) hm (c.dates_of_isCatalogWrite C g hr)
  have hopen (hc : c.isOpening) : ∀ {id rule a s}, C.gives (.getRule id) (some rule) →
      C.inv s → C.Upheld (Assessments.open_ g policy.dedupe a rule) s := fun _ h =>
    Assessments.upheld_open hg (fun hr _ => hread hr) (fun _ _ => hall _ _)
      (fun _ hd ht => hasks ⟨hc, hd⟩ trivial ht) _ _ _ h
  cases c with
  | getRule id => exact (Rules.upheld_get hg hall hread id h).map _
  | listRules => exact (hg.upheld (hread rfl) h).map _
  | checkTree tree => exact (Rules.upheld_checkTree hg hall hread tree h).map _
  | createRule input =>
    exact (Rules.upheld_createRule hg hall hread input
      (fun _ hd => hasks ⟨⟨_, rfl⟩, hd.isChecked⟩ trivial (hd.window.imp fun _ hw => ⟨_, hw⟩))
      h).map _
  | updateRule id patch =>
    exact (Rules.upheld_update hg hall hread id patch
      (fun r xs hr hxs x hx => hasks rfl ⟨x, rfl, ⟨r, hr⟩, xs, hxs, hx⟩ trivial)
      (fun _ _ hp hl => hasks ⟨⟨_, rfl⟩, hp.isChecked _⟩ trivial ⟨patch, _, rfl, hl, rfl, rfl⟩)
      h).map _
  | deleteRule id => exact (Rules.upheld_delete hg hall hread id (hasks rfl trivial trivial) h).map _
  | testRule tree cases => exact (Contract.Upheld.ofExcept (fun _ _ => hall _ _) h).map _
  | previewRule id tree => exact (Rules.upheld_preview hg hall hread id tree h).map _
  | renderRule id => exact (Rules.upheld_render hg hall hread id h).map _
  | getVulnerability id => exact (Vulnerabilities.upheld_get hg hall hread id h).map _
  | listForProperty p => exact (hg.upheld (hread rfl) h).map _
  | findUnresolved ruleId p =>
    exact (Vulnerabilities.upheld_findUnresolved hg (fun hr _ => hread hr) (fun _ _ => hall _ _)
      ruleId p h).map _
  | observationsOf id => exact (upheld_observationsOf hg (fun hr _ => hread hr) id h).map _
  | createVulnerability ruleId assessmentId p typeId =>
    exact (Vulnerabilities.upheld_create hg (fun _ hd ht => hasks ⟨rfl, hd⟩ trivial ht) _ _ _ _
      h).map _
  | mitigationOptions id => exact (Vulnerabilities.upheld_mitigationOptions hg hall hread id h).map _
  | assignMitigationType id typeId =>
    exact (Vulnerabilities.upheld_assignMitigationType hg hall hread id
      (fun _ hw hcreated hs => hasks ⟨⟨rfl, hs⟩, hw⟩ hcreated trivial) typeId h).map _
  | applyMitigation id valueId description =>
    exact (Vulnerabilities.upheld_applyMitigation hg hall id
      (fun _ hw hcreated hs => hasks ⟨⟨rfl, hs⟩, hw⟩ hcreated trivial) valueId description h).map _
  | updateStatus id status notes =>
    exact (Vulnerabilities.upheld_updateStatus hg hall hread id status
      (fun _ hw hcreated hs => hasks ⟨⟨rfl, hs⟩, hw⟩ hcreated trivial) _ notes h).map _
  | evaluateVulnerability id => exact (Vulnerabilities.upheld_evaluate hg hall hread id h).map _
  | reevaluateProperty p =>
    exact (Vulnerabilities.upheld_reevaluate hg (fun hr _ => hread hr) p
      (fun xs hxs x hx r hr => hasks rfl ⟨x, rfl, ⟨xs, hxs, hx⟩, r, hr⟩ trivial) h).map _
  | recordAssessment p observations time =>
    exact (Assessments.upheld_record hg hall
      (fun d hd ht => hasks (r := .createAssessment d) hd trivial ⟨time, rfl, ht⟩) p h).map _
  | getAssessment id => exact (Assessments.upheld_get hg hall hread id h).map _
  | process source =>
    refine (Assessments.upheld_process hg hall hread source (fun draft d hs hd ht => ?_)
      (hopen rfl) h).map _
    subst hs
    exact hasks (r := .createAssessment d) hd trivial ⟨_, rfl, ht⟩
  | processAt source time =>
    refine (Assessments.upheld_processAt hg hall hread source (fun draft d hs hd ht => ?_)
      (hopen rfl) time h).map _
    subst hs
    exact hasks (r := .createAssessment d) hd trivial ⟨_, rfl, ht⟩
  | stateAt p time => exact (Assessments.upheld_stateAt hg hall hread p time h).map _
  | createObservationType name kind description multiple =>
    exact (Catalogs.upheld_createObservationType hg hall (fun _ hd => hwrite rfl rfl hd) _ _ _ _ h).map _
  | listObservationTypes => exact (hg.upheld (hread rfl) h).map _
  | createObservationValue typeId value description =>
    exact (Catalogs.upheld_createObservationValue hg hall hread typeId
      (fun _ _ hd _ _ _ => hwrite rfl rfl hd) _ _ h).map _
  | createMitigationType name description multiple =>
    have hmay : C.may (.createMitigationType { name, description, multiple }) :=
      hwrite rfl rfl (show Means C _ (.createMitigationType _) from rfl)
    exact (hg.upheld hmay h).map _
  | listMitigationTypes => exact (hg.upheld (hread rfl) h).map _
  | createMitigationValue typeId value description category =>
    exact (Catalogs.upheld_createMitigationValue hg hall hread
      (fun _ hd => hwrite rfl rfl hd) _ _ _ _ h).map _

/-- A call asks for nothing else than `Asks` says, and as `Means` says. -/
theorem upheld_as_meant {c : Call} (hg : g.Meets C) (hall : ∀ e s, C.errs e s)
    (hasks : ∀ {α} {r : Request α}, c.Asks r → c.Means C r → C.may r) (policy : Policy)
    (h : C.inv s) : C.Upheld (c.run policy g) s :=
  upheld_as_dated hg hall (fun ha hm _ => hasks ha hm) policy h

theorem upheld {c : Call} (hg : g.Meets C) (hall : ∀ e s, C.errs e s)
    (hasks : ∀ {α} {r : Request α}, c.Asks r → C.may r) (policy : Policy) (h : C.inv s) :
    C.Upheld (c.run policy g) s :=
  upheld_as_meant hg hall (fun hr _ => hasks hr) policy h

end Call

end Engine

end PropertyRisk
