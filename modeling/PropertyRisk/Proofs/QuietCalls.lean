import PropertyRisk.Engine.Call
import PropertyRisk.Proofs.Views

/-!
# Calls that change nothing

`Call.quiet_of_isRead`: on a storage whose reads change nothing, neither do the
calls that list, judge, preview and word what is stored.
-/

namespace PropertyRisk

open Op (Quiet Triple)

/-- A storage whose clock and reads change nothing. -/
structure Storage.ReadsQuietly (g : Storage σ) : Prop where
  now : Quiet g.now
  reads : ∀ {α} {r : Request α}, r.isRead → Quiet (g.perform r)

theorem View.Lawful.readsQuietly {v : View S} (law : v.Lawful) : v.storage.ReadsQuietly where
  now _ := congrArg Prod.snd law.now
  reads := law.reads

namespace Engine

variable {g : Storage σ} (hg : g.ReadsQuietly)
include hg

theorem quiet_observationsOf (id : Value) : Quiet (observationsOf g id) := by
  refine (hg.reads rfl).bind fun found => ?_
  cases found <;> exact .pure _

/-! ## Rules -/

namespace Rules

theorem quiet_get (id : Value) : Quiet (get g id) := by
  refine (hg.reads rfl).bind fun found => ?_
  cases found
  · exact .throw _
  · exact .pure _

theorem quiet_typeProblems (leaves : List Leaf) : Quiet (typeProblems g leaves) :=
  .ite (.pure []) <| (hg.reads rfl).bind fun _ => .pure _

theorem quiet_valueProblems (leaves : List Leaf) : Quiet (valueProblems g leaves) :=
  .ite (.pure []) <| (hg.reads rfl).bind fun _ => .pure _

theorem quiet_checkTree (document : Value) : Quiet (checkTree g document) := by
  refine (Quiet.orElse _ _).bind fun tree => (quiet_typeProblems hg _).bind fun types =>
    (quiet_valueProblems hg _).bind fun values => ?_
  split
  · exact .pure tree
  · exact .throw _

/-- A checked tree has been read from its document. -/
theorem triple_checkTree (document : Value) (s : σ) :
    Triple (checkTree g document) s
      (fun tree t => t = s ∧ Criteria.read document = .ok tree) (fun _ t => t = s) := by
  refine (Triple.orElse (Q := fun tree t => t = s ∧ Criteria.read document = .ok tree)
    (fun _ ht => ⟨rfl, ht⟩) (fun _ _ => rfl)).bind ?_
  rintro tree t ⟨rfl, ht⟩
  refine Triple.bind ((quiet_typeProblems hg _).keeps (I := (· = t)) rfl) ?_
  rintro types _ rfl
  refine Triple.bind ((quiet_valueProblems hg _).keeps (I := (· = _)) rfl) ?_
  rintro values _ rfl
  split
  · exact Triple.pure ⟨rfl, ht⟩
  · exact Triple.throw rfl

theorem quiet_wouldRemove (tree : Criteria) (x : Vulnerability) : Quiet (wouldRemove g tree x) :=
  (quiet_observationsOf hg _).bind fun _ => .ite (.pure false) <|
    (Quiet.orElse _ _).bind fun _ => .pure _

theorem quiet_preview (id document : Value) : Quiet (preview g id document) :=
  (quiet_get hg id).bind fun _ => (Quiet.orElse _ _).bind fun tree =>
    (hg.reads rfl).bind fun _ => (Quiet.mapM (quiet_wouldRemove hg tree) _).bind fun _ => .pure _

theorem quiet_namesIn (tree : Criteria) : Quiet (namesIn g tree) := by
  unfold namesIn
  refine .ite (Quiet.bind (.pure []) fun types => ?_) (Quiet.bind (hg.reads rfl) fun types => ?_)
  all_goals
    refine .ite (Quiet.bind (.pure []) fun values => ?_) (Quiet.bind (hg.reads rfl) fun values => ?_)
    all_goals exact (Quiet.ofExcept _).bind fun _ => .pure _

theorem quiet_render (id : Value) : Quiet (render g id) :=
  (quiet_get hg id).bind fun _ => (quiet_namesIn hg _).bind fun _ => .pure _

end Rules

/-! ## Vulnerabilities -/

namespace Vulnerabilities

theorem quiet_get (id : Value) : Quiet (get g id) := by
  refine (hg.reads rfl).bind fun found => ?_
  cases found
  · exact .throw _
  · exact .pure _

theorem quiet_listForProperty (p : Value) : Quiet (listForProperty g p) := hg.reads rfl

theorem quiet_findUnresolved (ruleId p : Value) : Quiet (findUnresolved g ruleId p) :=
  (quiet_listForProperty hg p).bind fun _ => .ofExcept _

theorem quiet_mitigationOptions (id : Value) : Quiet (mitigationOptions g id) := by
  refine (quiet_get hg id).bind fun x => .ite ((hg.reads rfl).bind fun found => ?_) (.pure [])
  cases found with
  | none => exact .pure []
  | some type => exact (hg.reads rfl).bind fun _ => .pure _

theorem quiet_evaluate (id : Value) : Quiet (evaluate g id) := by
  refine (quiet_get hg id).bind fun x => (hg.reads rfl).bind fun found => ?_
  cases found with
  | none => exact .pure false
  | some rule => exact (quiet_observationsOf hg _).bind fun _ => .orElse _ _

end Vulnerabilities

/-! ## Assessments -/

namespace Assessments

theorem quiet_get (id : Value) : Quiet (get g id) := by
  refine (hg.reads rfl).bind fun found => ?_
  cases found
  · exact .throw _
  · exact .pure _

theorem quiet_stateAt (p time : Value) : Quiet (stateAt g p time) :=
  (Quiet.ofExcept _).bind fun _ => (hg.reads rfl).bind fun _ => .pure _

end Assessments

/-! ## Calls -/

namespace Call

omit hg in
/-- Whether a call only looks. -/
def isRead : Call → Bool
  | getRule _ | listRules | checkTree _ | testRule .. | previewRule .. | renderRule _
  | getVulnerability _ | listForProperty _ | findUnresolved .. | observationsOf _
  | mitigationOptions _ | evaluateVulnerability _ | getAssessment _ | stateAt ..
  | listObservationTypes | listMitigationTypes => true
  | _ => false

theorem quiet_of_isRead (policy : Policy) {c : Call} (h : c.isRead) : Quiet (c.run policy g) := by
  cases c with
  | getRule id => exact (Rules.quiet_get hg id).map _
  | listRules => exact (hg.reads rfl).map _
  | checkTree tree => exact (Rules.quiet_checkTree hg tree).map _
  | testRule tree cases => exact (Quiet.ofExcept _).map _
  | previewRule id tree => exact (Rules.quiet_preview hg id tree).map _
  | renderRule id => exact (Rules.quiet_render hg id).map _
  | getVulnerability id => exact (Vulnerabilities.quiet_get hg id).map _
  | listForProperty p => exact (Vulnerabilities.quiet_listForProperty hg p).map _
  | findUnresolved ruleId p => exact (Vulnerabilities.quiet_findUnresolved hg ruleId p).map _
  | observationsOf id => exact (quiet_observationsOf hg id).map _
  | mitigationOptions id => exact (Vulnerabilities.quiet_mitigationOptions hg id).map _
  | evaluateVulnerability id => exact (Vulnerabilities.quiet_evaluate hg id).map _
  | getAssessment id => exact (Assessments.quiet_get hg id).map _
  | stateAt p time => exact (Assessments.quiet_stateAt hg p time).map _
  | listObservationTypes => exact (hg.reads rfl).map _
  | listMitigationTypes => exact (hg.reads rfl).map _
  | _ => exact absurd h Bool.false_ne_true

end Call

end Engine

/-- The tree of a change, if there is one, is read back as it is written. -/
theorem View.Lawful.triple_checkedTree {v : View S} (law : v.Lawful) (document : Option Value)
    (w : World S) :
    Triple (document.mapM (Engine.Rules.checkTree v.storage)) w
      (fun tree w' => w' = w ∧ ∀ c, tree = some c → v.Tree c) (fun _ w' => w' = w) := by
  cases document with
  | none => exact Triple.pure ⟨rfl, nofun⟩
  | some document =>
    refine Triple.map some
      ((Engine.Rules.triple_checkTree law.readsQuietly document w).mono ?_ fun _ _ h => h)
    rintro tree w' ⟨rfl, ht⟩
    refine ⟨rfl, fun c hc => ?_⟩
    cases hc
    exact law.tree_of_read ht

end PropertyRisk
