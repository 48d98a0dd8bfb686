import PropertyRisk.Engine.Call
import PropertyRisk.Proofs.Documents
import PropertyRisk.Proofs.Views
import PropertyRisk.Proofs.Windows
import PropertyRisk.Store.Cell
import Mathlib.Data.String.Basic

/-!
# Typed requests

A caller who keeps to the types of the engine hands over texts that can be
encoded, flags, and property numbers of 64 bits. `Request.Typed` says this of
what reaches a storage, `Call.Typed` of what a caller gives; the records that
answer a typed request are typed again.
-/

namespace PropertyRisk

/-! ## Values -/

namespace Value

/-- A text that can be encoded. -/
def IsText (x : Value) : Prop := ∃ s, Text.isWhole s = true ∧ x = .text s

/-- A text that may be absent. -/
def IsOptional (x : Value) : Prop := x = .null ∨ x.IsText

def IsFlag (x : Value) : Prop := ∃ b, x = .bool b

/-- A whole number of 64 bits. -/
def IsWord (x : Value) : Prop := ∃ n, fitsWord n = true ∧ x = .int n

theorem IsText.optional {x : Value} (h : x.IsText) : x.IsOptional := .inr h

theorem isText_stamp (a : Time.Stamp) : (Value.text a.text).IsText :=
  ⟨_, Time.isWhole_text a, rfl⟩

theorem isText_of_isWhole {s : String} (h : Text.isWhole s = true) : (Value.text s).IsText :=
  ⟨s, h, rfl⟩

end Value

/-- Every id that a tree names can be encoded. -/
structure Criteria.Named (c : Criteria) : Prop where
  types : ∀ l ∈ c.leaves, Text.isWhole l.typeId = true
  values : ∀ l ∈ c.leaves, ∀ i ∈ l.valueIds.getD [], Text.isWhole i = true

/-- A document whose tree, if it reads as one, is named by such ids. -/
def Value.NamesTexts (document : Value) : Prop := ∀ c, Criteria.read document = .ok c → c.Named

/-! ## Records -/

structure Rule.Typed (r : Rule) : Prop where
  id : r.id.IsText
  tree : r.tree.Named
  version : fitsWord r.version = true

structure Vulnerability.Typed (v : Vulnerability) : Prop where
  id : v.id.IsText
  ruleId : v.ruleId.IsText
  assessmentId : v.assessmentId.IsText
  mitigationTypeId : v.mitigationTypeId.IsOptional

structure Assessment.Typed (a : Assessment) : Prop where
  id : a.id.IsText
  propertyId : a.propertyId.IsWord

/-! ## Requests -/

structure RuleDraft.Typed (d : RuleDraft) : Prop where
  name : d.name.IsText
  description : d.description.IsText
  readable : d.tree.Readable
  named : d.tree.Named
  effectiveFrom : d.effectiveFrom.IsText
  effectiveTo : d.effectiveTo.IsOptional
  isActive : d.isActive.IsFlag

/-- A change whose tree has been read, and that leaves a rule where it is. -/
structure RuleChange.Typed (change : RuleChange) (checked : Option Criteria) : Prop
    extends change.Proper checked where
  name : ∀ x, change.name = some x → x.IsText
  description : ∀ x, change.description = some x → x.IsText
  readable : ∀ c, checked = some c → c.Readable
  named : ∀ c, checked = some c → c.Named
  effectiveFrom : ∀ x, change.effectiveFrom = some x → x.IsText
  effectiveTo : ∀ x, change.effectiveTo = some x → x.IsOptional
  isActive : ∀ x, change.isActive = some x → x.IsFlag

/-- A vulnerability that is detected now. -/
structure VulnerabilityDraft.Typed (now : String) (d : VulnerabilityDraft) : Prop where
  ruleId : d.ruleId.IsText
  assessmentId : d.assessmentId.IsText
  propertyId : d.propertyId.IsWord
  status : d.status.IsText
  detectedAt : d.detectedAt = .text now
  mitigationTypeId : d.mitigationTypeId.IsOptional
  mitigationValueId : d.mitigationValueId.IsOptional
  mitigationDescription : d.mitigationDescription.IsOptional
  notes : d.notes.IsOptional

structure VulnerabilityChange.Typed (change : VulnerabilityChange) : Prop
    extends change.IsWorkflow where
  createdAt : change.createdAt = none
  statusText : ∀ x, change.status = some x → x.IsText
  mitigationTypeId : ∀ x, change.mitigationTypeId = some x → x.IsOptional
  mitigationValueId : ∀ x, change.mitigationValueId = some x → x.IsOptional
  mitigationDescription : ∀ x, change.mitigationDescription = some x → x.IsOptional
  notes : ∀ x, change.notes = some x → x.IsOptional
  updatedAt : ∀ x, change.updatedAt = some x → x.IsText

/-- An assessment whose observations were read from documents. -/
structure AssessmentDraft.Typed (d : AssessmentDraft) : Prop where
  propertyId : d.propertyId.IsWord
  observations : ∀ o ∈ d.observations, o.typeId ≠ ""
  assessedAt : d.assessedAt.IsText

structure ObservationTypeDraft.Typed (d : ObservationTypeDraft) : Prop where
  id : d.id = .null
  name : d.name.IsText
  kind : d.kind.IsText
  description : d.description.IsOptional
  multiple : d.multiple.IsFlag

structure ObservationValueDraft.Typed (d : ObservationValueDraft) : Prop where
  id : d.id = .null
  typeId : d.typeId.IsText
  value : d.value.IsText
  description : d.description.IsOptional

structure MitigationTypeDraft.Typed (d : MitigationTypeDraft) : Prop where
  id : d.id = .null
  name : d.name.IsText
  description : d.description.IsOptional
  kind : d.kind.IsText
  multiple : d.multiple.IsFlag

structure MitigationValueDraft.Typed (d : MitigationValueDraft) : Prop where
  id : d.id = .null
  typeId : d.typeId.IsText
  value : d.value.IsText
  description : d.description.IsOptional
  category : d.category.IsText

/-- Ids that are asked for together: each once, in order. -/
def AskedInOrder (ids : List Value) : Prop :=
  ∃ texts : List String, ids = texts.map .text ∧ texts.Pairwise (· < ·) ∧
    ∀ s ∈ texts, Text.isWhole s = true

namespace Request

/-- What a request may hold at the time `now`. A change of a rule is made at a
version. -/
def Typed (now : String) : Request α → Prop
  | createRule d => d.Typed
  | getRule id | deleteRule id | getVulnerability id | listVulnerabilitiesForRule id
  | deleteVulnerability id | getAssessment id | getMitigationType id
  | listMitigationValues id => id.IsText
  | updateRule id change expected => id.IsText ∧ (∃ tree, change.Typed tree) ∧
    ∃ version, fitsWord version = true ∧ expected = some (.int version)
  | createVulnerability d => d.Typed now
  | listVulnerabilitiesForProperty propertyId _ => propertyId.IsWord
  | updateVulnerability id change => id.IsText ∧ change.Typed
  | createAssessment d => d.Typed
  | createObservationType d => d.Typed
  | createObservationValue d => d.Typed
  | createMitigationType d => d.Typed
  | createMitigationValue d => d.Typed
  | getObservationTypes ids | getObservationValues ids => AskedInOrder ids
  | listRules | listRulesEffectiveAt _ | listObservationTypes | listMitigationTypes | ping => True

/-- What an answer holds. -/
def Answered : {α : Type} → Request α → α → Prop
  | _, getRule _, r? => ∀ r, r? = some r → r.Typed
  | _, listRules, rs | _, listRulesEffectiveAt _, rs => ∀ r ∈ rs, r.Typed
  | _, getVulnerability _, x? => ∀ x, x? = some x → x.Typed
  | _, listVulnerabilitiesForRule _, xs
  | _, listVulnerabilitiesForProperty .., xs => ∀ x ∈ xs, x.Typed
  | _, createAssessment _, a => a.Typed
  | _, getAssessment _, a? => ∀ a, a? = some a → a.Typed
  | _, getMitigationType _, t? => ∀ t, t? = some t → t.id.IsText
  | _, _, _ => True

/-- Whether a request may raise the version of a rule. -/
def changesRule : Request α → Bool
  | updateRule .. => true
  | _ => false

end Request

/-! ## Calls -/

namespace Engine

/-- An assessment to process whose fields are typed. -/
def AssessmentSource.Typed : AssessmentSource → Prop
  | stored id => id.IsText
  | record a => a.Typed
  | draft d => d.propertyId.IsWord ∧
    ∀ o ∈ d.observations, ∃ v, Observation.ofValue? v = some o

structure RuleInput.Typed (input : RuleInput) : Prop where
  name : input.name.IsText
  description : input.description.IsText
  tree : input.tree.NamesTexts
  isActive : input.isActive.IsFlag

structure RulePatch.Typed (patch : RulePatch) : Prop where
  name : ∀ x, patch.name = some x → x.IsText
  description : ∀ x, patch.description = some x → x.IsText
  tree : ∀ x, patch.tree = some x → x.NamesTexts

namespace Call

/-- A call whose arguments are typed. What is asked of an argument that the
engine checks itself, such as a time or a status, is left to the check. -/
def Typed : Call → Prop
  | getRule id | deleteRule id | renderRule id | previewRule id _ | getVulnerability id
  | observationsOf id | mitigationOptions id | evaluateVulnerability id
  | getAssessment id => id.IsText
  | listRules | testRule .. | listObservationTypes | listMitigationTypes => True
  | checkTree tree => tree.NamesTexts
  | createRule input => input.Typed
  | updateRule id patch => id.IsText ∧ patch.Typed
  | listForProperty propertyId | reevaluateProperty propertyId | stateAt propertyId _
  | findUnresolved _ propertyId | recordAssessment propertyId _ _ => propertyId.IsWord
  | createVulnerability ruleId assessmentId propertyId mitigationTypeId =>
    ruleId.IsText ∧ assessmentId.IsText ∧ propertyId.IsWord ∧ mitigationTypeId.IsOptional
  | assignMitigationType id typeId => id.IsText ∧ typeId.IsText
  | applyMitigation id valueId description =>
    id.IsText ∧ valueId.IsOptional ∧ description.IsOptional
  | updateStatus id _ notes => id.IsText ∧ notes.IsOptional
  | process source | processAt source _ => source.Typed
  | createObservationType name _ description multiple
  | createMitigationType name description multiple =>
    name.IsText ∧ description.IsOptional ∧ multiple.IsFlag
  | createObservationValue typeId value description
  | createMitigationValue typeId value description _ =>
    typeId.IsText ∧ value.IsText ∧ description.IsOptional

end Call

end Engine

/-! ## What the engine asks for -/

namespace Engine

theorem pairwise_eraseDups : ∀ {texts : List String}, texts.Pairwise (· ≤ ·) →
    texts.eraseDups.Pairwise (· < ·)
  | [], _ => by simp
  | s :: rest, h => by
    obtain ⟨hs, hrest⟩ := List.pairwise_cons.mp h
    rw [List.eraseDups_cons]
    refine List.pairwise_cons.mpr ⟨fun t ht => ?_, pairwise_eraseDups (hrest.filter _)⟩
    obtain ⟨htr, hne⟩ := List.mem_filter.mp (List.mem_eraseDups.mp ht)
    exact lt_of_le_of_ne (hs t htr) fun he => by simp [he] at hne
termination_by texts => texts.length
decreasing_by exact Nat.lt_succ_of_le (List.length_filter_le _ _)

theorem pairwise_distinctSorted (texts : List String) :
    (distinctSorted texts).Pairwise (· < ·) := by
  refine pairwise_eraseDups ?_
  have hsorted : (texts.mergeSort fun a b => decide (a ≤ b)).Pairwise
      fun a b => decide (a ≤ b) = true :=
    List.pairwise_mergeSort (fun a b c => by simpa using le_trans)
      (fun a b => by simpa using le_total a b) texts
  exact hsorted.imp fun h => by simpa using h

/-- The engine asks for several ids in order, each once. -/
theorem askedInOrder_distinctSorted {texts : List String}
    (h : ∀ s ∈ texts, Text.isWhole s = true) :
    AskedInOrder ((distinctSorted texts).map .text) :=
  ⟨_, rfl, pairwise_distinctSorted texts, fun s hs => h s (mem_distinctSorted.mp hs)⟩

theorem askedInOrder_types {leaves : List Leaf}
    (h : ∀ l ∈ leaves, Text.isWhole l.typeId = true) :
    AskedInOrder ((distinctSorted (leaves.map Leaf.typeId)).map .text) := by
  refine askedInOrder_distinctSorted fun s hs => ?_
  obtain ⟨l, hl, rfl⟩ := List.mem_map.mp hs
  exact h l hl

theorem askedInOrder_values {leaves : List Leaf}
    (h : ∀ l ∈ leaves, ∀ i ∈ l.valueIds.getD [], Text.isWhole i = true) :
    AskedInOrder ((distinctSorted (Rules.valueIdsOf leaves)).map .text) := by
  refine askedInOrder_distinctSorted fun s hs => ?_
  obtain ⟨l, hl, hs⟩ := List.mem_flatMap.mp hs
  exact h l hl s hs

end Engine

theorem Text.isWhole_trim {s : String} (h : Text.isWhole s = true) :
    Text.isWhole (Text.trim s) = true := by
  have hall : ∀ c ∈ s.toList, (Text.half? c).isNone = true := List.all_eq_true.mp h
  have hsub (blank : Char → Bool) (cs : List Char) : List.Sublist (Text.trimBy blank cs) cs := by
    have hdrop := List.dropWhile_sublist blank (l := (cs.dropWhile blank).reverse)
    simpa [Text.trimBy] using hdrop.reverse.trans (by simpa using List.dropWhile_sublist blank)
  refine List.all_eq_true.mpr fun c hc => hall c ?_
  exact (hsub Text.isBlank s.toList).subset (by simpa [Text.trim] using hc)

/-! ## Windows -/

namespace Window.Written

variable {w : Window}

theorem isText_start (h : w.Written) : w.start.IsText := by
  obtain ⟨a, ha⟩ := h.start
  exact ha ▸ Value.isText_stamp a

theorem isOptional_stop (h : w.Written) : w.stop.IsOptional :=
  h.stop.imp_right fun ⟨b, hb⟩ => hb ▸ Value.isText_stamp b

end Window.Written

end PropertyRisk
