import PropertyRisk.Proofs.Agreement
import PropertyRisk.Proofs.Typed

/-!
# Storages that cannot be told apart

Two storages are `Twins` if they answer every typed request alike, from related
states to related states. The engine asks nothing else of a storage when its
caller keeps to the types. Here it is shown of what it does with rules.
-/

namespace PropertyRisk

open Op (Agree)
open Engine

/-- States are related by `R`, and by `R'` once a rule has been changed. -/
structure Twins (g : Storage σ) (h : Storage τ) (now : String) (R R' : σ → τ → Prop) : Prop where
  le : R ≤ R'
  clock : Agree R R (· = now) g.now h.now
  perform : ∀ {α} (r : Request α), r.Typed now → r.changesRule = false →
    Agree R R (fun a => r.Answered a) (g.perform r) (h.perform r)
  changeRule : ∀ {α} (r : Request α), r.Typed now → r.changesRule = true →
    Agree R R' (fun _ => True) (g.perform r) (h.perform r)

namespace Twins

variable {g : Storage σ} {h : Storage τ} {now : String} {R R' : σ → τ → Prop}
  {id propertyId : Value} {rule : Rule} {x : Vulnerability} {a : Assessment} {tree : Criteria}

variable (twins : Twins g h now R R')
include twins

/-! ## Judging -/

theorem agree_typeProblems {leaves : List Leaf} (hn : ∀ l ∈ leaves, Text.isWhole l.typeId = true) :
    Agree R R (fun _ => True) (Rules.typeProblems g leaves) (Rules.typeProblems h leaves) := by
  refine .ite (fun _ => .pure ⟨⟩) fun _ => ?_
  refine (twins.perform (.getObservationTypes _) ?_ rfl).bind fun _ _ => .pure ⟨⟩
  exact askedInOrder_types hn

theorem agree_valueProblems {leaves : List Leaf}
    (hn : ∀ l ∈ leaves, ∀ i ∈ l.valueIds.getD [], Text.isWhole i = true) :
    Agree R R (fun _ => True) (Rules.valueProblems g leaves) (Rules.valueProblems h leaves) := by
  refine .ite (fun _ => .pure ⟨⟩) fun _ => ?_
  refine (twins.perform (.getObservationValues _) ?_ rfl).bind fun _ _ => .pure ⟨⟩
  exact askedInOrder_values hn

theorem agree_checkTree {document : Value} (hd : document.NamesTexts) :
    Agree R R (fun tree => Criteria.read document = .ok tree) (Rules.checkTree g document)
      (Rules.checkTree h document) := by
  refine Agree.bind (.orElse fun _ ht => ht) fun tree ht => ?_
  refine (twins.agree_typeProblems (hd tree ht).types).bind fun types _ => ?_
  refine (twins.agree_valueProblems (hd tree ht).values).bind fun values _ => ?_
  split
  · exact .pure ht
  · exact .throw _

theorem agree_createRule {input : RuleInput} (hi : input.Typed) :
    Agree R R (fun _ => True) (Rules.create g input) (Rules.create h input) := by
  -- a required text that passes is the given one without its blanks
  have htext {x : Value} (hx : x.IsText) (s : String) (hs : Rules.requiredText x = .ok (some s)) :
      Text.isWhole s = true := by
    obtain ⟨t, ht, rfl⟩ := hx
    unfold Rules.requiredText at hs
    split at hs
    · have hs := Except.ok.inj hs
      split at hs <;> cases hs
      exact Text.isWhole_trim ht
    · cases hs
  refine Agree.bind (.ofExcept fun _ hn => hn) fun name hname => ?_
  refine Agree.bind (.ofExcept fun _ hd => hd) fun description hdesc => ?_
  refine twins.clock.bind fun t _ => ?_
  refine Agree.bind (.ofExcept fun _ hw => hw) fun window hwindow => ?_
  split
  · rename_i name description window
    refine (twins.agree_checkTree hi.tree).bind fun tree ht => ?_
    have hw := Rules.written_of_checkWindow hwindow
    refine (twins.perform (.createRule _) ?_ rfl).trivial
    exact
      { name := Value.isText_of_isWhole (htext hi.name _ hname)
        description := Value.isText_of_isWhole (htext hi.description _ hdesc)
        readable := Criteria.readable_of_read ht
        named := hi.tree tree ht
        effectiveFrom := hw.isText_start
        effectiveTo := hw.isOptional_stop
        isActive := hi.isActive }
  · exact .throw _

end Twins

end PropertyRisk
