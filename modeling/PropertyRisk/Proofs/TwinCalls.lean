import PropertyRisk.Proofs.Twins

/-!
# Calls on twins

`Twins.agree_call`: a typed call comes to the same reply on both of two twins, or
to the same error.
-/

namespace PropertyRisk

open Op (Agree)
open Engine

namespace Twins

variable {g : Storage σ} {h : Storage τ} {now : String} {R R' : σ → τ → Prop}
  {id propertyId : Value} {x : Vulnerability} {a : Assessment}

variable (twins : Twins g h now R R')
include twins

/-! ## Working on vulnerabilities -/

theorem agree_recordDraft {observations : List Observation} (hp : propertyId.IsWord)
    (ho : ∀ o ∈ observations, o.typeId ≠ "") (assessedAt : Value) :
    Agree R R Assessment.Typed (Assessments.recordDraft g propertyId observations assessedAt)
      (Assessments.recordDraft h propertyId observations assessedAt) := by
  refine .ite (fun _ => ?_) fun _ => ?_
  · refine Agree.bind (.ofExcept (P := fun _ => True) fun _ _ => ⟨⟩) fun stamp _ => ?_
    exact twins.perform (.createAssessment _) ⟨hp, ho, Value.isText_stamp stamp⟩ rfl
  · exact twins.perform (.createAssessment _)
      ⟨hp, ho, Value.isText_of_isWhole (by decide)⟩ rfl

end Twins

end PropertyRisk
