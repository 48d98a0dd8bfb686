import PropertyRisk.Engine.RuleChanges
import PropertyRisk.Proofs.Triple

/-!
# Storages that fail for some vulnerabilities

When a rule changes, its vulnerabilities are judged one after another, each with
one request for its assessment. `Storage.failing` fails that request, or the
deletion, for the vulnerabilities it is told to, without effect; what is not
asked for a vulnerability passes through.
-/

namespace PropertyRisk

namespace Op

variable {σ τ ε : Type}

/-- The first of two states. -/
def Part.first : Part (σ × τ) σ := ⟨Prod.fst, fun s t => (s, t.2)⟩

theorem run_within_first (x : Op σ α) (s : σ) (t : τ) :
    (within Part.first x).run (s, t) = ((x.run s).1, ((x.run s).2, t)) := rfl

theorem within_first_orElse (wrap : ε → Error) (r : Except ε α) :
    within (τ := σ × τ) Part.first (orElse wrap r) = orElse wrap r := by
  cases r <;> rfl

theorem within_first_bind (x : Op σ α) (f : α → Op σ β) :
    within (τ := σ × τ) Part.first (x >>= f) =
      within Part.first x >>= fun a => within Part.first (f a) := by
  funext ⟨s, t⟩
  show (within Part.first (x >>= f)).run (s, t) = (within Part.first x >>= _).run (s, t)
  rw [run_within_first, run_bind, run_bind, run_within_first]
  rcases x.run s with ⟨_ | a, s'⟩ <;> rfl

end Op

namespace Storage

variable {σ : Type}

/-- The causes of failure, if any, of an operation on behalf of a vulnerability
with a given id. -/
abbrev Failures := Operation → Value → Option StorageCause

/-- Turn to the next vulnerability that waits to be judged. -/
def nextItem (fails : Failures) : Op (σ × List Value) Unit := fun (s, waiting) =>
  match waiting with
  | [] => (.ok (), (s, []))
  | id :: rest =>
    match fails .getAssessment id with
    | some cause => (.error (.storage ⟨.getAssessment, cause⟩), (s, rest))
    | none => (.ok (), (s, rest))

/-- A storage that fails for some vulnerabilities. Its state has the ids of those
that wait to be judged. -/
def failing (fails : Failures) (g : Storage σ) : Storage (σ × List Value) where
  now := Op.within .first g.now
  perform
    | .getAssessment id => do
      nextItem fails
      Op.within .first (g.perform (.getAssessment id))
    | .deleteVulnerability id =>
      match fails .deleteVulnerability id with
      | some cause => throw (.storage ⟨.deleteVulnerability, cause⟩)
      | none => Op.within .first (g.perform (.deleteVulnerability id))
    | r => Op.within .first (g.perform r)

variable {fails : Failures} {g : Storage σ} {s : σ} {id : Value} {waiting : List Value}

theorem run_getAssessment_failing {cause : StorageCause} (h : fails .getAssessment id = some cause)
    (assessmentId : Value) :
    ((g.failing fails).perform (.getAssessment assessmentId)).run (s, id :: waiting) =
      (.error (.storage ⟨.getAssessment, cause⟩), (s, waiting)) := by
  refine Op.run_bind_error ?_
  simp only [Op.run, nextItem, h]

theorem run_getAssessment_passing (h : fails .getAssessment id = none) (assessmentId : Value) :
    ((g.failing fails).perform (.getAssessment assessmentId)).run (s, id :: waiting) =
      (((g.perform (.getAssessment assessmentId)).run s).1,
        (((g.perform (.getAssessment assessmentId)).run s).2, waiting)) := by
  refine (Op.run_bind_ok (a := ()) (t := (s, waiting)) ?_).trans rfl
  simp only [Op.run, nextItem, h]

theorem run_deleteVulnerability_failing {cause : StorageCause}
    (h : fails .deleteVulnerability id = some cause) :
    ((g.failing fails).perform (.deleteVulnerability id)).run (s, waiting) =
      (.error (.storage ⟨.deleteVulnerability, cause⟩), (s, waiting)) := by
  simp only [failing, h, Op.run_throw]

theorem run_deleteVulnerability_passing (h : fails .deleteVulnerability id = none) :
    ((g.failing fails).perform (.deleteVulnerability id)).run (s, waiting) =
      (((g.perform (.deleteVulnerability id)).run s).1,
        (((g.perform (.deleteVulnerability id)).run s).2, waiting)) := by
  simp only [failing, h, Op.run_within_first]

/-- What is not asked for a vulnerability passes through. -/
theorem run_passing {r : Request α} {a : Except Error α} {t : σ}
    (hr : (g.failing fails).perform r = Op.within .first (g.perform r))
    (h : (g.perform r).run s = (a, t)) :
    ((g.failing fails).perform r).run (s, waiting) = (a, (t, waiting)) := by
  rw [hr, Op.run_within_first, h]

/-- The checks of a tree ask for nothing on behalf of a vulnerability. -/
theorem checkTree_failing (document : Value) :
    Engine.Rules.checkTree (g.failing fails) document =
      Op.within .first (Engine.Rules.checkTree g document) := by
  have htypes (leaves : List Leaf) : Engine.Rules.typeProblems (g.failing fails) leaves =
      Op.within .first (Engine.Rules.typeProblems g leaves) := by
    unfold Engine.Rules.typeProblems
    simp only
    split
    · rfl
    · rw [Op.within_first_bind]
      rfl
  have hvalues (leaves : List Leaf) : Engine.Rules.valueProblems (g.failing fails) leaves =
      Op.within .first (Engine.Rules.valueProblems g leaves) := by
    unfold Engine.Rules.valueProblems
    simp only
    split
    · rfl
    · rw [Op.within_first_bind]
      rfl
  simp only [Engine.Rules.checkTree, Op.within_first_bind, Op.within_first_orElse, htypes, hvalues]
  congr 1
  funext tree
  congr 1
  funext types
  congr 1
  funext values
  split <;> rfl

theorem checkedTree_failing (document : Option Value) :
    document.mapM (Engine.Rules.checkTree (g.failing fails)) =
      Op.within .first (document.mapM (Engine.Rules.checkTree g)) := by
  cases document with
  | none => rfl
  | some document =>
    show some <$> _ = Op.within .first (some <$> _)
    rw [← bind_pure_comp, ← bind_pure_comp, Op.within_first_bind, checkTree_failing]
    rfl

end Storage

end PropertyRisk
