import PropertyRisk.Proofs.Triple
import PropertyRisk.Engine.Call
import PropertyRisk.Text.Surrogate
import Mathlib.Data.List.Forall2

/-!
# Runs that differ in the causes of failures

Two storages are alike when their requests come to the same, or fail alike: in the
same operation, for a cause that may be another one. What the engine makes of a cause
is to hand it on. So a call comes to the same on both of them, but for the causes of
the failures that its reply lists.
-/

namespace PropertyRisk

/-! ## Failures -/

/-- Failures of one operation. Either both can be encoded or neither. -/
structure StorageFailure.Alike (f f' : StorageFailure) : Prop where
  operation : f.operation = f'.operation
  encodable : Text.isWhole f.message = Text.isWhole f'.message

theorem StorageFailure.Alike.refl (f : StorageFailure) : f.Alike f := ⟨rfl, rfl⟩

inductive Error.Alike : Error → Error → Prop
  | same (e : Error) : Alike e e
  | storage {f f' : StorageFailure} : f.Alike f' → Alike (.storage f) (.storage f')

/-- The same ending: values that are related, or errors that are alike. -/
inductive Alike (V : α → α → Prop) : Except Error α → Except Error α → Prop
  | ok {a b : α} : V a b → Alike V (.ok a) (.ok b)
  | error {e e' : Error} : e.Alike e' → Alike V (.error e) (.error e')

/-! ## Operations -/

/-- From related states, operations come to the same ending and to related states. -/
def Op.Alike (R : σ → τ → Prop) (V : α → α → Prop) (x : Op σ α) (y : Op τ α) : Prop :=
  ∀ s t, R s t → PropertyRisk.Alike V (x.run s).1 (y.run t).1 ∧ R (x.run s).2 (y.run t).2

namespace Op.Alike

variable {σ τ α β ε : Type} {R : σ → τ → Prop} {V : α → α → Prop} {W : β → β → Prop}
  {x : Op σ α} {y : Op τ α}

theorem pure {a b : α} (h : V a b) : Alike R V (pure a) (pure b) := fun _ _ hs => ⟨.ok h, hs⟩

theorem throw (e : Error) : Alike R V (throw e) (throw e) := fun _ _ hs => ⟨.error (.same e), hs⟩

theorem ofExcept (r : Except Error α) : Alike R Eq (ofExcept r) (ofExcept r) := by
  cases r with
  | ok a => exact pure rfl
  | error e => exact throw e

theorem orElse (wrap : ε → Error) (r : Except ε α) :
    Alike R Eq (orElse wrap r) (orElse wrap r) := by
  cases r with
  | ok a => exact pure rfl
  | error e => exact throw (wrap e)

theorem bind {f : α → Op σ β} {g : α → Op τ β} (hx : Alike R V x y)
    (hf : ∀ a b, V a b → Alike R W (f a) (g b)) : Alike R W (x >>= f) (y >>= g) := by
  intro s t hs
  obtain ⟨hend, hr⟩ := hx s t hs
  rw [run_bind, run_bind]
  rcases hxs : x.run s with ⟨r, s'⟩
  rcases hyt : y.run t with ⟨r', t'⟩
  rw [hxs, hyt] at hend hr
  cases hend with
  | ok hv => exact hf _ _ hv s' t' hr
  | error he => exact ⟨.error he, hr⟩

/-- Go on with one and the same value. -/
theorem next {f : α → Op σ β} {g : α → Op τ β} (hx : Alike R Eq x y)
    (hf : ∀ a, Alike R W (f a) (g a)) : Alike R W (x >>= f) (y >>= g) :=
  hx.bind fun a _ hab => hab ▸ hf a

theorem map (f : α → β) (hx : Alike R V x y) (hf : ∀ a b, V a b → W (f a) (f b)) :
    Alike R W (f <$> x) (f <$> y) := by
  rw [← bind_pure_comp, ← bind_pure_comp]
  exact hx.bind fun a b hab => pure (hf a b hab)

/-- A function of one and the same value. -/
theorem told (f : α → β) (hx : Alike R Eq x y) : Alike R Eq (f <$> x) (f <$> y) :=
  hx.map f fun _ _ hab => congrArg f hab

theorem ite {c : Prop} [Decidable c] {x' : Op σ α} {y' : Op τ α} (hx : Alike R V x y)
    (hy : Alike R V x' y') : Alike R V (if c then x else x') (if c then y else y') := by
  split
  · exact hx
  · exact hy

theorem mapM {f : α → Op σ β} {g : α → Op τ β} (h : ∀ a, Alike R Eq (f a) (g a)) (as : List α) :
    Alike R Eq (as.mapM f) (as.mapM g) := by
  induction as with
  | nil => simpa using pure rfl
  | cons a rest ih =>
    rw [List.mapM_cons, List.mapM_cons]
    exact (h a).next fun b => ih.next fun bs => pure rfl

/-- A failure that becomes a value is one that may differ in its cause. -/
inductive Attempted (V : α → α → Prop) :
    Except StorageFailure α → Except StorageFailure α → Prop
  | ok {a b : α} : V a b → Attempted V (.ok a) (.ok b)
  | failed {f f' : StorageFailure} : f.Alike f' → Attempted V (.error f) (.error f')

theorem attempt (hx : Alike R V x y) : Alike R (Attempted V) (attempt x) (attempt y) := by
  intro s t hs
  obtain ⟨hend, hr⟩ := hx s t hs
  simp only [Op.run] at hend hr
  simp only [Op.run, Op.attempt]
  rcases hxs : x s with ⟨r, s'⟩
  rcases hyt : y t with ⟨r', t'⟩
  rw [hxs, hyt] at hend hr
  cases hend with
  | ok hv => exact ⟨.ok (.ok hv), hr⟩
  | error he =>
    cases he with
    | storage hf => exact ⟨.ok (.failed hf), hr⟩
    | same =>
      rename_i e
      -- an error that is no failure of the storage is not caught
      cases e with
      | storage f => exact ⟨.ok (.failed (.refl f)), hr⟩
      | _ => exact ⟨.error (.same _), hr⟩

end Op.Alike

structure Storage.Alike (R : σ → τ → Prop) (g : Storage σ) (h : Storage τ) : Prop where
  now : Op.Alike R Eq g.now h.now
  perform : ∀ {α : Type} (r : Request α), Op.Alike R Eq (g.perform r) (h.perform r)

/-! ## Lists of items that come to something -/

/-- The same item, and what became of it. -/
def Paired (V : β → β → Prop) (p q : α × β) : Prop := p.1 = q.1 ∧ V p.2 q.2

section

variable {V : β → β → Prop} {as bs : List (α × β)} (h : List.Forall₂ (Paired V) as bs)
include h

theorem countP_of_paired (p : β → Bool) (hp : ∀ a b, V a b → p a = p b) :
    as.countP (fun x => p x.2) = bs.countP fun x => p x.2 := by
  induction h with
  | nil => rfl
  | cons hab _ ih => rw [List.countP_cons, List.countP_cons, hp _ _ hab.2, ih]

theorem filterMap_of_paired (f : β → Option γ) (hf : ∀ a b, V a b → f a = f b) :
    as.filterMap (fun x => f x.2) = bs.filterMap fun x => f x.2 := by
  induction h with
  | nil => rfl
  | cons hab _ ih => rw [List.filterMap_cons, List.filterMap_cons, hf _ _ hab.2, ih]

theorem items_of_paired (p : β → Bool) (f : α → γ) (hp : ∀ a b, V a b → p a = p b) :
    (as.filter fun x => p x.2).map (fun x => f x.1) =
      (bs.filter fun x => p x.2).map fun x => f x.1 := by
  induction h with
  | nil => rfl
  | cons hab _ ih =>
    rw [List.filter_cons, List.filter_cons, hp _ _ hab.2]
    split
    · rw [List.map_cons, List.map_cons, hab.1, ih]
    · exact ih

end

/-! ## Calls that list no failures -/

namespace Engine

variable {σ τ : Type} {R : σ → τ → Prop} {g : Storage σ} {h : Storage τ} (hg : g.Alike R h)
include hg

theorem alike_observationsOf (id : Value) :
    Op.Alike R Eq (observationsOf g id) (observationsOf h id) := by
  refine (hg.perform _).next fun found => ?_
  cases found <;> exact .pure rfl

namespace Rules

theorem alike_get (id : Value) : Op.Alike R Eq (get g id) (get h id) := by
  refine (hg.perform _).next fun found => ?_
  cases found
  · exact .throw _
  · exact .pure rfl

theorem alike_checkTree (document : Value) :
    Op.Alike R Eq (checkTree g document) (checkTree h document) := by
  have htypes (leaves : List Leaf) :
      Op.Alike R Eq (typeProblems g leaves) (typeProblems h leaves) :=
    .ite (.pure rfl) ((hg.perform _).next fun _ => .pure rfl)
  have hvalues (leaves : List Leaf) :
      Op.Alike R Eq (valueProblems g leaves) (valueProblems h leaves) :=
    .ite (.pure rfl) ((hg.perform _).next fun _ => .pure rfl)
  refine (Op.Alike.orElse _ _).next fun tree => (htypes _).next fun types =>
    (hvalues _).next fun values => ?_
  split
  · exact .pure rfl
  · exact .throw _

theorem alike_create (input : RuleInput) : Op.Alike R Eq (create g input) (create h input) := by
  refine (Op.Alike.ofExcept _).next fun name => (Op.Alike.ofExcept _).next fun description =>
    hg.now.next fun now => (Op.Alike.ofExcept _).next fun window => ?_
  split
  · exact (alike_checkTree hg _).next fun tree => hg.perform _
  · exact .throw _

theorem alike_delete (id : Value) : Op.Alike R Eq (delete g id) (delete h id) :=
  (Op.Alike.ofExcept _).next fun _ => (hg.perform _).next fun _ => (hg.perform _).next fun _ =>
    .ite (.pure rfl) (.throw _)

theorem alike_preview (id document : Value) :
    Op.Alike R Eq (preview g id document) (preview h id document) := by
  have hremove (tree : Criteria) (v : Vulnerability) :
      Op.Alike R Eq (wouldRemove g tree v) (wouldRemove h tree v) :=
    (alike_observationsOf hg _).next fun _ => .ite (.pure rfl) <|
      (Op.Alike.orElse _ _).next fun _ => .pure rfl
  exact (alike_get hg id).next fun _ => (Op.Alike.orElse _ _).next fun tree =>
    (hg.perform _).next fun found => (Op.Alike.mapM (hremove tree) found).next fun _ => .pure rfl

theorem alike_namesIn (tree : Criteria) : Op.Alike R Eq (namesIn g tree) (namesIn h tree) := by
  unfold namesIn
  -- either catalog is left alone if the tree has nothing from it
  refine .ite (Op.Alike.next (.pure rfl) fun types => ?_) ((hg.perform _).next fun types => ?_)
  all_goals
    refine .ite (Op.Alike.next (.pure rfl) fun values => ?_) ((hg.perform _).next fun values => ?_)
    all_goals exact (Op.Alike.ofExcept _).next fun _ => .pure rfl

theorem alike_render (id : Value) : Op.Alike R Eq (render g id) (render h id) :=
  (alike_get hg id).next fun _ => (alike_namesIn hg _).next fun _ => .pure rfl

end Rules

namespace Vulnerabilities

theorem alike_get (id : Value) : Op.Alike R Eq (get g id) (get h id) := by
  refine (hg.perform _).next fun found => ?_
  cases found
  · exact .throw _
  · exact .pure rfl

theorem alike_findUnresolved (ruleId p : Value) :
    Op.Alike R Eq (findUnresolved g ruleId p) (findUnresolved h ruleId p) :=
  (hg.perform _).next fun _ => .ofExcept _

theorem alike_create (ruleId assessmentId p typeId : Value) :
    Op.Alike R Eq (create g ruleId assessmentId p typeId) (create h ruleId assessmentId p typeId) :=
  hg.now.next fun _ => hg.perform _

theorem alike_mitigationOptions (id : Value) :
    Op.Alike R Eq (mitigationOptions g id) (mitigationOptions h id) := by
  refine (alike_get hg id).next fun v => .ite ((hg.perform _).next fun found => ?_) (.pure rfl)
  cases found with
  | none => exact .pure rfl
  | some type => exact (hg.perform _).next fun _ => .pure rfl

theorem alike_change (id : Value) (changed : VulnerabilityChange) :
    Op.Alike R Eq (change g id changed) (change h id changed) := by
  refine (hg.perform _).next fun found => ?_
  cases found
  · exact .throw _
  · exact .pure rfl

theorem alike_assignMitigationType (id typeId : Value) :
    Op.Alike R Eq (assignMitigationType g id typeId) (assignMitigationType h id typeId) := by
  refine (hg.perform _).next fun found => ?_
  cases found with
  | none => exact .throw _
  | some type => exact hg.now.next fun _ => alike_change hg _ _

theorem alike_applyMitigation (id valueId description : Value) :
    Op.Alike R Eq (applyMitigation g id valueId description)
      (applyMitigation h id valueId description) :=
  hg.now.next fun _ => alike_change hg _ _

theorem alike_updateStatus (enforced : Bool) (id status notes : Value) :
    Op.Alike R Eq (updateStatus g enforced id status notes)
      (updateStatus h enforced id status notes) :=
  .ite (.throw _) <| (alike_get hg id).next fun _ => (Op.Alike.ofExcept _).next fun _ =>
    .ite (.throw _) <| hg.now.next fun _ => (alike_change hg _ _).next fun _ => .pure rfl

theorem alike_evaluate (id : Value) : Op.Alike R Eq (evaluate g id) (evaluate h id) := by
  refine (alike_get hg id).next fun v => (hg.perform _).next fun found => ?_
  cases found with
  | none => exact .pure rfl
  | some rule => exact (alike_observationsOf hg _).next fun _ => .orElse _ _

end Vulnerabilities

namespace Assessments

theorem alike_recordDraft (p : Value) (observations : List Observation) (time : Value) :
    Op.Alike R Eq (recordDraft g p observations time) (recordDraft h p observations time) :=
  .ite ((Op.Alike.ofExcept _).next fun _ => hg.perform _) (hg.perform _)

theorem alike_get (id : Value) : Op.Alike R Eq (get g id) (get h id) := by
  refine (hg.perform _).next fun found => ?_
  cases found
  · exact .throw _
  · exact .pure rfl

theorem alike_resolve (source : AssessmentSource) :
    Op.Alike R Eq (resolve g source) (resolve h source) := by
  cases source with
  | stored id => exact alike_get hg id
  | record a => exact .pure rfl
  | draft d => exact alike_recordDraft hg _ _ _

theorem alike_stateAt (p time : Value) : Op.Alike R Eq (stateAt g p time) (stateAt h p time) :=
  (Op.Alike.ofExcept _).next fun _ => (hg.perform _).next fun _ => .pure rfl

end Assessments

namespace Catalogs

theorem alike_createObservationType (name kind description multiple : Value) :
    Op.Alike R Eq (createObservationType g name kind description multiple)
      (createObservationType h name kind description multiple) :=
  (Op.Alike.ofExcept _).next fun _ => hg.perform _

theorem alike_createObservationValue (typeId value description : Value) :
    Op.Alike R Eq (createObservationValue g typeId value description)
      (createObservationValue h typeId value description) :=
  (hg.perform _).next fun _ => .ite (.throw _) (hg.perform _)

theorem alike_createMitigationValue (typeId value description category : Value) :
    Op.Alike R Eq (createMitigationValue g typeId value description category)
      (createMitigationValue h typeId value description category) := by
  refine (hg.perform _).next fun found => ?_
  cases found with
  | none => exact .throw _
  | some type => exact (Op.Alike.ofExcept _).next fun _ => hg.perform _

end Catalogs

/-! ## Calls that list failures -/

/-- A failure of the same item. -/
structure ItemFailure.Alike (f f' : ItemFailure) : Prop where
  itemId : f.itemId = f'.itemId
  failure : f.failure.Alike f'.failure

omit hg in
theorem rel_of_same (failure? : Option StorageFailure) :
    Option.Rel StorageFailure.Alike failure? failure? := by
  cases failure? with
  | none => exact .none
  | some f => exact .some (.refl f)

omit hg in
/-- The failures of the same items, listed. -/
theorem failures_of_paired {α β : Type} {V : β → β → Prop} {os os' : List (α × β)}
    (ho : List.Forall₂ (Paired V) os os') (id : α → Value) {failure? : β → Option StorageFailure}
    (hf : ∀ o o', V o o' → Option.Rel StorageFailure.Alike (failure? o) (failure? o')) :
    List.Forall₂ ItemFailure.Alike
      (os.filterMap fun x => (failure? x.2).map (⟨id x.1, ·⟩))
      (os'.filterMap fun x => (failure? x.2).map (⟨id x.1, ·⟩)) := by
  refine List.rel_filterMap ?_ ho
  rintro ⟨x, o⟩ ⟨_, o'⟩ ⟨rfl, ho⟩
  show Option.Rel _ ((failure? o).map _) ((failure? o').map _)
  have hrel := hf o o' ho
  generalize failure? o = f?, failure? o' = f'? at hrel ⊢
  cases hrel with
  | none => exact .none
  | some hfailure => exact .some ⟨rfl, hfailure⟩

/-- What a batch came to is the same, and the failures that it lists are alike. -/
structure RuleUpdate.Alike (u u' : RuleUpdate) : Prop where
  errors : List.Forall₂ ItemFailure.Alike u.errors u'.errors
  rest : u' = { u with errors := u'.errors }

structure Reevaluation.Alike (r r' : Reevaluation) : Prop where
  errors : List.Forall₂ ItemFailure.Alike r.errors r'.errors
  rest : r' = { r with errors := r'.errors }

structure ProcessReport.Alike (r r' : ProcessReport) : Prop where
  errors : List.Forall₂ ItemFailure.Alike r.errors r'.errors
  rest : r' = { r with errors := r'.errors }

namespace Rules

inductive Outcome.Alike : Outcome → Outcome → Prop
  | same (o : Outcome) : Alike o o
  | failed {f f' : StorageFailure} : f.Alike f' → Alike (.failed f) (.failed f')

theorem alike_reconcile (tree : Criteria) (v : Vulnerability) :
    Op.Alike R Outcome.Alike (reconcile g tree v) (reconcile h tree v) := by
  refine (alike_observationsOf hg v.assessmentId).attempt.bind ?_
  rintro _ _ (⟨rfl⟩ | hf)
  · refine .ite (.pure (.same _)) ((Op.Alike.orElse _ _).next fun triggers =>
      .ite (.pure (.same _)) ((hg.perform (.deleteVulnerability v.id)).attempt.bind ?_))
    rintro _ _ (⟨rfl⟩ | hf)
    · split <;> exact .pure (.same _)
    · exact .pure (.failed hf)
  · exact .pure (.failed hf)

theorem alike_reconcileAll (tree : Criteria) (vs : List Vulnerability) :
    Op.Alike R (List.Forall₂ (Paired Outcome.Alike)) (reconcileAll g tree vs)
      (reconcileAll h tree vs) := by
  induction vs with
  | nil => exact .pure .nil
  | cons v rest ih =>
    refine (alike_reconcile hg tree v).bind fun o o' ho => ih.bind fun os os' hos => ?_
    exact .pure (.cons ⟨rfl, ho⟩ hos)

omit hg in
theorem forall₂_failures {os os' : List (Vulnerability × Outcome)}
    (ho : List.Forall₂ (Paired Outcome.Alike) os os') :
    List.Forall₂ ItemFailure.Alike (failures os) (failures os') := by
  refine List.rel_filterMap ?_ ho
  rintro ⟨v, o⟩ ⟨_, o'⟩ ⟨rfl, ho⟩
  cases ho with
  | failed hf => exact .some ⟨rfl, hf⟩
  | same =>
    cases o with
    | failed f => exact .some ⟨rfl, .refl f⟩
    | _ => exact .none

theorem alike_apply (current : Rule) (id : Value) (patch : RulePatch) (window : Option Window)
    (isActive : Option Bool) :
    Op.Alike R RuleUpdate.Alike (apply g current id patch window isActive)
      (apply h current id patch window isActive) := by
  have htree : Op.Alike R Eq (patch.tree.mapM (checkTree g)) (patch.tree.mapM (checkTree h)) := by
    cases patch.tree with
    | none => exact .pure rfl
    | some document => exact (alike_checkTree hg document).told some
  refine htree.next fun tree => (hg.perform _).next fun found =>
    (alike_reconcileAll hg _ found).bind fun os os' hos => (hg.perform _).next fun written => ?_
  have hremovals : removals os = removals os' :=
    countP_of_paired hos (· = .removed) fun _ _ ho => by cases ho <;> rfl
  cases written with
  | none => exact .throw _
  | some rule => exact .pure ⟨forall₂_failures hos, by rw [hremovals]⟩

theorem alike_update (id : Value) (patch : RulePatch) :
    Op.Alike R RuleUpdate.Alike (update g id patch) (update h id patch) := by
  refine .ite (.throw _) ((Op.Alike.ofExcept _).next fun _ => (alike_get hg id).next fun current =>
    (Op.Alike.ofExcept _).next fun window => ?_)
  split
  · exact alike_apply hg _ _ _ _ _
  · exact alike_apply hg _ _ _ _ _
  · exact .throw _

end Rules

namespace Vulnerabilities

inductive Finding.Alike : Finding → Finding → Prop
  | same (o : Finding) : Alike o o
  | failed {f f' : StorageFailure} : f.Alike f' → Alike (.failed f) (.failed f')
  | failedToRemove {f f' : StorageFailure} :
    f.Alike f' → Alike (.failedToRemove f) (.failedToRemove f')

theorem alike_reexamine (v : Vulnerability) :
    Op.Alike R Finding.Alike (reexamine g v) (reexamine h v) := by
  have hdiscard : Op.Alike R Finding.Alike (discard g v) (discard h v) := by
    refine (hg.perform (.deleteVulnerability v.id)).attempt.bind ?_
    rintro _ _ (⟨rfl⟩ | hf)
    · split <;> exact .pure (.same _)
    · exact .pure (.failedToRemove hf)
  refine (hg.perform (.getRule v.ruleId)).attempt.bind ?_
  rintro _ _ (⟨rfl⟩ | hf)
  · split
    · exact .pure (.same _)
    · exact .pure (.same _)
    · refine (alike_observationsOf hg v.assessmentId).attempt.bind ?_
      rintro _ _ (⟨rfl⟩ | hf)
      · exact .ite (.pure (.same _)) ((Op.Alike.orElse _ _).next fun triggers =>
          .ite (.pure (.same _)) hdiscard)
      · exact .pure (.failed hf)
  · exact .pure (.failed hf)

theorem alike_reexamineAll (vs : List Vulnerability) :
    Op.Alike R (List.Forall₂ (Paired Finding.Alike)) (reexamineAll g vs) (reexamineAll h vs) := by
  induction vs with
  | nil => exact .pure .nil
  | cons v rest ih =>
    refine (alike_reexamine hg v).bind fun o o' ho => ih.bind fun os os' hos => ?_
    exact .pure (.cons ⟨rfl, ho⟩ hos)

omit hg in
theorem summary_alike (p : Value) {os os' : List (Vulnerability × Finding)}
    (ho : List.Forall₂ (Paired Finding.Alike) os os') : (summary p os).Alike (summary p os') := by
  have hchecked : os.countP (·.2.isChecked) = os'.countP (·.2.isChecked) :=
    countP_of_paired ho _ fun _ _ ho => by cases ho <;> rfl
  have hremoved : os.countP (·.2 = .removed) = os'.countP (·.2 = .removed) :=
    countP_of_paired ho (· = .removed) fun _ _ ho => by cases ho <;> rfl
  have horphaned : (os.filter (·.2 = .orphaned)).map (·.1.id) =
      (os'.filter (·.2 = .orphaned)).map (·.1.id) :=
    items_of_paired ho (· = .orphaned) Vulnerability.id fun _ _ ho => by cases ho <;> rfl
  refine ⟨failures_of_paired ho Vulnerability.id fun o o' ho => ?_, ?_⟩
  · cases ho with
    | same => exact rel_of_same _
    | failed hf => exact .some hf
    | failedToRemove hf => exact .some hf
  · simp only [summary, hchecked, hremoved, horphaned]

theorem alike_reevaluate (p : Value) :
    Op.Alike R Reevaluation.Alike (reevaluate g p) (reevaluate h p) :=
  (hg.perform _).next fun vs => (alike_reexamineAll hg vs).bind fun _ _ ho =>
    .pure (summary_alike p ho)

end Vulnerabilities

namespace Assessments

inductive Verdict.Alike : Verdict → Verdict → Prop
  | same (o : Verdict) : Alike o o
  | failed {f f' : StorageFailure} : f.Alike f' → Alike (.failed f) (.failed f')
  | failedToCreate (id : Value) {f f' : StorageFailure} :
    f.Alike f' → Alike (.failedToCreate id f) (.failedToCreate id f')

theorem alike_open (dedupe : Bool) (a : Assessment) (rule : Rule) :
    Op.Alike R Eq (open_ g dedupe a rule) (open_ h dedupe a rule) := by
  have hcreate (existing : Option Vulnerability) :
      Op.Alike R Eq
        (if existing.isSome then pure none
          else some <$> Vulnerabilities.create g rule.id a.id a.propertyId .null)
        (if existing.isSome then pure none
          else some <$> Vulnerabilities.create h rule.id a.id a.propertyId .null) :=
    .ite (.pure rfl) ((Vulnerabilities.alike_create hg _ _ _ _).told _)
  unfold open_
  exact .ite ((Vulnerabilities.alike_findUnresolved hg _ _).next hcreate)
    ((Op.Alike.pure rfl).next hcreate)

theorem alike_judgeRule (dedupe : Bool) (a : Assessment) (rule : Rule) :
    Op.Alike R Verdict.Alike (judgeRule g dedupe a rule) (judgeRule h dedupe a rule) := by
  refine (Op.Alike.orElse _ _).next fun triggers => .ite ?_ (.pure (.same _))
  refine (alike_open hg dedupe a rule).attempt.bind ?_
  rintro _ _ (⟨rfl⟩ | hf)
  · split <;> exact .pure (.same _)
  · exact .pure (.failedToCreate _ hf)

theorem alike_examine (dedupe : Bool) (a : Assessment) (time : Option String) (candidate : Rule) :
    Op.Alike R Verdict.Alike (examine g dedupe a time candidate)
      (examine h dedupe a time candidate) := by
  refine (hg.perform (.getRule candidate.id)).attempt.bind ?_
  rintro _ _ (⟨rfl⟩ | hf)
  · split
    · exact .pure (.same _)
    · exact .pure (.same _)
    · exact (Op.Alike.ofExcept _).next fun _ => .ite (alike_judgeRule hg _ _ _) (.pure (.same _))
  · exact .pure (.failed hf)

theorem alike_examineAll (dedupe : Bool) (a : Assessment) (time : Option String)
    (candidates : List Rule) :
    Op.Alike R (List.Forall₂ (Paired Verdict.Alike)) (examineAll g dedupe a time candidates)
      (examineAll h dedupe a time candidates) := by
  induction candidates with
  | nil => exact .pure .nil
  | cons candidate rest ih =>
    refine (alike_examine hg dedupe a time candidate).bind fun o o' ho =>
      ih.bind fun os os' hos => ?_
    exact .pure (.cons ⟨rfl, ho⟩ hos)

omit hg in
theorem report_alike (id : Value) {os os' : List (Rule × Verdict)}
    (ho : List.Forall₂ (Paired Verdict.Alike) os os') : (report id os).Alike (report id os') := by
  have hevaluated : os.countP (·.2.isEvaluated) = os'.countP (·.2.isEvaluated) :=
    countP_of_paired ho _ fun _ _ ho => by cases ho <;> rfl
  have hskipped : os.countP (·.2.isSkipped) = os'.countP (·.2.isSkipped) :=
    countP_of_paired ho _ fun _ _ ho => by cases ho <;> rfl
  have htriggered : os.filterMap (·.2.triggered?) = os'.filterMap (·.2.triggered?) :=
    filterMap_of_paired ho _ fun _ _ ho => by cases ho <;> rfl
  have hcreated : os.filterMap (·.2.created?) = os'.filterMap (·.2.created?) :=
    filterMap_of_paired ho _ fun _ _ ho => by cases ho <;> rfl
  refine ⟨failures_of_paired ho Rule.id fun o o' ho => ?_, ?_⟩
  · cases ho with
    | same => exact rel_of_same _
    | failed hf => exact .some hf
    | failedToCreate _ hf => exact .some hf
  · simp only [report, hevaluated, hskipped, htriggered, hcreated]

theorem alike_process (dedupe : Bool) (source : AssessmentSource) :
    Op.Alike R ProcessReport.Alike (process g dedupe source) (process h dedupe source) :=
  (alike_resolve hg source).next fun a => (hg.perform _).next fun candidates =>
    (alike_examineAll hg dedupe a none candidates).bind fun _ _ ho => .pure (report_alike _ ho)

theorem alike_processAt (dedupe : Bool) (source : AssessmentSource) (time : Value) :
    Op.Alike R ProcessReport.Alike (processAt g dedupe source time)
      (processAt h dedupe source time) :=
  (alike_resolve hg source).next fun a => .ite (.throw _) <|
    (Op.Alike.ofExcept _).next fun _ => (hg.perform _).next fun candidates =>
      (alike_examineAll hg dedupe a _ candidates).bind fun _ _ ho => .pure (report_alike _ ho)

end Assessments

/-! ## All calls -/

/-- The same reply, but for the causes of the failures that it lists. -/
inductive Reply.Alike : Reply → Reply → Prop
  | same (r : Reply) : Alike r r
  | ruleUpdate {u u' : RuleUpdate} : u.Alike u' → Alike (.ruleUpdate u) (.ruleUpdate u')
  | reevaluation {r r' : Reevaluation} : r.Alike r' → Alike (.reevaluation r) (.reevaluation r')
  | report {r r' : ProcessReport} : r.Alike r' → Alike (.report r) (.report r')

theorem Call.alike (policy : Policy) (c : Call) :
    Op.Alike R Reply.Alike (c.run policy g) (c.run policy h) := by
  have same {α : Type} {x : Op σ α} {y : Op τ α} (f : α → Reply) (hx : Op.Alike R Eq x y) :
      Op.Alike R Reply.Alike (f <$> x) (f <$> y) :=
    hx.map f fun _ _ hab => hab ▸ .same _
  cases c with
  | getRule id => exact same _ (Rules.alike_get hg id)
  | listRules => exact same _ (hg.perform _)
  | checkTree tree => exact same _ (Rules.alike_checkTree hg tree)
  | createRule input => exact same _ (Rules.alike_create hg input)
  | updateRule id patch => exact (Rules.alike_update hg id patch).map _ fun _ _ => .ruleUpdate
  | deleteRule id => exact same _ (Rules.alike_delete hg id)
  | testRule tree cases => exact same _ (.ofExcept _)
  | previewRule id tree => exact same _ (Rules.alike_preview hg id tree)
  | renderRule id => exact same _ (Rules.alike_render hg id)
  | getVulnerability id => exact same _ (Vulnerabilities.alike_get hg id)
  | listForProperty p => exact same _ (hg.perform _)
  | findUnresolved ruleId p => exact same _ (Vulnerabilities.alike_findUnresolved hg ruleId p)
  | observationsOf id => exact same _ (alike_observationsOf hg id)
  | createVulnerability => exact same _ (Vulnerabilities.alike_create hg _ _ _ _)
  | mitigationOptions id => exact same _ (Vulnerabilities.alike_mitigationOptions hg id)
  | assignMitigationType => exact same _ (Vulnerabilities.alike_assignMitigationType hg _ _)
  | applyMitigation => exact same _ (Vulnerabilities.alike_applyMitigation hg _ _ _)
  | updateStatus => exact same _ (Vulnerabilities.alike_updateStatus hg _ _ _ _)
  | evaluateVulnerability id => exact same _ (Vulnerabilities.alike_evaluate hg id)
  | reevaluateProperty p =>
    exact (Vulnerabilities.alike_reevaluate hg p).map _ fun _ _ => .reevaluation
  | recordAssessment =>
    exact same _ ((Op.Alike.ofExcept _).next fun _ => Assessments.alike_recordDraft hg _ _ _)
  | getAssessment id => exact same _ (Assessments.alike_get hg id)
  | process source => exact (Assessments.alike_process hg _ source).map _ fun _ _ => .report
  | processAt source time =>
    exact (Assessments.alike_processAt hg _ source time).map _ fun _ _ => .report
  | stateAt => exact same _ (Assessments.alike_stateAt hg _ _)
  | createObservationType => exact same _ (Catalogs.alike_createObservationType hg _ _ _ _)
  | listObservationTypes => exact same _ (hg.perform _)
  | createObservationValue => exact same _ (Catalogs.alike_createObservationValue hg _ _ _)
  | createMitigationType => exact same _ (hg.perform _)
  | listMitigationTypes => exact same _ (hg.perform _)
  | createMitigationValue => exact same _ (Catalogs.alike_createMitigationValue hg _ _ _ _)

end Engine

end PropertyRisk
