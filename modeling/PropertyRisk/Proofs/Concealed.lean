import PropertyRisk.Proofs.Alike
import PropertyRisk.Proofs.Contracts
import PropertyRisk.Proofs.Envelopes

/-!
# What a client learns of the causes of failures

`causes_concealed`: let the same requests be made of two services in the same state,
and let the same requests of their storage fail, for causes that may differ. Then the
responses are the same, apart from the messages of the items that a response lists as
failed. So an error that ends a call never tells its cause.
-/

namespace PropertyRisk

namespace Http

open Engine (Policy Call Reply ItemFailure ProcessReport)

/-! ## Documents without the messages of failed items -/

/-- A failed item without its message. -/
def redactItem : Value → Value
  | .object fields => .object (fields.filter (·.1 ≠ "message"))
  | v => v

/-- A list of failed items without their messages. -/
def redactItems : Value → Value
  | .list items => .list (items.map redactItem)
  | v => v

/-- A document without the messages of the items that it lists as failed. -/
def redact : Value → Value
  | .object fields =>
    .object (fields.map fun (name, v) => (name, if name = "errors" then redactItems v else v))
  | v => v

/-- Whether a document lists items as failed. -/
def listsFailures : Value → Bool
  | .object fields => fields.any fun (name, v) =>
      name == "errors" && match v with
        | .list items => !items.isEmpty
        | _ => false
  | _ => false

/-- The same document, but for the messages of the items that it lists as failed. -/
structure DocumentAlike (d d' : Value) : Prop where
  redacted : redact d = redact d'
  strict : Json.isStrict d = Json.isStrict d'
  unlisted : listsFailures d = false → d = d'

theorem DocumentAlike.refl (d : Value) : DocumentAlike d d := ⟨rfl, rfl, fun _ => rfl⟩

/-- The same response, but for the messages of the items that it lists as failed. -/
structure Response.Alike (r r' : Response) : Prop where
  status : r.status = r'.status
  redacted : r.body.map redact = r'.body.map redact
  unlisted : r.body.any listsFailures = false → r = r'

theorem Response.Alike.refl (r : Response) : r.Alike r := ⟨rfl, rfl, fun _ => rfl⟩

theorem Response.Alike.document {d d' : Value} (h : DocumentAlike d d') (status : Nat) :
    (Response.document status d).Alike (Response.document status d') := by
  unfold Response.document
  rw [h.strict]
  split
  · exact ⟨rfl, congrArg some h.redacted, fun hd => by rw [h.unlisted hd]⟩
  · exact .refl _

theorem Response.Alike.forMethod {r r' : Response} (h : r.Alike r') (method : Method) :
    (r.forMethod method).Alike (r'.forMethod method) := by
  unfold Response.forMethod
  split
  · rw [h.status]
    exact .refl _
  · exact h

/-! ## Documents of replies that are alike -/

/-- What is kept of a failed item without its message. -/
structure ItemAlike (d d' : Value) : Prop where
  redacted : redactItem d = redactItem d'
  strict : Json.isStrict d = Json.isStrict d'

theorem itemFailure_alike {f f' : ItemFailure} (h : f.Alike f') :
    Option.Rel ItemAlike (Document.itemFailure f) (Document.itemFailure f') := by
  have heq (f : ItemFailure) : Document.itemFailure f = (Form.text f.itemId).map fun s =>
      .object [("item_id", .text s), ("message", .text f.failure.message)] := by
    cases hid : Form.text f.itemId <;>
      simp [Document.itemFailure, Document.object, Document.text, hid]
  rw [heq, heq, h.itemId]
  cases Form.text f'.itemId with
  | none => exact .none
  | some s =>
    refine .some ⟨by simp [redactItem], ?_⟩
    simp only [Json.isStrict, Json.allFieldsStrict, h.failure.encodable]

theorem mapM_alike {errors errors' : List ItemFailure}
    (h : List.Forall₂ ItemFailure.Alike errors errors') :
    Option.Rel (List.Forall₂ ItemAlike) (errors.mapM Document.itemFailure)
      (errors'.mapM Document.itemFailure) := by
  induction h with
  | nil => exact .some .nil
  | @cons f f' rest rest' hf _ ih =>
    rw [List.mapM_cons, List.mapM_cons]
    have hitem := itemFailure_alike hf
    cases hd : Document.itemFailure f <;> cases hd' : Document.itemFailure f' <;>
      rw [hd, hd'] at hitem <;> cases hitem
    · exact .none
    · cases hds : rest.mapM Document.itemFailure <;>
        cases hds' : rest'.mapM Document.itemFailure <;> rw [hds, hds'] at ih <;> cases ih
      · exact .none
      · exact .some (.cons ‹_› ‹_›)

theorem redactItems_alike {items items' : List Value} (h : List.Forall₂ ItemAlike items items') :
    items.map redactItem = items'.map redactItem ∧
      Json.allStrict items = Json.allStrict items' := by
  induction h with
  | nil => exact ⟨rfl, rfl⟩
  | cons hi _ ih => simp [Json.allStrict, hi.redacted, hi.strict, ih]

theorem allFieldsStrict_append (fields fields' : List (String × Value)) :
    Json.allFieldsStrict (fields ++ fields') =
      (Json.allFieldsStrict fields && Json.allFieldsStrict fields') := by
  induction fields with
  | nil => rfl
  | cons p rest ih => simp [Json.allFieldsStrict, ih, Bool.and_assoc]

theorem documentAlike_errors (fs : List (String × Value)) {items items' : List Value}
    (h : List.Forall₂ ItemAlike items items') :
    DocumentAlike (.object (fs ++ [("errors", .list items)]))
      (.object (fs ++ [("errors", .list items')])) := by
  obtain ⟨hredacted, hstrict⟩ := redactItems_alike h
  refine ⟨?_, ?_, ?_⟩
  · simp [redact, redactItems, hredacted]
  · simp only [Json.isStrict, allFieldsStrict_append, Json.allFieldsStrict, hstrict]
  · intro hnone
    cases h with
    | nil => rfl
    | cons => simp [listsFailures] at hnone

/-- Only the failures differ, and they stand last. -/
theorem object_alike (fields : List Document.Field) {errors errors' : List ItemFailure}
    (h : List.Forall₂ ItemFailure.Alike errors errors') :
    Option.Rel DocumentAlike
      (Document.object (fields ++ [("errors", Document.list Document.itemFailure errors)]))
      (Document.object (fields ++ [("errors", Document.list Document.itemFailure errors')])) := by
  have hitems := mapM_alike h
  simp only [Document.object, Document.list, List.mapM_append]
  generalize List.mapM (m := Option) _ fields = fields?
  cases fields? with
  | none => exact .none
  | some fs =>
    cases hds : errors.mapM Document.itemFailure <;>
      cases hds' : errors'.mapM Document.itemFailure <;> rw [hds, hds'] at hitems <;> cases hitems
    · exact .none
    · exact .some (documentAlike_errors fs ‹_›)

theorem ofReply_alike (c : Call) {reply reply' : Reply} (h : reply.Alike reply') :
    Option.Rel DocumentAlike (Document.ofReply c reply) (Document.ofReply c reply') := by
  cases h with
  | same =>
    cases Document.ofReply c reply with
    | none => exact .none
    | some d => exact .some (.refl d)
  | @ruleUpdate u u' hu =>
    obtain ⟨errors, rfl⟩ : ∃ errors, u' = { u with errors } := ⟨_, hu.rest⟩
    exact object_alike [("rule", Document.rule u.rule),
      ("vulnerabilities_removed", Document.count u.removed)] hu.errors
  | @reevaluation r r' hr =>
    obtain ⟨errors, rfl⟩ : ∃ errors, r' = { r with errors } := ⟨_, hr.rest⟩
    exact object_alike [("property_id", Document.whole r.propertyId),
      ("checked", Document.count r.checked), ("removed", Document.count r.removed),
      ("orphaned", Document.list Document.text r.orphaned)] hr.errors
  | @report r r' hr =>
    obtain ⟨errors, rfl⟩ : ∃ errors, r' = { r with errors } := ⟨_, hr.rest⟩
    exact object_alike [("assessment_id", Document.text r.assessmentId),
      ("rules_evaluated", Document.count r.evaluated),
      ("triggered_rule_ids", Document.list Document.text r.triggered),
      ("created", Document.list Document.vulnerability r.created),
      ("skipped", Document.count r.skipped)] hr.errors

theorem replyResponse_of_ne {status : Nat} {c : Call} {reply : Reply} (h : reply ≠ .done) :
    replyResponse status c reply =
      (Document.ofReply c reply).elim .internalError (Response.document status) := by
  unfold replyResponse
  split
  · exact absurd rfl h
  · cases Document.ofReply c reply <;> rfl

theorem replyResponse_alike (status : Nat) (c : Call) {reply reply' : Reply}
    (h : reply.Alike reply') :
    (replyResponse status c reply).Alike (replyResponse status c reply') := by
  by_cases hdone : reply = .done
  · cases h <;> cases hdone
    exact .refl _
  · have hdone' : reply' ≠ .done := by
      cases h with
      | same => exact hdone
      | _ => exact nofun
    rw [replyResponse_of_ne hdone, replyResponse_of_ne hdone']
    generalize Document.ofReply c reply = d, Document.ofReply c reply' = d', ofReply_alike c h = hd
    cases hd with
    | none => exact .refl _
    | some hd => exact .document hd status

theorem errorResponse_alike {e e' : Error} (h : e.Alike e') :
    errorResponse e = errorResponse e' := by
  cases h with
  | same => rfl
  | storage hf => simp only [errorResponse, Error.code?, hf.operation]

/-! ## Requests -/

section

variable {σ τ : Type} {R : σ → τ → Prop} {g : Storage σ} {h : Storage τ} (hg : g.Alike R h)
include hg

theorem alike_recordAndProcess (policy : Policy) (i : Form.Intake) :
    Op.Alike R ProcessReport.Alike (recordAndProcess policy g i) (recordAndProcess policy h i) :=
  (Engine.Assessments.alike_recordDraft hg _ _ _).next fun _ =>
    .ite (Engine.Assessments.alike_processAt hg _ _ _) (Engine.Assessments.alike_process hg _ _)

theorem alike_task (policy : Policy) (status : Nat) (task : Task) :
    Op.Alike R Response.Alike (task.run policy g status) (task.run policy h status) := by
  cases task with
  | health => exact (hg.perform .ping).map _ fun _ _ hab => hab ▸ .refl _
  | call c => exact (c.alike hg policy).map _ fun _ _ => replyResponse_alike status c
  | assess i =>
    refine (alike_recordAndProcess hg policy i).bind fun r r' hr => .pure ?_
    have hid : r'.assessmentId = r.assessmentId := by rw [hr.rest]
    rw [hid]
    exact replyResponse_alike status _ (.report hr)

theorem alike_serve (policy : Policy) (r : Request) {s : σ} {t : τ} (hs : R s t) :
    (serve policy g r s).1.Alike (serve policy h r t).1 ∧
      R (serve policy g r s).2 (serve policy h r t).2 := by
  cases hroute : route r.method r.target.path with
  | nowhere => simpa only [serve, answer, hroute] using ⟨.refl _, hs⟩
  | methodNotAllowed => simpa only [serve, answer, hroute] using ⟨.refl _, hs⟩
  | redirected => simpa only [serve, answer, hroute] using ⟨.refl _, hs⟩
  | endpoint e =>
    rw [serve_endpoint hroute, serve_endpoint hroute]
    cases ht : e.task r with
    | error flaw =>
      simp only [serveAt, ht]
      cases flaw <;> exact ⟨.refl _, hs⟩
    | ok task =>
      obtain ⟨hend, hr⟩ := alike_task hg policy e.status task s t hs
      simp only [serveAt, ht]
      rcases hrun : (task.run policy g e.status).run s with ⟨a, s'⟩
      rcases hrun' : (task.run policy h e.status).run t with ⟨b, t'⟩
      rw [hrun, hrun'] at hend hr
      cases hend with
      | ok hv => exact ⟨hv, hr⟩
      | error he =>
        -- the response to a failure of the storage names the operation and nothing else
        refine ⟨?_, hr⟩
        show (errorResponse _).Alike (errorResponse _)
        rw [errorResponse_alike he]
        exact .refl _

end

/-- Answer requests one after another. -/
def serveAll (policy : Policy) (g : Storage σ) : List Request → σ → List Response × σ
  | [], s => ([], s)
  | r :: rest, s =>
    let (response, s) := serve policy g r s
    let (responses, s) := serveAll policy g rest s
    (response :: responses, s)

theorem alike_serveAll {R : σ → τ → Prop} {g : Storage σ} {h : Storage τ} (hg : g.Alike R h)
    (policy : Policy) (requests : List Request) {s : σ} {t : τ} (hs : R s t) :
    List.Forall₂ Response.Alike (serveAll policy g requests s).1
        (serveAll policy h requests t).1 ∧
      R (serveAll policy g requests s).2 (serveAll policy h requests t).2 := by
  induction requests generalizing s t with
  | nil => exact ⟨.nil, hs⟩
  | cons r rest ih =>
    obtain ⟨hresponse, hr⟩ := alike_serve hg policy r hs
    obtain ⟨hresponses, hend⟩ := ih hr
    exact ⟨.cons hresponse hresponses, hend⟩

end Http

/-! ## Failures on a schedule -/

/-- What befalls a request is the same, but for the cause of a failure. -/
inductive Storage.Mishap.Alike : Mishap → Mishap → Prop
  | passes : Alike .passes .passes
  | fails {f f' : StorageFailure} : f.Alike f' → Alike (.fails f) (.fails f')
  | failsAfter {f f' : StorageFailure} : f.Alike f' → Alike (.failsAfter f) (.failsAfter f')

open Storage (Mishap)

/-- The same state, and schedules of the same failures. -/
def SameButCauses (p q : σ × List Mishap) : Prop :=
  p.1 = q.1 ∧ List.Forall₂ Mishap.Alike p.2 q.2

theorem Alike.same (r : Except Error α) : Alike Eq r r := by
  cases r with
  | ok a => exact .ok rfl
  | error e => exact .error (.same e)

theorem Storage.faulty_alike (g : Storage σ) : g.faulty.Alike SameButCauses g.faulty where
  now := by
    rintro ⟨s, plan⟩ ⟨_, plan'⟩ ⟨rfl, hplan⟩
    exact ⟨.same _, rfl, hplan⟩
  perform r := by
    rintro ⟨s, plan⟩ ⟨_, plan'⟩ ⟨rfl, hplan⟩
    cases hplan with
    | nil => exact ⟨.same _, rfl, .nil⟩
    | cons hm hrest =>
      cases hm with
      | passes => exact ⟨.same _, rfl, hrest⟩
      | fails hf => exact ⟨.error (.storage hf), rfl, hrest⟩
      | failsAfter hf => exact ⟨.error (.storage hf), rfl, hrest⟩

namespace Http

open Engine (Policy)

/-- Whatever is asked, and whatever fails: of the causes of failures, responses tell
nothing except in the messages of the items that they list as failed. -/
theorem causes_concealed (policy : Policy) (g : Storage σ) (requests : List Request) (s : σ)
    {plan plan' : List Mishap} (h : List.Forall₂ Mishap.Alike plan plan') :
    List.Forall₂ Response.Alike (serveAll policy g.faulty requests (s, plan)).1
      (serveAll policy g.faulty requests (s, plan')).1 := by
  have hs : SameButCauses (s, plan) (s, plan') := ⟨rfl, h⟩
  exact (alike_serveAll g.faulty_alike policy requests hs).1

/-! ## A vulnerability that is not written -/

/-- Process the assessment of the small store. -/
def processWanted : Request := ⟨.post, ⟨"/api/v1/assessments/a/process", []⟩, none⟩

/-- The first vulnerability is not written, for a cause. -/
def unwritten (cause : StorageCause) : List Mishap :=
  List.replicate 3 .passes ++ [.fails ⟨.createVulnerability, cause⟩]

theorem alike_unwritten :
    List.Forall₂ Mishap.Alike (unwritten .unstated) (unwritten (.stated "disk full")) := by
  refine List.rel_append ?_ (.cons (.fails ⟨rfl, by decide +kernel⟩) .nil)
  exact List.forall₂_same.mpr fun m hm => by rw [List.eq_of_mem_replicate hm]; exact .passes

theorem route_processWanted :
    route processWanted.method processWanted.target.path = .endpoint (.process "a") := by
  rw [processWanted, route, Endpoint.ofPath_of_words ["assessments", "a", "process"]
    (by decide +kernel) (by decide +kernel) (by decide)]
  rfl

theorem unwritten_concealed :
    List.Forall₂ Mishap.Alike (unwritten .unstated) (unwritten (.stated "disk full")) ∧
      List.Forall₂ Response.Alike
        (serveAll { dedupe := false } Backing.memory.storage.faulty [processWanted]
          (Backing.leaks, unwritten .unstated)).1
        (serveAll { dedupe := false } Backing.memory.storage.faulty [processWanted]
          (Backing.leaks, unwritten (.stated "disk full"))).1 :=
  ⟨alike_unwritten, causes_concealed { dedupe := false } _ _ _ alike_unwritten⟩

/-- The failed items that a response lists. -/
def Response.failures? (r : Response) : Option Value := r.body.bind (Value.get? "errors")

theorem cause_told :
    List.Forall₂ Mishap.Alike (unwritten .unstated) (unwritten (.stated "disk full")) ∧
      (serve { dedupe := false } Backing.memory.storage.faulty processWanted
          (Backing.leaks, unwritten .unstated)).1.failures? =
        some (.list [.object [("item_id", .text "leak"),
          ("message", .text "Storage operation 'create_vulnerability' failed")]]) ∧
      (serve { dedupe := false } Backing.memory.storage.faulty processWanted
          (Backing.leaks, unwritten (.stated "disk full"))).1.failures? =
        some (.list [.object [("item_id", .text "leak"),
          ("message", .text "Storage operation 'create_vulnerability' failed: disk full")]]) := by
  refine ⟨alike_unwritten, ?_⟩
  rw [serve_endpoint route_processWanted, serve_endpoint route_processWanted]
  decide +kernel

end Http

end PropertyRisk
