import PropertyRisk.Proofs.Routes
import PropertyRisk.Proofs.Founded

/-!
# One document for every error

`errors_enveloped`: whatever is asked of the service, in whatever state and whatever
fails, an answer that tells of an error holds the document of an error, and its
status says which kind of error ended the call. Requests that the service turns down
before it reads them are apart: nothing is at their path, nothing for their method,
or their body cannot be parsed.
-/

namespace PropertyRisk

open Op (Triple)
open Engine (Policy Call Reply)

theorem Text.isWhole_append (s t : String) : isWhole (s ++ t) = (isWhole s && isWhole t) := by
  simp [isWhole, String.toList_append, List.all_append]

namespace Http

/-! ## Documents of errors -/

namespace Response

/-- Whatever is wrong is told in the document of an error. -/
def Enveloped (r : Response) : Prop :=
  400 ≤ r.status → ∃ code message detail, r.body = some (failureDocument code message detail)

theorem isStrict_failureDocument (code message : String) (detail : Option String) :
    Json.isStrict (failureDocument code message detail) =
      (Text.isWhole code && Text.isWhole message && detail.all Text.isWhole) := by
  have hnames : ["error", "code", "message", "detail"].all Text.isWhole = true := by decide +kernel
  simp only [List.all_cons, List.all_nil, Bool.and_true, Bool.and_eq_true] at hnames
  obtain ⟨herror, hcode, hmessage, hdetail⟩ := hnames
  cases detail <;>
    simp [failureDocument, Json.isStrict, Json.allFieldsStrict, Value.ofText?, herror, hcode,
      hmessage, hdetail, Bool.and_assoc]

theorem failure_eq {status : Nat} {code message : String} {detail : Option String}
    (hcode : Text.isWhole code) (hmessage : Text.isWhole message)
    (hdetail : detail.all Text.isWhole) :
    failure status code message detail = ⟨status, some (failureDocument code message detail)⟩ := by
  rw [failure, document, isStrict_failureDocument, hcode, hmessage, hdetail]
  rfl

theorem failure_eq_internal {status : Nat} {code message : String} {detail : Option String}
    (hmessage : Text.isWhole message = false) :
    failure status code message detail = internalError := by
  rw [failure, document, isStrict_failureDocument, hmessage, Bool.and_false, Bool.false_and]
  rfl

namespace Enveloped

theorem of_lt {r : Response} (h : r.status < 400) : r.Enveloped :=
  fun hge => absurd hge (Nat.not_le.mpr h)

theorem internalError : internalError.Enveloped := fun _ => ⟨_, _, _, rfl⟩

theorem document {status : Nat} (h : status < 400) (v : Value) :
    (Response.document status v).Enveloped := by
  unfold Response.document
  split
  · exact of_lt h
  · exact internalError

-- Where the words have no strict form, the error is an internal one, and told as such.
theorem failure (status : Nat) (code message : String) (detail : Option String) :
    (Response.failure status code message detail).Enveloped := by
  unfold Response.failure Response.document
  split
  · exact fun _ => ⟨code, message, detail, rfl⟩
  · exact internalError

end Enveloped

end Response

/-! ## What a request that is carried out is answered -/

theorem Endpoint.status_lt (e : Endpoint) : e.status < 400 := by
  unfold status
  split <;> decide

theorem enveloped_reply {status : Nat} (h : status < 400) (c : Call) (reply : Reply) :
    (replyResponse status c reply).Enveloped := by
  unfold replyResponse
  split
  · exact .of_lt h
  · split
    · exact .document h _
    · exact .internalError

theorem enveloped_error (e : Error) : (errorResponse e).Enveloped := by
  cases e with
  | invalid cause => exact .failure _ _ _ _
  | notFound => exact .failure _ _ _ _
  | storage => exact .failure _ _ _ _
  | fault => exact .internalError

section

variable {σ : Type} {g : Storage σ} {policy : Policy} {r : Request} {e : Endpoint} {s t : σ}

theorem enveloped_task {status : Nat} (h : status < 400) (task : Task) :
    Triple (task.run policy g status) s (fun response _ => response.Enveloped)
      (fun _ _ => True) := by
  have hall {α : Type} (x : Op σ α) (u : σ) : Triple x u (fun _ _ => True) (fun _ _ => True) :=
    .of_forall (fun _ _ _ => trivial) fun _ _ _ => trivial
  cases task with
  | health => exact .map _ ((hall _ s).mono (fun _ _ _ => .document (by decide) _) fun _ _ => id)
  | call c => exact .map _ ((hall _ s).mono (fun _ _ _ => enveloped_reply h c _) fun _ _ => id)
  | assess i => exact (hall _ s).bind fun _ _ _ => .pure (enveloped_reply h _ _)

theorem serveAt_error {task : Task} {err : Error} (ht : e.task r = .ok task)
    (hrun : (task.run policy g e.status).run s = (.error err, t)) :
    serveAt policy g e r s = (errorResponse err, t) := by
  simp only [serveAt, ht, hrun]

theorem enveloped_serveAt (h : e.task r ≠ .error .unparsable) :
    (serveAt policy g e r s).1.Enveloped := by
  cases ht : e.task r with
  | error flaw =>
    cases flaw with
    | malformed =>
      simp only [serveAt, ht]
      exact .failure _ _ _ _
    | unparsable => exact absurd ht h
  | ok task =>
    have htask : Triple (task.run policy g e.status) s (fun response _ => response.Enveloped)
        (fun _ _ => True) := enveloped_task e.status_lt task
    rcases hrun : (task.run policy g e.status).run s with ⟨err | response, t⟩
    · rw [serveAt_error ht hrun]
      exact enveloped_error err
    · simp only [serveAt, ht, hrun]
      exact htask.ok hrun

end

/-! ## Errors and their statuses -/

/-- The status that tells an error of its kind. -/
def statusOf : Error → Nat
  | .invalid _ => 422
  | .notFound .. => 404
  | .storage _ => 503
  | .fault _ => 500

/-- Whether what is told of an error can be encoded. -/
def isTellable : Error → Bool
  | .invalid cause => Text.isWhole cause.message
  | .notFound _ id => Text.isWhole id.plain
  | .storage _ | .fault _ => true

theorem isWhole_operation (operation : Operation) : Text.isWhole operation.name = true := by
  cases operation <;> decide +kernel

theorem isWhole_problems {cause : Invalid} (h : Text.isWhole cause.message = true) :
    Text.isWhole (Value.joined "; " cause.problems) = true := by
  unfold Invalid.message at h
  split at h
  · next hnone =>
    rw [hnone]
    rfl
  · rw [Text.isWhole_append, Bool.and_eq_true] at h
    exact h.2

/-- An error that can be told is told by its status, its code and its words. -/
theorem told_of_tellable {err : Error} (h : isTellable err) :
    ∃ message detail, errorResponse err =
      ⟨statusOf err, some (Response.failureDocument (err.code?.getD "internal_error") message
        detail)⟩ := by
  cases err with
  | invalid cause =>
    have hcode : Text.isWhole "validation_error" = true := by decide +kernel
    refine ⟨_, _, Response.failure_eq hcode h ?_⟩
    split
    · rfl
    · exact isWhole_problems h
  | notFound entity id =>
    have hcode : Text.isWhole (entity.name ++ "_not_found") = true := by
      cases entity <;> decide +kernel
    have htitle : Text.isWhole (entity.title ++ " ") = true := by
      cases entity <;> decide +kernel
    have hend : Text.isWhole " not found." = true := by decide +kernel
    refine ⟨_, none, Response.failure_eq hcode ?_ rfl⟩
    show Text.isWhole (entity.title ++ " " ++ id.plain ++ " not found.") = true
    have hid : Text.isWhole id.plain = true := h
    rw [Text.isWhole_append, Text.isWhole_append, htitle, hend, hid]
    rfl
  | storage failure =>
    have hcode : Text.isWhole "persistence_error" = true := by decide +kernel
    have hmessage : Text.isWhole "The data store is unavailable." = true := by decide +kernel
    exact ⟨_, _, Response.failure_eq hcode hmessage (isWhole_operation failure.operation)⟩
  | fault => exact ⟨_, _, rfl⟩

/-- An error whose words cannot be encoded is told as one that is internal. -/
theorem internal_of_untellable {err : Error} (h : isTellable err = false) :
    errorResponse err = .internalError := by
  cases err with
  | invalid cause => exact Response.failure_eq_internal h
  | notFound entity id =>
    refine Response.failure_eq_internal ?_
    show Text.isWhole (entity.title ++ " " ++ id.plain ++ " not found.") = false
    have hid : Text.isWhole id.plain = false := h
    rw [Text.isWhole_append, Text.isWhole_append, hid, Bool.and_false, Bool.false_and]
  | storage => exact Bool.noConfusion h
  | fault => rfl

/-! ## Every request -/

/-- The service turns the request down before it is read: nothing is at its path, or
nothing for its method, or its body cannot be parsed. -/
def Request.TurnedDown (r : Request) : Prop :=
  match route r.method r.target.path with
  | .nowhere | .methodNotAllowed => True
  | .redirected => False
  | .endpoint e => e.task r = .error .unparsable

section

variable {σ : Type} {g : Storage σ} {policy : Policy} {r : Request} {e : Endpoint} {s : σ}

/-- A request that reaches an endpoint gets all of its answer. -/
theorem serve_endpoint (h : route r.method r.target.path = .endpoint e) :
    serve policy g r s = serveAt policy g e r s := by
  have hmethod : r.method ≠ .head := fun hm => route_head _ e (hm ▸ h)
  simp only [serve, answer, h, Response.forMethod, hmethod, if_false]

theorem enveloped_serve (h : ¬r.TurnedDown) : (serve policy g r s).1.Enveloped := by
  unfold Request.TurnedDown at h
  cases hroute : route r.method r.target.path with
  | endpoint e =>
    rw [hroute] at h
    rw [serve_endpoint hroute]
    exact enveloped_serveAt h
  | redirected =>
    simp only [serve, answer, hroute, Response.forMethod]
    split <;> exact .of_lt (by decide)
  | methodNotAllowed => exact absurd (by rw [hroute]; trivial) h
  | nowhere => exact absurd (by rw [hroute]; trivial) h

end

/-- An error has the one document, unless the request was turned down. An error that
ends a call is told by the status of its kind, or as an internal one where its words
cannot be encoded. -/
theorem errors_enveloped {σ : Type} (policy : Policy) (g : Storage σ) (r : Request) (s : σ) :
    (¬r.TurnedDown → (serve policy g r s).1.Enveloped) ∧
      ∀ e task err t, route r.method r.target.path = .endpoint e → e.task r = .ok task →
        (task.run policy g e.status).run s = (.error err, t) →
        (isTellable err → ∃ message detail, serve policy g r s =
          (⟨statusOf err, some (Response.failureDocument (err.code?.getD "internal_error")
            message detail)⟩, t)) ∧
        (isTellable err = false → serve policy g r s = (.internalError, t)) := by
  refine ⟨enveloped_serve, ?_⟩
  intro e task err t hroute htask hrun
  rw [serve_endpoint hroute, serveAt_error htask hrun]
  constructor
  · intro htell
    obtain ⟨message, detail, htold⟩ := told_of_tellable htell
    exact ⟨message, detail, by rw [htold]⟩
  · intro htell
    rw [internal_of_untellable htell]

/-- A rule is asked for that nobody has created. -/
def ruleWanted : Request := ⟨.get, ⟨"/api/v1/rules/leak", []⟩, none⟩

theorem route_ruleWanted :
    route ruleWanted.method ruleWanted.target.path = .endpoint (.getRule "leak") := by
  rw [ruleWanted, route, Endpoint.ofPath_of_words ["rules", "leak"] (by decide +kernel)
    (by decide +kernel) (by decide)]
  rfl

theorem rule_not_found :
    (serve {} Backing.tables.storage ruleWanted (Backing.start .tables)).1.Enveloped ∧
    ∃ message detail, serve {} Backing.tables.storage ruleWanted (Backing.start .tables) =
      (⟨404, some (Response.failureDocument "rule_not_found" message detail)⟩,
        Backing.start .tables) := by
  have hall := errors_enveloped {} Backing.tables.storage ruleWanted (Backing.start .tables)
  refine ⟨hall.1 ?_, (hall.2 _ (.call (.getRule (.text "leak"))) (.notFound .rule (.text "leak"))
    _ route_ruleWanted rfl rfl).1 (by decide +kernel)⟩
  unfold Request.TurnedDown
  rw [route_ruleWanted]
  exact nofun

/-- A path at which there is nothing. -/
def nowhere : Request := ⟨.get, ⟨"/api/v1/nowhere", []⟩, none⟩

theorem nowhere_bare :
    (serve {} Backing.tables.storage nowhere (Backing.start .tables)).1 =
        ⟨404, some (.object [("detail", .text "Not Found")])⟩ ∧
      ¬(serve {} Backing.tables.storage nowhere (Backing.start .tables)).1.Enveloped := by
  have hroute : route nowhere.method nowhere.target.path = .nowhere := by
    rw [nowhere, route, Endpoint.ofPath_of_words ["nowhere"] (by decide +kernel)
      (by decide +kernel) (by decide)]
    decide +kernel
  have hserve : (serve {} Backing.tables.storage nowhere (Backing.start .tables)).1 =
      .notFound := by
    simp only [serve, answer, hroute]
    rfl
  rw [hserve]
  refine ⟨rfl, fun h => ?_⟩
  obtain ⟨code, message, detail, hbody⟩ := h (by decide)
  simp [Response.notFound, Response.refusal, Response.failureDocument] at hbody

end Http

end PropertyRisk
