import PropertyRisk.Http.Document
import PropertyRisk.Console.Workspace

/-!
# The HTTP service

A request is routed, read and carried out, and its reply is put into a document.
Every request is answered: an error has a document too, and a reply that its
document cannot hold is an internal error, although what was asked for has been
done.
-/

namespace PropertyRisk.Http

open Engine

def version : String := "0.1.0"

/-- The answer to a call that came back. -/
def replyResponse (status : Nat) (c : Call) (reply : Reply) : Response :=
  match reply with
  | .done => ⟨status, none⟩
  | reply =>
    match Document.ofReply c reply with
    | some v => Response.document status v
    | none => Response.internalError

/-- The answer to a call that failed. -/
def errorResponse (e : Error) : Response :=
  let code := e.code?.getD ""
  let message := e.message?.getD ""
  match e with
  | .invalid cause =>
    Response.failure 422 code message
      (if cause.problems.isEmpty then none else some (Value.joined "; " cause.problems))
  | .notFound .. => Response.failure 404 code message none
  | .storage failure =>
    Response.failure 503 code "The data store is unavailable." (some failure.operation.name)
  | .fault _ => Response.internalError

def healthResponse (available : Bool) : Response :=
  Response.document 200 <| .object
    [("status", .text (if available then "ok" else "degraded")), ("version", .text version),
      ("database", .text (if available then "ok" else "unavailable"))]

/-! ## Answering -/

/-- Record an assessment and process it, at its own time if asked to. -/
def recordAndProcess (policy : Policy) (g : Storage σ) (i : Form.Intake) : Op σ ProcessReport := do
  let a ← Assessments.recordDraft g (.int i.propertyId) i.observations (.ofText? i.assessedAt)
  if i.pointInTime then Assessments.processAt g policy.dedupe (.record a) .null
  else Assessments.process g policy.dedupe (.record a)

/-- Carry out a task. -/
def Task.run (policy : Policy) (g : Storage σ) (status : Nat) : Task → Op σ Response
  | .health => healthResponse <$> g.perform .ping
  | .call c => replyResponse status c <$> c.run policy g
  | .assess i => do
    let report ← recordAndProcess policy g i
    return replyResponse status (.process (.stored report.assessmentId)) (.report report)

/-- The answer to a request that is routed to an endpoint. -/
def serveAt (policy : Policy) (g : Storage σ) (e : Endpoint) (r : Request) (s : σ) :
    Response × σ :=
  match e.task r with
  | .error .malformed => (.malformed, s)
  | .error .unparsable => (.unparsable, s)
  | .ok task =>
    match (task.run policy g e.status).run s with
    | (.ok response, s) => (response, s)
    | (.error error, s) => (errorResponse error, s)

/-- The answer to a request, with its document. -/
def answer (policy : Policy) (g : Storage σ) (r : Request) (s : σ) : Response × σ :=
  match route r.method r.target.path with
  | .nowhere => (.notFound, s)
  | .methodNotAllowed => (.methodNotAllowed, s)
  | .redirected => (.redirected, s)
  | .endpoint e => serveAt policy g e r s

/-- Answer a request. -/
def serve (policy : Policy) (g : Storage σ) (r : Request) (s : σ) : Response × σ :=
  match answer policy g r s with
  | (response, s) => (response.forMethod r.method, s)

/-- How a service that is started for one request comes out. -/
inductive Session
  | served (r : Response)
  | misconfigured (problems : List SettingProblem)
deriving DecidableEq, Repr

/-- Answer a request on an open database. The tables of a database in memory that
is not shared are out of a request's sight. -/
def serveOn (policy : Policy) (location : Location) (r : Request) (g : Storage (World Tables)) :
    Op (World Tables) Response := do
  if location = .inMemory false then World.save Tables.gone
  fun s =>
    match serve policy g r s with
    | (response, s) => (.ok response, s)

/-- Start a service in a workspace, on the database of its settings, and answer
one request. -/
def serveOnce (r : Request) : Op (World Workspace) Session := do
  match (← World.stored).settings with
  | .error problems => return .misconfigured problems
  | .ok settings =>
    let location ← Op.orElse .fault (Location.ofAddress settings.databaseUrl)
    .served <$> World.inDatabase location (serveOn ⟨settings.dedupe, settings.enforced⟩ location r)

end PropertyRisk.Http
