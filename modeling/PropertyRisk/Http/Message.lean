import PropertyRisk.Http.Target
import PropertyRisk.Json.Reader
import PropertyRisk.Json.Strict
import PropertyRisk.Text.Capital
import PropertyRisk.Text.Encoding

/-!
# Requests and responses

A response is a status and a document, or no document. Whatever goes wrong is
told in one form of document, apart from targets that lead nowhere and bodies
that cannot be parsed.
-/

namespace PropertyRisk.Http

inductive Method
  | get
  | post
  | put
  | patch
  | delete
  /-- The response to it has no document. -/
  | head
  | other
deriving DecidableEq, Repr

/-- The method of a name, in any case. -/
def Method.ofName (s : String) : Method :=
  match Text.capitals s with
  | "GET" => .get
  | "POST" => .post
  | "PUT" => .put
  | "PATCH" => .patch
  | "DELETE" => .delete
  | "HEAD" => .head
  | _ => .other

structure Request where
  method : Method
  target : Target
  body : Option String
deriving DecidableEq, Repr

/-- Why a body has no document. -/
inductive BodyFlaw
  | malformed
  /-- It cannot be parsed at all: not decoded, or past the limits of a document. -/
  | unparsable
deriving DecidableEq, Repr

/-- The document in the body, a byte order mark before it aside. -/
def Request.document (r : Request) : Except BodyFlaw Value :=
  match r.body with
  | none => .error .malformed
  | some body =>
    match Text.decoded? body with
    | none => .error .unparsable
    | some text =>
      let read :=
        match text.toList with
        | '\ufeff' :: rest => Json.read (String.ofList rest)
        | _ => Json.read text
      match read with
      | .ok v => .ok v
      | .error .malformed => .error .malformed
      | .error _ => .error .unparsable

structure Response where
  status : Nat
  body : Option Value
deriving DecidableEq, Repr

namespace Response

/-- The document of an error. -/
def failureDocument (code message : String) (detail : Option String) : Value :=
  .object [("error", .object
    [("code", .text code), ("message", .text message), ("detail", .ofText? detail)])]

/-- What the caller is not to know more about. -/
def internalError : Response :=
  ⟨500, some (failureDocument "internal_error" "An unexpected error occurred." none)⟩

/-- A document, unless it has no strict form. -/
def document (status : Nat) (v : Value) : Response :=
  if Json.isStrict v then ⟨status, some v⟩ else internalError

def failure (status : Nat) (code message : String) (detail : Option String) : Response :=
  document status (failureDocument code message detail)

/-- A request whose parameters or document are not as they must be. -/
def malformed : Response := failure 422 "validation_error" "Request validation failed." none

def refusal (status : Nat) (detail : String) : Response :=
  ⟨status, some (.object [("detail", .text detail)])⟩

def unparsable : Response := refusal 400 "There was an error parsing the body"

def notFound : Response := refusal 404 "Not Found"

def methodNotAllowed : Response := refusal 405 "Method Not Allowed"

/-- A target that would lead somewhere without the slash at its end. -/
def redirected : Response := ⟨307, none⟩

/-- The response to a method; some methods get no document. -/
def forMethod (method : Method) (r : Response) : Response :=
  if method = .head then ⟨r.status, none⟩ else r

end Response

end PropertyRisk.Http
