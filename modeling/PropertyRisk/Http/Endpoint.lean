import PropertyRisk.Http.Message

/-!
# Endpoints

An endpoint is reached by a path and a method. A path that other methods are for
is told apart from one that leads nowhere, and from one with slashes too many at
its end.
-/

namespace PropertyRisk.Http

inductive Endpoint
  | health
  | createRule
  | listRules
  | testRule
  | getRule (id : String)
  | updateRule (id : String)
  | deleteRule (id : String)
  | previewRule (id : String)
  | renderRule (id : String)
  | recordAssessment
  | process (id : String)
  | processAt (id : String)
  | getVulnerability (id : String)
  | mitigationOptions (id : String)
  | assignMitigationType (id : String)
  | applyMitigation (id : String)
  | updateStatus (id : String)
  | listForProperty (propertyId : String)
  | reevaluateProperty (propertyId : String)
  | createObservationType
  | listObservationTypes
  | createObservationValue
  | createMitigationType
  | listMitigationTypes
  | createMitigationValue
deriving DecidableEq, Repr

namespace Endpoint

/-- What the methods do on one rule. -/
def onRule (id : String) : List (Method × Endpoint) :=
  [(.get, .getRule id), (.patch, .updateRule id), (.delete, .deleteRule id)]

/-- The endpoints at a path that ends in a word of its own, none of whose
segments is empty. -/
def atWord : List String → List (Method × Endpoint)
  | ["health"] => [(.get, .health)]
  | ["rules"] => [(.post, .createRule), (.get, .listRules)]
  | ["rules", "test"] => [(.post, .testRule)]
  | ["rules", id, "preview"] => [(.post, .previewRule id)]
  | ["rules", id, "readable"] => [(.get, .renderRule id)]
  | ["assessments"] => [(.post, .recordAssessment)]
  | ["assessments", id, "process"] => [(.post, .process id)]
  | ["assessments", id, "process-at"] => [(.post, .processAt id)]
  | ["vulnerabilities", id, "mitigation-options"] => [(.get, .mitigationOptions id)]
  | ["vulnerabilities", id, "mitigation-type"] => [(.put, .assignMitigationType id)]
  | ["vulnerabilities", id, "mitigation"] => [(.post, .applyMitigation id)]
  | ["vulnerabilities", id, "status"] => [(.patch, .updateStatus id)]
  | ["properties", id, "vulnerabilities"] => [(.get, .listForProperty id)]
  | ["properties", id, "reevaluate"] => [(.post, .reevaluateProperty id)]
  | ["catalog", "observation-types"] =>
    [(.post, .createObservationType), (.get, .listObservationTypes)]
  | ["catalog", "observation-values"] => [(.post, .createObservationValue)]
  | ["catalog", "mitigation-types"] => [(.post, .createMitigationType), (.get, .listMitigationTypes)]
  | ["catalog", "mitigation-values"] => [(.post, .createMitigationValue)]
  | _ => []

/-- The endpoints at a path that ends in an id. -/
def atId : List String → List (Method × Endpoint)
  | ["rules", id] => onRule id
  | ["vulnerabilities", id] => [(.get, .getVulnerability id)]
  | _ => []

/-- A path without one line end at its end. -/
def withoutLineEnd (path : String) : String :=
  if path.endsWith "\n" then String.ofList path.toList.dropLast else path

/-- The segments of a path below the root of all endpoints, none of them empty. -/
def segments (path : String) : List String :=
  match path.splitOn "/" with
  | "" :: "api" :: "v1" :: segments => if segments.contains "" then [] else segments
  | _ => []

/-- The endpoints at a path. A line end after the last word does not matter; at
the end of an id it is part of it. -/
def ofPath (path : String) : List (Method × Endpoint) :=
  atWord (segments (withoutLineEnd path)) ++ atId (segments path)

/-- The status of an answer that found nothing wrong. -/
def status : Endpoint → Nat
  | createRule | recordAssessment | createObservationType | createObservationValue
  | createMitigationType | createMitigationValue => 201
  | deleteRule _ => 204
  | _ => 200

end Endpoint

/-- Where a method and a path lead. -/
inductive Routing
  | endpoint (e : Endpoint)
  | methodNotAllowed
  | redirected
  | nowhere
deriving DecidableEq, Repr

def withoutSlashes (path : String) : String :=
  String.ofList (path.toList.reverse.dropWhile (· == '/')).reverse

def route (method : Method) (path : String) : Routing :=
  match Endpoint.ofPath path with
  | [] =>
    if path.endsWith "/" && !(Endpoint.ofPath (withoutSlashes path)).isEmpty then .redirected
    else .nowhere
  | endpoints =>
    match endpoints.lookup method with
    | some e => .endpoint e
    | none => .methodNotAllowed

end PropertyRisk.Http
