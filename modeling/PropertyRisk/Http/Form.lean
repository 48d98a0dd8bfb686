import PropertyRisk.Engine.Call
import PropertyRisk.Settings
import PropertyRisk.Http.Endpoint
import PropertyRisk.Number.Whole

/-!
# Forms

A form reads the document of a request, field by field. It is generous with
kinds: a whole number may be written as a text, a flag as a word or a number.
Texts stand for texts only, and hold no half of a surrogate pair; where they are
trimmed, their length counts after that. Fields that no form names are passed
over.
-/

namespace PropertyRisk.Http

open Engine

namespace Form

abbrev Fields := List (String × Value)

/-! ## Values -/

def text : Value → Option String
  | .text s => if Text.isWhole s then some s else none
  | _ => none

/-- A text of at least `least` characters. -/
def atLeast (least : Nat) (s : String) : Option String :=
  if least ≤ s.length then some s else none

/-- A text of at most `most` characters. -/
def atMost (most : Nat) (s : String) : Option String :=
  if s.length ≤ most then some s else none

def trimmed (v : Value) : Option String := (text v).map Text.trimSpace

/-- A trimmed text that is not empty. -/
def filled (v : Value) : Option String := (trimmed v).bind (atLeast 1)

/-- A trimmed text of one line's length. -/
def label (v : Value) : Option String := (filled v).bind (atMost 255)

/-- A trimmed text of a paragraph's length. -/
def remark (v : Value) : Option String := (trimmed v).bind (atMost 2000)

def flag : Value → Option Bool
  | .bool b => some b
  | .text s => Settings.readFlag? s
  | .int n => ofNumber n
  | .float x => x.toInt?.bind ofNumber
  | _ => none
where
  ofNumber (n : Int) : Option Bool :=
    if n = 0 then some false else if n = 1 then some true else none

/-- Drop the zeros in front of a number, with underscores among them, up to its
first other digit or its sign; one zero before a point or at the end stays. -/
def dropLeadingZeros : List Char → Option (List Char)
  | '0' :: rest => go '0' rest
  | c :: rest => if isStart c then some (c :: rest) else none
  | [] => none
where
  isStart (c : Char) : Bool := c == '-' || ('1' ≤ c && c ≤ '9')
  go (before : Char) : List Char → Option (List Char)
    | [] => some [before]
    | c :: rest =>
      if c == '0' || c == '_' then go c rest
      else if isStart c then some (c :: rest)
      else if c == '.' then some (before :: '.' :: rest)
      else none

/-- Drop a point with nothing but zeros after it, at least one of them. -/
def dropZeroFraction (cs : List Char) : List Char :=
  match cs.span (· != '.') with
  | (whole, _ :: fraction) =>
    if !fraction.isEmpty && fraction.all (· == '0') then whole else cs
  | _ => cs

/-- Drop the underscores of a number, which stand alone and inside it. -/
def dropUnderscores : List Char → Option (List Char)
  | '_' :: _ => none
  | cs => go cs
where
  go : List Char → Option (List Char)
    | [] => some []
    | '_' :: [] => none
    | '_' :: '_' :: _ => none
    | '_' :: rest => go rest
    | c :: rest => (go rest).map (c :: ·)

/-- Read plain digits without a zero too many in front. -/
def readDigits? (cs : List Char) : Option Nat :=
  match cs.mapM Number.asciiDigit?, cs with
  | some _, [] | some _, '0' :: _ :: _ => none
  | digits, _ => digits.map Number.ofDigits

/-- Read a whole number written as a text: a sign, digits, and possibly a point
with nothing but zeros after it. -/
def readWhole? (s : String) : Option Int := do
  let cs := Text.trimBy Text.isSpace s.toList
  let unsigned ←
    match cs with
    | '+' :: '-' :: _ => none
    | '+' :: rest => some rest
    | rest => some rest
  let digits ← dropUnderscores (dropZeroFraction (← dropLeadingZeros unsigned))
  if Number.digitLimit < digits.length then none
  else
    match digits with
    | '-' :: rest => (readDigits? rest).map (Binary64.signed true)
    | rest => (readDigits? rest).map (Binary64.signed false)

def whole : Value → Option Int
  | .int n => some n
  | .bool b => some (Value.ofBool b)
  | .text s => readWhole? s
  | .float x => x.toInt?.filter fun n => n.natAbs < Nat.pow 2 63
  | _ => none

/-- A member of a set, by its exact name. -/
def member (ofName? : String → Option α) (v : Value) : Option α := (text v).bind ofName?

/-- A tree is not looked into here, apart from the names of its fields. -/
def tree : Value → Option Value
  | .object fields =>
    if fields.all fun (name, _) => Text.isWhole name then some (.object fields) else none
  | _ => none

/-- A tree whose own field names are trimmed. -/
def trimmedTree (v : Value) : Option Value :=
  match tree v with
  | some (.object fields) => some <| .object <|
    fields.foldl (fun kept (name, v) => Value.putField (Text.trimSpace name) v kept) []
  | _ => none

/-- A reading is kept as it was sent. -/
def scalar : Value → Option Value
  | .list _ | .object _ | .null => none
  | .text s => (text (.text s)).map .text
  | v => some v

def listOf (read : Value → Option α) : Value → Option (List α)
  | .list items => items.mapM read
  | _ => none

/-! ## Fields -/

def required (read : Value → Option α) (name : String) (fields : Fields) : Option α :=
  (Value.field? name fields).bind read

/-- A field that may be absent, but not null. -/
def defaulted (read : Value → Option α) (default : α) (name : String) (fields : Fields) : Option α :=
  match Value.field? name fields with
  | none => some default
  | some v => read v

/-- A field that may be absent or null. -/
def nullable (read : Value → Option α) (name : String) (fields : Fields) : Option (Option α) :=
  match Value.field? name fields with
  | none | some .null => some none
  | some v => (read v).map some

/-- A field of a patch: absent, null, or a value to set. -/
def patched (read : Value → Option Value) (name : String) (fields : Fields) :
    Option (Option Value) :=
  match Value.field? name fields with
  | none => some none
  | some .null => some (some .null)
  | some v => (read v).map some

/-! ## Documents -/

def observation : Value → Option Observation
  | .object fields => do
    let typeId ← required (fun v => ((text v).map Text.trim).bind (atLeast 1))
      "observation_type_id" fields
    let valueId ← nullable (fun v => (text v).map Text.trim) "observation_value_id" fields
    let value ← nullable scalar "value" fields
    return { typeId, valueId, value := value.getD .null }
  | _ => none

def rule (fields : Fields) : Option Call := do
  let name ← required label "name" fields
  let description ← required filled "description" fields
  let tree ← required trimmedTree "functional_rule" fields
  let effectiveFrom ← nullable trimmed "effective_from" fields
  let effectiveTo ← nullable trimmed "effective_to" fields
  let isActive ← defaulted flag true "is_active" fields
  return .createRule
    { name := .text name, description := .text description, tree, isActive := .bool isActive
      effectiveFrom := .ofText? effectiveFrom, effectiveTo := .ofText? effectiveTo }

def rulePatch (id : String) (fields : Fields) : Option Call := do
  let asText (read : Value → Option String) (v : Value) := (read v).map Value.text
  let name ← patched (asText label) "name" fields
  let description ← patched (asText filled) "description" fields
  let tree ← patched trimmedTree "functional_rule" fields
  let effectiveFrom ← patched (asText trimmed) "effective_from" fields
  let effectiveTo ← patched (asText trimmed) "effective_to" fields
  let isActive ← patched (fun v => (flag v).map Value.bool) "is_active" fields
  return .updateRule (.text id) { name, description, tree, effectiveFrom, effectiveTo, isActive }

/-- A tree to try on one to a hundred sets of observations. -/
def ruleTrials (fields : Fields) : Option Call := do
  let tree ← required tree "functional_rule" fields
  let cases ← required (listOf (listOf observation)) "test_cases" fields
  if 1 ≤ cases.length ∧ cases.length ≤ 100 then
    return .testRule tree (.list (cases.map Observation.listToValue))
  else none

def rulePreview (id : String) (fields : Fields) : Option Call := do
  return .previewRule (.text id) (← required tree "functional_rule" fields)

/-- An assessment to record and to process. -/
structure Intake where
  propertyId : Int
  observations : List Observation
  assessedAt : Option String
  pointInTime : Bool
deriving DecidableEq, Repr

def intake (fields : Fields) : Option Intake := do
  let propertyId ← required (fun v => (whole v).filter (0 ≤ ·)) "property_id" fields
  let observations ← required (listOf observation) "observations" fields
  let assessedAt ← nullable text "assessed_at" fields
  let pointInTime ← defaulted flag false "point_in_time" fields
  if observations.length ≤ 1000 then
    return { propertyId, observations, assessedAt, pointInTime }
  else none

def processAt (id : String) (fields : Fields) : Option Call := do
  return .processAt (.stored (.text id)) (.ofText? (← nullable text "at" fields))

def mitigationType (id : String) (fields : Fields) : Option Call := do
  return .assignMitigationType (.text id) (.text (← required filled "mitigation_type_id" fields))

def mitigation (id : String) (fields : Fields) : Option Call := do
  let valueId ← required filled "mitigation_value_id" fields
  let description ← defaulted remark "" "description" fields
  return .applyMitigation (.text id) (.text valueId) (.text description)

def status (id : String) (fields : Fields) : Option Call := do
  let status ← required (member Status.ofName?) "status" fields
  let notes ← nullable remark "notes" fields
  return .updateStatus (.text id) (.text status.name) (.ofText? notes)

def newObservationType (fields : Fields) : Option Call := do
  let name ← required label "name" fields
  let kind ← defaulted (member ValueKind.ofName?) .enum "value_type" fields
  let description ← nullable trimmed "description" fields
  let multiple ← defaulted flag false "multiple" fields
  return .createObservationType (.text name) (.text kind.name) (.ofText? description) (.bool multiple)

def newObservationValue (fields : Fields) : Option Call := do
  let typeId ← required filled "observation_type_id" fields
  let value ← required label "value" fields
  let description ← nullable trimmed "description" fields
  return .createObservationValue (.text typeId) (.text value) (.ofText? description)

def newMitigationType (fields : Fields) : Option Call := do
  let name ← required label "name" fields
  let description ← nullable trimmed "description" fields
  let multiple ← defaulted flag false "multiple" fields
  return .createMitigationType (.text name) (.ofText? description) (.bool multiple)

def newMitigationValue (fields : Fields) : Option Call := do
  let typeId ← required filled "mitigation_type_id" fields
  let value ← required label "value" fields
  let description ← nullable trimmed "description" fields
  let category ← defaulted (member MitigationCategory.ofName?) .full "category" fields
  return .createMitigationValue (.text typeId) (.text value) (.ofText? description)
    (.text category.name)

/-- What was read, or a malformed request. -/
def orMalformed (result : Option α) : Except BodyFlaw α :=
  match result with
  | some a => .ok a
  | none => .error .malformed

end Form

/-- What a well-formed request asks for. -/
inductive Task
  | health
  | call (c : Call)
  | assess (i : Form.Intake)

/-- The call that asks for the vulnerabilities of a property: as they are, or up
to a time. -/
def propertyCall (target : Target) (propertyId : String) : Option Call := do
  let id ← Form.readWhole? propertyId
  match target.parameter? "at" with
  | none | some "" => return .listForProperty (.int id)
  | some time => return .stateAt (.int id) (.text (← Form.atMost 64 time))

/-- Read the document of a request in a form. -/
def Request.inForm (r : Request) (form : Form.Fields → Option α) : Except BodyFlaw α :=
  match r.document with
  | .error flaw => .error flaw
  | .ok (.object fields) => Form.orMalformed (form fields)
  | .ok _ => .error .malformed

/-- Read a request at an endpoint. -/
def Endpoint.task (e : Endpoint) (r : Request) : Except BodyFlaw Task :=
  let call (c : Call) : Except BodyFlaw Task := .ok (.call c)
  let withForm (form : Form.Fields → Option Call) : Except BodyFlaw Task :=
    (r.inForm form).map .call
  match e with
  | .health => .ok .health
  | .createRule => withForm Form.rule
  | .listRules => call .listRules
  | .testRule => withForm Form.ruleTrials
  | .getRule id => call (.getRule (.text id))
  | .updateRule id => withForm (Form.rulePatch id)
  | .deleteRule id => call (.deleteRule (.text id))
  | .previewRule id => withForm (Form.rulePreview id)
  | .renderRule id => call (.renderRule (.text id))
  | .recordAssessment => (r.inForm Form.intake).map .assess
  | .process id => call (.process (.stored (.text id)))
  | .processAt id => withForm (Form.processAt id)
  | .getVulnerability id => call (.getVulnerability (.text id))
  | .mitigationOptions id => call (.mitigationOptions (.text id))
  | .assignMitigationType id => withForm (Form.mitigationType id)
  | .applyMitigation id => withForm (Form.mitigation id)
  | .updateStatus id => withForm (Form.status id)
  | .listForProperty propertyId =>
    (Form.orMalformed (propertyCall r.target propertyId)).map .call
  | .reevaluateProperty propertyId =>
    (Form.orMalformed (Form.readWhole? propertyId)).map fun id =>
      .call (.reevaluateProperty (.int id))
  | .createObservationType => withForm Form.newObservationType
  | .listObservationTypes => call .listObservationTypes
  | .createObservationValue => withForm Form.newObservationValue
  | .createMitigationType => withForm Form.newMitigationType
  | .listMitigationTypes => call .listMitigationTypes
  | .createMitigationValue => withForm Form.newMitigationValue

end PropertyRisk.Http
