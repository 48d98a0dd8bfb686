import PropertyRisk.Value
import PropertyRisk.Text.Surrogate

/-!
# Strict JSON

Strict JSON has no form for NaN and the infinities, nor for half of a surrogate
pair.
-/

namespace PropertyRisk.Json

mutual

/-- Whether a document has a strict form. -/
def isStrict : Value → Bool
  | .float (.finite ..) => true
  | .float _ => false
  | .text s => Text.isWhole s
  | .list items => allStrict items
  | .object fields => allFieldsStrict fields
  | _ => true

def allStrict : List Value → Bool
  | [] => true
  | v :: rest => isStrict v && allStrict rest

def allFieldsStrict : List (String × Value) → Bool
  | [] => true
  | (k, v) :: rest => Text.isWhole k && isStrict v && allFieldsStrict rest

end

end PropertyRisk.Json
