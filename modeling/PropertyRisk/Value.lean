import PropertyRisk.Number.Binary64

/-!
# Dynamic values

What a fact, a condition or a document holds is data of any shape: nothing, a
truth value, a whole number of any size, a binary64 number, a text, a list or
an object. Objects keep the order of their fields.

`equal` is numeric equality carried through lists and objects: a whole number
may equal a binary64 number, and a truth value counts as 0 or 1.
-/

namespace PropertyRisk

inductive Value
  | null
  | bool (b : Bool)
  | int (n : Int)
  | float (x : Binary64)
  | text (s : String)
  | list (items : List Value)
  | object (fields : List (String × Value))
deriving Repr, Inhabited

namespace Value

mutual

def decEq : (a b : Value) → Decidable (a = b)
  | .null, .null => isTrue rfl
  | .bool a, .bool b => decidable_of_iff (a = b) ⟨congrArg _, fun h => by injection h⟩
  | .int a, .int b => decidable_of_iff (a = b) ⟨congrArg _, fun h => by injection h⟩
  | .float a, .float b => decidable_of_iff (a = b) ⟨congrArg _, fun h => by injection h⟩
  | .text a, .text b => decidable_of_iff (a = b) ⟨congrArg _, fun h => by injection h⟩
  | .list a, .list b =>
    match decEqItems a b with
    | isTrue h => isTrue (congrArg _ h)
    | isFalse h => isFalse fun e => h (by injection e)
  | .object a, .object b =>
    match decEqFields a b with
    | isTrue h => isTrue (congrArg _ h)
    | isFalse h => isFalse fun e => h (by injection e)
  | .null, .bool _ | .null, .int _ | .null, .float _ | .null, .text _ | .null, .list _
  | .null, .object _ | .bool _, .null | .bool _, .int _ | .bool _, .float _ | .bool _, .text _
  | .bool _, .list _ | .bool _, .object _ | .int _, .null | .int _, .bool _ | .int _, .float _
  | .int _, .text _ | .int _, .list _ | .int _, .object _ | .float _, .null | .float _, .bool _
  | .float _, .int _ | .float _, .text _ | .float _, .list _ | .float _, .object _
  | .text _, .null | .text _, .bool _ | .text _, .int _ | .text _, .float _ | .text _, .list _
  | .text _, .object _ | .list _, .null | .list _, .bool _ | .list _, .int _ | .list _, .float _
  | .list _, .text _ | .list _, .object _ | .object _, .null | .object _, .bool _
  | .object _, .int _ | .object _, .float _ | .object _, .text _ | .object _, .list _ =>
    isFalse (by simp)

def decEqItems : (as bs : List Value) → Decidable (as = bs)
  | [], [] => isTrue rfl
  | [], _ :: _ => isFalse (by simp)
  | _ :: _, [] => isFalse (by simp)
  | a :: as, b :: bs =>
    match decEq a b, decEqItems as bs with
    | isTrue h, isTrue hs => isTrue (by rw [h, hs])
    | isFalse h, _ => isFalse fun e => h (List.cons.inj e).1
    | _, isFalse h => isFalse fun e => h (List.cons.inj e).2

def decEqFields : (as bs : List (String × Value)) → Decidable (as = bs)
  | [], [] => isTrue rfl
  | [], _ :: _ => isFalse (by simp)
  | _ :: _, [] => isFalse (by simp)
  | (k, a) :: as, (l, b) :: bs =>
    if hk : k = l then
      match decEq a b, decEqFields as bs with
      | isTrue h, isTrue hs => isTrue (by rw [hk, h, hs])
      | isFalse h, _ => isFalse fun e => h (Prod.mk.inj (List.cons.inj e).1).2
      | _, isFalse h => isFalse fun e => h (List.cons.inj e).2
    else isFalse fun e => hk (Prod.mk.inj (List.cons.inj e).1).1

end

instance : DecidableEq Value := decEq

/-- The value of a field. -/
def field? (key : String) : List (String × Value) → Option Value
  | [] => none
  | (k, v) :: rest => if k = key then some v else field? key rest

/-- Set a field in place, or add it at the end. -/
def putField (key : String) (value : Value) : List (String × Value) → List (String × Value)
  | [] => [(key, value)]
  | (k, v) :: rest => if k = key then (k, value) :: rest else (k, v) :: putField key value rest

/-- The value of a field of an object; other values have no fields. -/
def get? (key : String) : Value → Option Value
  | .object fields => field? key fields
  | _ => none

/-- The value of a field, or `null`. -/
def getD (key : String) (v : Value) : Value := (v.get? key).getD .null

theorem sizeOf_field? {key : String} {fields : List (String × Value)} {v : Value}
    (h : field? key fields = some v) : sizeOf v < sizeOf fields := by
  induction fields with
  | nil => simp [field?] at h
  | cons head rest ih =>
    obtain ⟨k, w⟩ := head
    unfold field? at h
    split at h
    · cases h; simp; omega
    · have := ih h; simp; omega

/-- Nothing, false, zero and whatever is empty do not hold. -/
def holds : Value → Bool
  | .null => false
  | .bool b => b
  | .int n => decide (n ≠ 0)
  | .float x => decide (x.place ≠ some 0)
  | .text s => decide (s ≠ "")
  | .list items => !items.isEmpty
  | .object fields => !fields.isEmpty

/-- A value, or another one in place of one that does not hold. -/
def orElse (v other : Value) : Value := if v.holds then v else other

/-- A truth value as a number. -/
def ofBool (b : Bool) : Int := if b then 1 else 0

mutual

def equal : Value → Value → Bool
  | .null, .null => true
  | .bool a, .bool b => a == b
  | .bool a, .int b => decide (ofBool a = b)
  | .int a, .bool b => decide (a = ofBool b)
  | .bool a, .float b => b.sameInt (ofBool a)
  | .float a, .bool b => a.sameInt (ofBool b)
  | .int a, .int b => decide (a = b)
  | .int a, .float b => b.sameInt a
  | .float a, .int b => a.sameInt b
  | .float a, .float b => a.same b
  | .text a, .text b => decide (a = b)
  | .list as, .list bs => equalItems as bs
  | .object as, .object bs => decide (as.length = bs.length) && equalFields as bs
  | _, _ => false

def equalItems : List Value → List Value → Bool
  | [], [] => true
  | a :: as, b :: bs => equal a b && equalItems as bs
  | _, _ => false

/-- Every field on the left is on the right with an equal value. -/
def equalFields : List (String × Value) → List (String × Value) → Bool
  | [], _ => true
  | (k, a) :: as, bs =>
    (match field? k bs with
      | some b => equal a b
      | none => false) && equalFields as bs

end

/-- Equality of two scalars without crossing kinds: a truth value equals only
truth values, whole and binary64 numbers are compared exactly. -/
def strictEqual : Value → Value → Bool
  | .bool a, .bool b => a == b
  | .bool _, _ => false
  | _, .bool _ => false
  | a, b => equal a b

/-- The word for the kind of a value in messages. -/
def kindName : Value → String
  | .null => "NoneType"
  | .bool _ => "bool"
  | .int _ => "int"
  | .float _ => "float"
  | .text _ => "str"
  | .list _ => "list"
  | .object _ => "dict"

/-- An optional text, absent as `null`. -/
def ofText? : Option String → Value
  | none => .null
  | some s => .text s

end Value

end PropertyRisk
