import PropertyRisk.Storage

/-!
# A store in time

A store works under a clock, which stands still during a call, and hands out
ids from one supply for all kinds of record.
-/

namespace PropertyRisk

structure World (S : Type) where
  store : S
  clock : Time.Stamp
  issued : Nat
  idOf : Nat → String

namespace World

def now : Op (World S) String := fun w => (.ok w.clock.text, w)

/-- Take the next id of the supply. -/
def fresh : Op (World S) String := fun w =>
  (.ok (w.idOf (w.issued + 1)), { w with issued := w.issued + 1 })

def stored : Op (World S) S := fun w => (.ok w.store, w)

def save (s : S) : Op (World S) Unit := fun w => (.ok (), { w with store := s })

/-- The given id, if it holds. -/
def idOr (given : Value) : Op (World S) Value := do
  if given.holds then return given else return .text (← fresh)

end World

/-- The rules that are effective at a time; the time is read once for each rule. -/
def effectiveAmong (time : Value) : List Rule → Except Error (List Rule)
  | [] => .ok []
  | r :: rest =>
    match r.window.containsValue time with
    | .error e => .error e
    | .ok effective =>
      match effectiveAmong time rest with
      | .error e => .error e
      | .ok others => .ok (if effective then r :: others else others)

/-- The vulnerabilities with their detection times, all of which must be
readable. -/
def stampAll : List Vulnerability → Except Error (List (Time.Stamp × Vulnerability))
  | [] => .ok []
  | v :: rest =>
    match requireStampValue v.detectedAt with
    | .error e => .error e
    | .ok stamp =>
      match stampAll rest with
      | .error e => .error e
      | .ok others => .ok ((stamp, v) :: others)

end PropertyRisk
