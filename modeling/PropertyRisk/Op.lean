import PropertyRisk.Error

/-!
# Operations on a state

An operation runs on a state and ends in a value or an error, with a new state
in either case: what was written before an error stays written.
-/

namespace PropertyRisk

def Op (σ α : Type) : Type := σ → Except Error α × σ

namespace Op

def run (x : Op σ α) (s : σ) : Except Error α × σ := x s

instance : Monad (Op σ) where
  pure a := fun s => (.ok a, s)
  bind x f := fun s =>
    match x s with
    | (.ok a, s) => f a s
    | (.error e, s) => (.error e, s)

instance : MonadExceptOf Error (Op σ) where
  throw e := fun s => (.error e, s)
  tryCatch x handle := fun s =>
    match x s with
    | (.ok a, s) => (.ok a, s)
    | (.error e, s) => handle e s

def read : Op σ σ := fun s => (.ok s, s)

def write (s : σ) : Op σ Unit := fun _ => (.ok (), s)

def ofExcept : Except Error α → Op σ α
  | .ok a => pure a
  | .error e => throw e

/-- Give an error of another kind its place among the errors. -/
def orElse (wrap : ε → Error) : Except ε α → Op σ α
  | .ok a => pure a
  | .error e => throw (wrap e)

/-- Run an operation, with a storage failure as a value and other errors as
they are. -/
def attempt (x : Op σ α) : Op σ (Except StorageFailure α) := fun s =>
  match x s with
  | (.ok a, s) => (.ok (.ok a), s)
  | (.error (.storage failure), s) => (.ok (.error failure), s)
  | (.error e, s) => (.error e, s)

/-- A state that is part of a larger one. -/
structure Part (τ σ : Type) where
  get : τ → σ
  set : σ → τ → τ

/-- Run an operation on a part of the state. -/
def within (part : Part τ σ) (x : Op σ α) : Op τ α := fun t =>
  match x (part.get t) with
  | (r, s) => (r, part.set s t)

/-- The whole state as a part of itself. -/
def Part.whole : Part σ σ := ⟨id, fun s _ => s⟩

@[simp] theorem run_pure (a : α) (s : σ) : (pure a : Op σ α).run s = (.ok a, s) := rfl

@[simp] theorem run_throw (e : Error) (s : σ) : (throw e : Op σ α).run s = (.error e, s) := rfl

theorem run_bind (x : Op σ α) (f : α → Op σ β) (s : σ) :
    (x >>= f).run s =
      match x.run s with
      | (.ok a, s) => (f a).run s
      | (.error e, s) => (.error e, s) := rfl

theorem run_bind_ok {x : Op σ α} {f : α → Op σ β} {s t : σ} {a : α} (h : x.run s = (.ok a, t)) :
    (x >>= f).run s = (f a).run t := by
  rw [run_bind, h]

theorem run_bind_error {x : Op σ α} {f : α → Op σ β} {s t : σ} {e : Error}
    (h : x.run s = (.error e, t)) : (x >>= f).run s = (.error e, t) := by
  rw [run_bind, h]

@[simp] theorem run_within_whole (x : Op σ α) (s : σ) : (within Part.whole x).run s = x.run s := rfl

instance : LawfulMonad (Op σ) := LawfulMonad.mk' (Op σ)
  (fun x => by
    funext s
    show (match x s with | (.ok a, s) => _ | (.error e, s) => _) = x s
    rcases x s with ⟨_ | _, _⟩ <;> rfl)
  (fun _ _ => rfl)
  (fun x f g => by
    funext s
    show (match (match x s with | (.ok a, s) => f a s | (.error e, s) => (.error e, s)) with
      | (.ok a, s) => g a s | (.error e, s) => (.error e, s)) = _
    show _ = (match x s with | (.ok a, s) => (f a >>= g) s | (.error e, s) => (.error e, s))
    rcases x s with ⟨_ | _, _⟩ <;> rfl)

end Op

end PropertyRisk
