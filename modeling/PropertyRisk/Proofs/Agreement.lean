import PropertyRisk.Proofs.Triple
import Mathlib.Order.Basic

/-!
# Agreement

`Agree R R' P x y` relates operations on two kinds of state: from states that
are related by `R` they come to one result and to states that are related by
`R'`, and a value that they come to satisfies `P`. `P` is about the value alone,
so what a later operation is given can be judged without the states.
-/

namespace PropertyRisk.Op

variable {σ τ α β ε : Type}

def Agree (R R' : σ → τ → Prop) (P : α → Prop) (x : Op σ α) (y : Op τ α) : Prop :=
  ∀ s t, R s t → (y.run t).1 = (x.run s).1 ∧ R' (x.run s).2 (y.run t).2 ∧
    ∀ a, (x.run s).1 = .ok a → P a

namespace Agree

variable {R R' S : σ → τ → Prop} {P Q : α → Prop} {x : Op σ α} {y : Op τ α}

/-- Two operations agree whose runs are known. -/
theorem of_run (h : ∀ s t, R s t → ∃ r s' t', x.run s = (r, s') ∧ y.run t = (r, t') ∧
    R' s' t' ∧ ∀ a, r = .ok a → P a) : Agree R R' P x y := by
  intro s t hs
  obtain ⟨r, s', t', hx, hy, hr, hp⟩ := h s t hs
  rw [hx, hy]
  exact ⟨rfl, hr, hp⟩

theorem mono (h : Agree R R' P x y) (hp : ∀ a, P a → Q a) : Agree R R' Q x y := by
  intro s t hs
  obtain ⟨heq, hr, hv⟩ := h s t hs
  exact ⟨heq, hr, fun a ha => hp a (hv a ha)⟩

theorem trivial (h : Agree R R' P x y) : Agree R R' (fun _ => True) x y := h.mono fun _ _ => ⟨⟩

/-- The states may be said less of. -/
theorem weaken (h : Agree R R' P x y) (hle : R' ≤ S) : Agree R S P x y := by
  intro s t hs
  obtain ⟨heq, hr, hv⟩ := h s t hs
  exact ⟨heq, hle _ _ hr, hv⟩

theorem pure {a : α} (h : P a) : Agree R R P (pure a) (pure a) := by
  intro s t hs
  refine ⟨rfl, hs, fun b hb => ?_⟩
  cases hb
  exact h

theorem throw (e : Error) : Agree R R P (throw e) (throw e) :=
  fun _ _ hs => ⟨rfl, hs, nofun⟩

theorem ofExcept {r : Except Error α} (h : ∀ a, r = .ok a → P a) :
    Agree R R P (ofExcept r) (ofExcept r) := by
  cases r with
  | ok a => exact pure (h a rfl)
  | error e => exact throw e

theorem orElse {r : Except ε α} {wrap : ε → Error} (h : ∀ a, r = .ok a → P a) :
    Agree R R P (orElse wrap r) (orElse wrap r) := by
  cases r with
  | ok a => exact pure (h a rfl)
  | error e => exact throw (wrap e)

/-- Go on to states that are related in another way. An error leaves the states
where the first operation has led them, so `S` must not say more than `R'`. -/
theorem bind_to {f : α → Op σ β} {g : α → Op τ β} {T : β → Prop} (hx : Agree R R' P x y)
    (hle : R' ≤ S) (hf : ∀ a, P a → Agree R' S T (f a) (g a)) :
    Agree R S T (x >>= f) (y >>= g) := by
  intro s t hs
  obtain ⟨heq, hr, hv⟩ := hx s t hs
  rw [run_bind, run_bind]
  rcases hxs : x.run s with ⟨e | a, s'⟩ <;> rcases hyt : y.run t with ⟨e' | b, t'⟩ <;>
    rw [hxs, hyt] at heq hr <;> cases heq
  · exact ⟨rfl, hle _ _ hr, nofun⟩
  · exact hf a (hv a (by rw [hxs])) s' t' hr

theorem bind {f : α → Op σ β} {g : α → Op τ β} {T : β → Prop} (hx : Agree R R' P x y)
    (hf : ∀ a, P a → Agree R' R' T (f a) (g a)) : Agree R R' T (x >>= f) (y >>= g) :=
  hx.bind_to le_rfl hf

theorem map {T : β → Prop} (f : α → β) (hx : Agree R R' (fun a => T (f a)) x y) :
    Agree R R' T (f <$> x) (f <$> y) := by
  rw [← bind_pure_comp, ← bind_pure_comp]
  exact hx.bind fun a ha => pure ha

/-- A storage failure turns from an error into a value on both sides. -/
theorem attempt (h : Agree R R' P x y) :
    Agree R R' (fun r => ∀ a, r = .ok a → P a) (attempt x) (attempt y) := by
  intro s t hs
  obtain ⟨heq, hr, hv⟩ := h s t hs
  simp only [Op.run] at heq hr hv ⊢
  simp only [Op.attempt]
  rcases hxs : x s with ⟨(_ | _ | _ | _) | a, s'⟩ <;> rcases hyt : y t with ⟨e' | b, t'⟩ <;>
    rw [hxs, hyt] at heq hr <;> cases heq <;> refine ⟨rfl, hr, ?_⟩
  case error.storage.error => rintro _ ⟨⟩ _ ⟨⟩
  case ok.ok =>
    rintro _ ⟨⟩ c ⟨⟩
    exact hv a (by rw [hxs])
  all_goals rintro _ ⟨⟩

theorem ite {c : Prop} [Decidable c] {x' : Op σ α} {y' : Op τ α} (hx : c → Agree R R' P x y)
    (hy : ¬c → Agree R R' P x' y') :
    Agree R R' P (if c then x else x') (if c then y else y') := by
  split
  · exact hx ‹_›
  · exact hy ‹_›

theorem mapM {f : α → Op σ β} {g : α → Op τ β} {as : List α}
    (h : ∀ a ∈ as, Agree R R (fun _ => True) (f a) (g a)) :
    Agree R R (fun _ => True) (as.mapM f) (as.mapM g) := by
  induction as with
  | nil => simpa using pure ⟨⟩
  | cons a rest ih =>
    rw [List.mapM_cons, List.mapM_cons]
    refine (h a List.mem_cons_self).bind fun b _ => ?_
    exact (ih fun c hc => h c (List.mem_cons_of_mem _ hc)).bind fun bs _ => pure ⟨⟩

end Agree

end PropertyRisk.Op
