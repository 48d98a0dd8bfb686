import PropertyRisk.Store.World

/-!
# Triples

`Triple x s Q E` says where an operation ends from one state: with a value and a
state that satisfy `Q`, or with an error and a state that satisfy `E`. An
operation that can end in an error has both halves to show, so what was written
before an error is part of the statement.
-/

namespace PropertyRisk

theorem ok_bind (a : α) (f : α → Except ε β) : (Except.ok a >>= f) = f a := rfl

theorem error_bind (e : ε) (f : α → Except ε β) : (Except.error e >>= f) = .error e := rfl

theorem bind_eq_ok {x : Except ε α} {f : α → Except ε β} {b : β} :
    (x >>= f) = .ok b ↔ ∃ a, x = .ok a ∧ f a = .ok b := by
  cases x with
  | error e => simp [error_bind]
  | ok a => simp [ok_bind]

end PropertyRisk

namespace PropertyRisk.Op

variable {σ τ α β ε : Type}

def Triple (x : Op σ α) (s : σ) (Q : α → σ → Prop) (E : Error → σ → Prop) : Prop :=
  match x.run s with
  | (.ok a, t) => Q a t
  | (.error e, t) => E e t

/-- Whether or not it succeeds, the operation ends in a state that satisfies `I`. -/
def Keeps (I : σ → Prop) (x : Op σ α) (s : σ) : Prop := Triple x s (fun _ => I) (fun _ => I)

theorem run_attempt_ok {t : σ} {a : α} (h : x.run s = (.ok a, t)) :
    (attempt x).run s = (.ok (.ok a), t) := by
  simp only [Op.run] at h
  simp only [Op.run, attempt, h]

theorem run_attempt_storage {t : σ} {failure : StorageFailure}
    (h : x.run s = (.error (.storage failure), t)) :
    (attempt x).run s = (.ok (.error failure), t) := by
  simp only [Op.run] at h
  simp only [Op.run, attempt, h]

namespace Triple

variable {x : Op σ α} {f : α → Op σ β} {s t : σ} {a : α} {e : Error}
  {Q Q' : α → σ → Prop} {R : β → σ → Prop} {E E' : Error → σ → Prop}

theorem of_run (h : x.run s = (.ok a, t)) (hq : Q a t) : Triple x s Q E := by
  simpa only [Triple, h] using hq

theorem of_run_error (h : x.run s = (.error e, t)) (he : E e t) : Triple x s Q E := by
  simpa only [Triple, h] using he

/-- From a run whose answer may be an error. -/
theorem of_run_except {r : Except Error α} (h : x.run s = (r, t)) (hq : ∀ a, r = .ok a → Q a t)
    (he : ∀ e, r = .error e → E e t) : Triple x s Q E := by
  cases r with
  | ok a => exact of_run h (hq a rfl)
  | error e => exact of_run_error h (he e rfl)

theorem ok (h : Triple x s Q E) (hr : x.run s = (.ok a, t)) : Q a t := by
  simpa only [Triple, hr] using h

theorem error (h : Triple x s Q E) (hr : x.run s = (.error e, t)) : E e t := by
  simpa only [Triple, hr] using h

/-- What is shown of every run, a triple says of this one. -/
theorem of_forall (hq : ∀ a t, x.run s = (.ok a, t) → Q a t)
    (he : ∀ e t, x.run s = (.error e, t) → E e t) : Triple x s Q E := by
  unfold Triple
  rcases h : x.run s with ⟨_ | _, _⟩
  · exact he _ _ h
  · exact hq _ _ h

theorem mono (h : Triple x s Q E) (hq : ∀ a t, Q a t → Q' a t) (he : ∀ e t, E e t → E' e t) :
    Triple x s Q' E' :=
  of_forall (fun _ _ hr => hq _ _ (h.ok hr)) (fun _ _ hr => he _ _ (h.error hr))

/-- The same of answers, and nothing of failures. -/
theorem answered (h : Triple x s Q E) : Triple x s Q fun _ _ => True :=
  h.mono (fun _ _ hq => hq) fun _ _ _ => trivial

theorem and {Q' : α → σ → Prop} {E' : Error → σ → Prop} (h : Triple x s Q E)
    (k : Triple x s Q' E') :
    Triple x s (fun a t => Q a t ∧ Q' a t) (fun e t => E e t ∧ E' e t) :=
  of_forall (fun _ _ hr => ⟨h.ok hr, k.ok hr⟩) (fun _ _ hr => ⟨h.error hr, k.error hr⟩)

theorem pure (h : Q a s) : Triple (pure a : Op σ α) s Q E := of_run rfl h

theorem throw (h : E e s) : Triple (throw e : Op σ α) s Q E := of_run_error rfl h

theorem bind (hx : Triple x s Q E) (hf : ∀ a t, Q a t → Triple (f a) t R E) :
    Triple (x >>= f) s R E := by
  unfold Triple
  rw [run_bind]
  rcases h : x.run s with ⟨e | a, t⟩
  · exact hx.error h
  · exact hf a t (hx.ok h)

/-- Go on after an operation whose run is known. -/
theorem bind_run (hx : x.run s = (.ok a, t)) (hf : Triple (f a) t R E) : Triple (x >>= f) s R E := by
  simpa only [Triple, run_bind, hx] using hf

theorem map (g : α → β) (hx : Triple x s (fun a t => R (g a) t) E) : Triple (g <$> x) s R E := by
  rw [← bind_pure_comp]
  exact hx.bind fun a t h => pure h

theorem ofExcept {r : Except Error α} (hq : ∀ a, r = .ok a → Q a s)
    (he : ∀ e, r = .error e → E e s) : Triple (ofExcept r) s Q E := by
  cases r with
  | ok a => exact of_run rfl (hq a rfl)
  | error e => exact of_run_error rfl (he e rfl)

/-- Go on if a check passes; its error is known where it does not. -/
theorem bind_check {r : Except Error α} (he : ∀ e, r = .error e → E e s)
    (hf : ∀ a, r = .ok a → Triple (f a) s R E) : Triple (Op.ofExcept r >>= f) s R E := by
  cases r with
  | ok a => exact bind_run rfl (hf a rfl)
  | error e => exact of_run_error rfl (he e rfl)

theorem bind_ofExcept {r : Except Error α} (he : ∀ e, E e s)
    (hf : ∀ a, r = .ok a → Triple (f a) s R E) : Triple (Op.ofExcept r >>= f) s R E :=
  bind_check (fun e _ => he e) hf

theorem orElse {r : Except ε α} {wrap : ε → Error} (hq : ∀ a, r = .ok a → Q a s)
    (he : ∀ e, r = .error e → E (wrap e) s) : Triple (orElse wrap r) s Q E := by
  cases r with
  | ok a => exact of_run rfl (hq a rfl)
  | error e => exact of_run_error rfl (he e rfl)

/-- A storage failure turns from an error into a value; the state is what it is. -/
theorem attempt {Q : Except StorageFailure α → σ → Prop}
    (hx : Triple x s (fun a t => Q (.ok a) t)
      (fun e t => (∀ failure, e = .storage failure → Q (.error failure) t) ∧ E e t)) :
    Triple (attempt x) s Q E := by
  refine of_forall (fun a t h => ?_) (fun e t h => ?_) <;>
    simp only [Op.run, Op.attempt] at h <;> split at h <;> rename_i hr <;> cases h
  · exact hx.ok hr
  · exact (hx.error hr).1 _ rfl
  · exact (hx.error hr).2

/-- An operation that fails only in the storage is always answered when it is attempted. -/
theorem attempt_storage {Q : Except StorageFailure α → σ → Prop}
    (hx : Triple x s (fun a t => Q (.ok a) t)
      (fun e t => ∃ failure, e = .storage failure ∧ Q (.error failure) t)) :
    Triple (Op.attempt x) s Q E := by
  rcases hr : x.run s with ⟨e | a, t⟩
  · obtain ⟨failure, rfl, hq⟩ := hx.error hr
    exact of_run (run_attempt_storage hr) hq
  · exact of_run (run_attempt_ok hr) (hx.ok hr)

/-- What ends in no error is answered. -/
theorem exists_ok (h : Triple x s Q fun _ _ => False) : ∃ a t, x.run s = (.ok a, t) ∧ Q a t := by
  rcases hr : x.run s with ⟨e | a, t⟩
  · exact (h.error hr).elim
  · exact ⟨a, t, rfl, h.ok hr⟩

theorem mapM {f : α → Op σ β} {I : σ → Prop} (hf : ∀ a s, I s → Triple (f a) s (fun _ => I) E) :
    ∀ (as : List α) (s : σ), I s → Triple (as.mapM f) s (fun _ => I) E := by
  intro as
  induction as with
  | nil => intro s hs; simpa using pure hs
  | cons a rest ih =>
    intro s hs
    rw [List.mapM_cons]
    refine (hf a s hs).bind fun b t ht => (ih t ht).bind fun bs u hu => pure hu

end Triple

variable {I : σ → Prop} {x : Op σ α} {s : σ}

theorem Keeps.of_run {r : Except Error α} {t : σ} (h : x.run s = (r, t)) (ht : I t) :
    Keeps I x s := by
  cases r with
  | ok a => exact Triple.of_run h ht
  | error e => exact Triple.of_run_error h ht

theorem Keeps.state (h : Keeps I x s) : I (x.run s).2 := by
  rcases hr : x.run s with ⟨_ | _, _⟩
  · exact Triple.error h hr
  · exact Triple.ok h hr

theorem Keeps.map (g : α → β) (h : Keeps I x s) : Keeps I (g <$> x) s := Triple.map g h

theorem Keeps.bind {f : α → Op σ β} (hx : Keeps I x s) (hf : ∀ a t, I t → Keeps I (f a) t) :
    Keeps I (x >>= f) s :=
  Triple.bind hx hf

theorem Keeps.attempt (h : Keeps I x s) : Keeps I (attempt x) s :=
  Triple.attempt (h.mono (fun _ _ ht => ht) fun _ _ ht => ⟨fun _ _ => ht, ht⟩)

theorem Keeps.of_triple {Q : α → σ → Prop} {E : Error → σ → Prop} (h : Triple x s Q E)
    (hq : ∀ a t, Q a t → I t) (he : ∀ e t, E e t → I t) : Keeps I x s :=
  h.mono hq he

theorem Keeps.imp {J : σ → Prop} (h : Keeps I x s) (hij : ∀ t, I t → J t) : Keeps J x s :=
  Keeps.of_triple h (fun _ => hij) fun _ => hij

theorem Keeps.both {J : σ → Prop} (h : Keeps I x s) (k : Keeps J x s) :
    Keeps (fun t => I t ∧ J t) x s :=
  Triple.and h k

/-! ## Operations that change nothing -/

def Quiet (x : Op σ α) : Prop := ∀ s, (x.run s).2 = s

namespace Quiet

theorem pure (a : α) : Quiet (pure a : Op σ α) := fun _ => rfl

theorem throw (e : Error) : Quiet (throw e : Op σ α) := fun _ => rfl

theorem ofExcept (r : Except Error α) : Quiet (ofExcept r : Op σ α) := by
  cases r <;> exact fun _ => rfl

theorem orElse (wrap : ε → Error) (r : Except ε α) : Quiet (orElse wrap r : Op σ α) := by
  cases r <;> exact fun _ => rfl

variable {x : Op σ α} {f : α → Op σ β}

theorem bind (hx : Quiet x) (hf : ∀ a, Quiet (f a)) : Quiet (x >>= f) := by
  intro s
  have hs := hx s
  rw [run_bind]
  rcases h : x.run s with ⟨e | a, t⟩
  · simpa only [h] using hs
  · rw [h] at hs
    subst hs
    exact hf a _

theorem map (g : α → β) (hx : Quiet x) : Quiet (g <$> x) := by
  rw [← bind_pure_comp]
  exact hx.bind fun a => pure (g a)

theorem attempt (hx : Quiet x) : Quiet (attempt x) := by
  intro s
  have hs := hx s
  rcases hr : x.run s with ⟨(_ | _ | failure | _) | a, t⟩ <;> rw [hr] at hs <;>
    simp only [Op.run] at hr <;> simp only [Op.run, Op.attempt, hr] <;> exact hs

theorem mapM (hf : ∀ a, Quiet (f a)) (as : List α) : Quiet (as.mapM f) := by
  induction as with
  | nil => exact pure []
  | cons a rest ih =>
    rw [List.mapM_cons]
    exact (hf a).bind fun b => ih.bind fun bs => pure (b :: bs)

theorem ite {c : Prop} [Decidable c] {y : Op σ α} (hx : Quiet x) (hy : Quiet y) :
    Quiet (if c then x else y) := by
  split
  · exact hx
  · exact hy

/-- Such an operation keeps whatever holds. -/
theorem keeps {I : σ → Prop} {s : σ} (hx : Quiet x) (hs : I s) : Keeps I x s := by
  have hq (r : Except Error α) (t : σ) (hr : x.run s = (r, t)) : I t := by
    have ht : t = s := by simpa only [hr] using hx s
    exact ht ▸ hs
  exact Triple.of_forall (fun _ _ hr => hq _ _ hr) (fun _ _ hr => hq _ _ hr)

end Quiet

/-! ## Runs -/

theorem run_ofExcept (r : Except Error α) (s : σ) : (ofExcept r : Op σ α).run s = (r, s) := by
  cases r <;> rfl

@[simp] theorem run_ofExcept_ok (a : α) (s : σ) :
    (ofExcept (.ok a) : Op σ α).run s = (.ok a, s) := rfl

@[simp] theorem run_ofExcept_error (e : Error) (s : σ) :
    (ofExcept (.error e) : Op σ α).run s = (.error e, s) := rfl

@[simp] theorem run_orElse_ok (wrap : ε → Error) (a : α) (s : σ) :
    (orElse wrap (.ok a) : Op σ α).run s = (.ok a, s) := rfl

theorem run_map (g : α → β) (x : Op σ α) (s : σ) :
    (g <$> x).run s = ((x.run s).1.map g, (x.run s).2) := by
  rw [← bind_pure_comp, run_bind]
  rcases x.run s with ⟨_ | _, _⟩ <;> rfl

theorem of_run_map {g : α → β} {t : σ} {b : β} (h : (g <$> x).run s = (.ok b, t)) :
    ∃ a, x.run s = (.ok a, t) ∧ g a = b := by
  rw [run_map] at h
  rcases hx : x.run s with ⟨e | a, u⟩ <;> rw [hx] at h <;> cases h
  exact ⟨a, rfl, rfl⟩

/-- What is known of an answer is known of the run that gives it. -/
theorem exists_of_answer {g : α → β} {b : β} (h : (x.run s).1.map g = .ok b) :
    ∃ a t, x.run s = (.ok a, t) ∧ g a = b := by
  have hmap : (g <$> x).run s = (.ok b, (x.run s).2) := by rw [run_map, h]
  obtain ⟨a, hrun, ha⟩ := of_run_map hmap
  exact ⟨a, _, hrun, ha⟩

@[simp] theorem within_whole (x : Op σ α) : within Part.whole x = x := rfl

end PropertyRisk.Op

namespace PropertyRisk.World

variable {S : Type}

@[simp] theorem run_now (w : World S) : now.run w = (.ok w.clock.text, w) := rfl

@[simp] theorem run_fresh (w : World S) :
    fresh.run w = (.ok (w.idOf (w.issued + 1)), { w with issued := w.issued + 1 }) := rfl

@[simp] theorem run_stored (w : World S) : stored.run w = (.ok w.store, w) := rfl

@[simp] theorem run_save (s : S) (w : World S) :
    (save s).run w = (.ok (), { w with store := s }) := rfl

theorem quiet_stored : Op.Quiet (stored : Op (World S) S) := fun _ => rfl

end PropertyRisk.World
