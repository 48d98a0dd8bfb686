import PropertyRisk.Proofs.Failing

/-!
# Contracts with a storage

A `Contract` is what a caller settles with its storage: the requests that it may
make, an invariant that they keep, what holds of their answers, and the errors
that they may end in. `Storage.Meets.faulty`: a storage that meets a contract
still meets it when its requests fail on a schedule, each without its effect or
after it.
-/

namespace PropertyRisk

open Op (Triple Keeps)

variable {σ τ α β ε : Type}

structure Contract (σ : Type) where
  inv : σ → Prop
  may : {α : Type} → Request α → Prop
  gives : {α : Type} → Request α → α → Prop := fun _ _ => True
  errs : Error → σ → Prop := fun _ _ => True

namespace Contract

/-- The operation keeps the invariant, and ends in no other errors than agreed. -/
def Upheld (C : Contract σ) (x : Op σ α) (s : σ) : Prop :=
  Triple x s (fun _ => C.inv) (fun e t => C.errs e t ∧ C.inv t)

/-- The same contract on the first part of a state. -/
def first (C : Contract σ) : Contract (σ × τ) where
  inv s := C.inv s.1
  may := C.may
  gives := C.gives
  errs e s := C.errs e s.1

namespace Upheld

variable {C : Contract σ} {x : Op σ α} {s : σ} {e : Error}

theorem pure {a : α} (h : C.inv s) : C.Upheld (pure a) s := Triple.pure h

theorem throw (he : C.errs e s) (h : C.inv s) : C.Upheld (throw e : Op σ α) s :=
  Triple.throw ⟨he, h⟩

theorem bind {f : α → Op σ β} (hx : C.Upheld x s) (hf : ∀ a t, C.inv t → C.Upheld (f a) t) :
    C.Upheld (x >>= f) s :=
  Triple.bind hx hf

theorem map (f : α → β) (hx : C.Upheld x s) : C.Upheld (f <$> x) s := Triple.map f hx

theorem ofExcept {r : Except Error α} (he : ∀ e, r = .error e → C.errs e s) (h : C.inv s) :
    C.Upheld (Op.ofExcept r) s :=
  Triple.ofExcept (fun _ _ => h) fun e hr => ⟨he e hr, h⟩

theorem orElse {wrap : ε → Error} {r : Except ε α} (he : ∀ e, C.errs (wrap e) s) (h : C.inv s) :
    C.Upheld (Op.orElse wrap r) s :=
  Triple.orElse (fun _ _ => h) fun e _ => ⟨he e, h⟩

theorem attempt (hx : C.Upheld x s) : C.Upheld (Op.attempt x) s :=
  Triple.attempt (hx.mono (fun _ _ ht => ht) fun _ _ ht => ⟨fun _ _ => ht.2, ht⟩)

theorem mapM {f : α → Op σ β} (hf : ∀ a s, C.inv s → C.Upheld (f a) s) (as : List α)
    (h : C.inv s) : C.Upheld (as.mapM f) s :=
  Triple.mapM hf as s h

theorem ite {c : Prop} [Decidable c] {y : Op σ α} (hx : C.Upheld x s) (hy : C.Upheld y s) :
    C.Upheld (if c then x else y) s := by
  split
  · exact hx
  · exact hy

theorem keeps (hx : C.Upheld x s) : Keeps C.inv x s :=
  Keeps.of_triple hx (fun _ _ ht => ht) fun _ _ ht => ht.2

end Upheld

end Contract

structure Storage.Meets (g : Storage σ) (C : Contract σ) : Prop where
  now : ∀ s, ∃ stamp : Time.Stamp, g.now.run s = (.ok stamp.text, s)
  perform : ∀ {α} {r : Request α} {s}, C.may r → C.inv s →
    Triple (g.perform r) s (fun a t => C.gives r a ∧ C.inv t) (fun e t => C.errs e t ∧ C.inv t)
  overflow : ∀ s, C.errs (.fault .tooLarge) s

namespace Storage

theorem Meets.upheld {C : Contract σ} {g : Storage σ} {s : σ} {r : Request α} (hg : g.Meets C)
    (hr : C.may r) (h : C.inv s) : C.Upheld (g.perform r) s :=
  (hg.perform hr h).mono (fun _ _ ht => ht.2) fun _ _ ht => ht

/-! ## Faults -/

/-- What befalls a request. -/
inductive Mishap
  | passes
  /-- It fails and has no effect. -/
  | fails (failure : StorageFailure)
  /-- It fails when its effect is there already. -/
  | failsAfter (failure : StorageFailure)
deriving DecidableEq, Repr

/-- A storage whose requests fail on a schedule. Its state has what will befall
the next ones; what is not scheduled passes. -/
def faulty (g : Storage σ) : Storage (σ × List Mishap) where
  now := Op.within .first g.now
  perform r := fun (s, plan) =>
    let (answer, t) := (g.perform r).run s
    match plan with
    | [] => (answer, (t, []))
    | .passes :: rest => (answer, (t, rest))
    | .fails failure :: rest => (.error (.storage failure), (s, rest))
    | .failsAfter failure :: rest => (.error (.storage failure), (t, rest))

variable {g : Storage σ} {r : Request α} {s : σ} {Q : α → σ → Prop} {E : Error → σ → Prop}

/-- Whatever befalls it, a request ends where it would have ended, or in a failure
where it began, or in a failure where it would have ended. -/
theorem triple_faulty (h : Triple (g.perform r) s Q E) (plan : List Mishap)
    (hfails : ∀ failure, E (.storage failure) s)
    (hq : ∀ a t failure, Q a t → E (.storage failure) t)
    (he : ∀ e t failure, E e t → E (.storage failure) t) :
    Triple (g.faulty.perform r) (s, plan) (fun a t => Q a t.1) (fun e t => E e t.1) := by
  rcases hr : (g.perform r).run s with ⟨e | a, t⟩
  · have ht := h.error hr
    simp only [Op.run] at hr
    rcases plan with _ | ⟨_ | failure | failure, rest⟩ <;>
      simp only [Triple, Op.run, Storage.faulty, hr]
    · exact ht
    · exact ht
    · exact hfails failure
    · exact he _ _ failure ht
  · have ht := h.ok hr
    simp only [Op.run] at hr
    rcases plan with _ | ⟨_ | failure | failure, rest⟩ <;>
      simp only [Triple, Op.run, Storage.faulty, hr]
    · exact ht
    · exact ht
    · exact hfails failure
    · exact hq _ _ failure ht

/-- Where nothing is scheduled for a request, it is answered as ever. -/
theorem run_faulty {plan : List Mishap} (hp : plan.head?.getD .passes = .passes) :
    (g.faulty.perform r).run (s, plan) =
      (((g.perform r).run s).1, (((g.perform r).run s).2, plan.tail)) := by
  rcases plan with _ | ⟨_ | failure | failure, rest⟩
  · rfl
  · rfl
  · cases hp
  · cases hp

theorem Meets.faulty {C : Contract σ} (hg : g.Meets C) (hstorage : ∀ f s, C.errs (.storage f) s) :
    g.faulty.Meets C.first where
  now := by
    rintro ⟨s, plan⟩
    obtain ⟨stamp, hnow⟩ := hg.now s
    refine ⟨stamp, ?_⟩
    show (Op.within .first g.now).run (s, plan) = _
    rw [Op.run_within_first, hnow]
  perform := by
    rintro α r ⟨s, plan⟩ hr h
    exact triple_faulty (hg.perform hr h) plan (fun f => ⟨hstorage f _, h⟩)
      (fun _ _ f ht => ⟨hstorage f _, ht.2⟩) (fun _ _ f ht => ⟨hstorage f _, ht.2⟩)
  overflow s := hg.overflow s.1

end Storage

end PropertyRisk
