import PropertyRisk.Proofs.Founded
import PropertyRisk.Proofs.Statements

/-!
# Writes, access by access

A write in the database is a transaction, asking for a connection, carrying out one
statement and committing it, and for some writes another connection on which the written
record is asked for again. Each of these accesses can fail. `Session.carryOut` is a write
whose accesses fail as they are told to; where none does it is the write of the store
(`calmly_carryOut`).

A statement that is refused has written nothing, and a transaction that fails is rolled back.
What no transaction covers is the closing question, which can fail after the write is
committed.
-/

namespace PropertyRisk

open Op (Triple)

/-- What is left to do of a write that is committed: to answer, or to ask again, for a
record that may be gone by now or for one that must be there. -/
inductive Closing (α : Type)
  | answer (a : α)
  | again (r : Request α)
  | stored (r : Request (Option α))

/-- Close a write, asking `self` where there is something to ask. -/
def Closing.through (self : Storage τ) : Closing α → Op τ α
  | answer a => pure a
  | again r => self.perform r
  | stored r => Tables.reread self r

/-- The operation by which a write asks again for what it wrote, if it does. -/
def Request.closing? : Request α → Option Operation
  | createRule _ | updateRule .. => some .getRule
  | createVulnerability _ | updateVulnerability .. => some .getVulnerability
  | createAssessment _ => some .getAssessment
  | createMitigationType _ => some .getMitigationType
  | _ => none

namespace Tables

/-- The statement of a write. -/
def write : Request α → Option (Op (World Tables) (Closing α))
  | .createRule d => some do return .stored (.getRule (.text (← insertRule d)))
  | .updateRule id change expected => some do
    return if ← changeRule id change expected then .again (.getRule id) else .answer none
  | .deleteRule id => some do return .answer (← deleteRule id)
  | .createVulnerability d => some do
    return .stored (.getVulnerability (.text (← insertVulnerability d)))
  | .updateVulnerability id change => some do
    return if ← changeVulnerability id change then .again (.getVulnerability id) else .answer none
  | .deleteVulnerability id => some do return .answer (← deleteVulnerability id)
  | .createAssessment d => some do
    return .stored (.getAssessment (.text (← insertAssessment d)))
  | .createObservationType d => some do return .answer (← insertObservationType d)
  | .createObservationValue d => some do return .answer (← insertObservationValue d)
  | .createMitigationType d => some do
    return .stored (.getMitigationType (← insertMitigationType d))
  | .createMitigationValue d => some do return .answer (← insertMitigationValue d)
  | _ => none

/-- What a write looks at before it asks for a connection: a tree that it is to write. -/
def prepared : Request α → Except Error Unit
  | .updateRule _ change _ =>
    ((change.tree.mapM TreeSource.read).mapError (.invalid <| .tree ·)).map fun _ => ()
  | _ => .ok ()

end Tables

/-! ## Sessions -/

/-- A database at work: what it holds, and which of the accesses to come fail. -/
structure Session where
  world : World Tables
  strikes : List Bool

namespace Session

def database : Op.Part Session (World Tables) := ⟨world, fun w s => { s with world := w }⟩

/-- One access to the database. -/
def access (operation : Operation) : Op Session Unit := fun s =>
  match s.strikes with
  | [] => (.ok (), s)
  | false :: rest => (.ok (), { s with strikes := rest })
  | true :: rest => (.error (.storage ⟨operation, .database⟩), { s with strikes := rest })

/-- Bring the tables back if an operation fails. Ids that it took stay taken. -/
def rollingBack (x : Op Session α) : Op Session α := fun s =>
  match x s with
  | (.ok a, t) => (.ok a, t)
  | (.error e, t) => (.error e, { t with world := { t.world with store := s.world.store } })

/-- A statement on a connection of its own, committed. -/
def transact (operation : Operation) (x : Op (World Tables) α) : Op Session α := rollingBack do
  access operation -- the connection
  access operation -- the statement
  let a ← Op.within database x
  access operation -- the commit
  return a

/-- A question on a connection of its own. -/
def query : Storage Session where
  now := Op.within database World.now
  perform r := do
    access r.operation -- the connection
    access r.operation -- the statement
    let a ← Op.within database (Tables.storage.perform r)
    access r.operation -- the rows
    return a

/-- A write with the statement `x`. -/
def carryOut (r : Request α) (x : Op (World Tables) (Closing α)) : Op Session α := do
  Op.ofExcept (Tables.prepared r)
  (← transact r.operation x).through query

end Session

/-! ## Writes and the questions that close them -/

/-- The question that closes a write, if there is one, is a read, and bears the name given. -/
def Closing.Reads (operation? : Option Operation) : Closing α → Prop
  | answer _ => True
  | again r => operation? = some r.operation ∧ Preliminary r.operation (Tables.storage.perform r)
  | stored r => operation? = some r.operation ∧ Preliminary r.operation (Tables.storage.perform r)

/-- What the statement of a write comes to: a question that closes the write, or a refusal
that has written nothing. -/
def Writes (operation : Operation) (closing? : Option Operation)
    (x : Op (World Tables) (Closing α)) : Prop :=
  ∀ w, Triple x w (fun c _ => c.Reads closing?) (Refused operation w.store)

theorem Atomic.writes {operation : Operation} {closing? : Option Operation}
    {x : Op (World Tables) β} {g : β → Closing α} (hx : Atomic operation x)
    (hg : ∀ b, (g b).Reads closing?) : Writes operation closing? (do return g (← x)) :=
  fun w => (hx w).bind fun b _ _ => Triple.pure (hg b)

namespace Tables

/-- What is no read has a statement. -/
theorem isSome_write (r : Request α) : (write r).isSome = !r.isRead := by
  cases r <;> rfl

theorem writes_of_write {r : Request α} {x : Op (World Tables) (Closing α)}
    (h : write r = some x) : Writes r.operation r.closing? x := by
  cases r <;> cases h
  case createRule d =>
    exact (atomic_insertRule d).writes fun _ => ⟨rfl, preliminary_getRule _⟩
  case updateRule id change expected =>
    refine (atomic_changeRule id change expected).writes fun found => ?_
    cases found
    · trivial
    · exact ⟨rfl, preliminary_getRule id⟩
  case deleteRule id => exact (atomic_deleteRule id).writes fun _ => trivial
  case createVulnerability d =>
    exact (atomic_insertVulnerability d).writes fun _ => ⟨rfl, preliminary_getVulnerability _⟩
  case updateVulnerability id change =>
    refine (atomic_changeVulnerability id change).writes fun found => ?_
    cases found
    · trivial
    · exact ⟨rfl, preliminary_getVulnerability id⟩
  case deleteVulnerability id => exact (atomic_deleteVulnerability id).writes fun _ => trivial
  case createAssessment d =>
    exact (atomic_insertAssessment d).writes fun _ => ⟨rfl, preliminary_getAssessment _⟩
  case createObservationType d => exact (atomic_insertObservationType d).writes fun _ => trivial
  case createObservationValue d => exact (atomic_insertObservationValue d).writes fun _ => trivial
  case createMitigationType d =>
    exact (atomic_insertMitigationType d).writes fun _ => ⟨rfl, preliminary_getMitigationType _⟩
  case createMitigationValue d => exact (atomic_insertMitigationValue d).writes fun _ => trivial

end Tables

/-! ## Transactions -/

namespace Session

variable {s t : Session}

/-- An access that fails leaves what the database holds. -/
theorem triple_access (operation : Operation) :
    Triple (access operation) s (fun _ t => t.world = s.world)
      (fun e t => Refused operation s.world.store e t.world) := by
  have hnamed (failure : StorageFailure)
      (h : Error.storage ⟨operation, .database⟩ = .storage failure) :
      failure.operation = operation := by
    cases h
    rfl
  rcases s with ⟨w, _ | ⟨_ | _, rest⟩⟩
  · exact Triple.of_run rfl rfl
  · exact Triple.of_run (t := ⟨w, rest⟩) rfl rfl
  · exact Triple.of_run_error (t := ⟨w, rest⟩) rfl ⟨rfl, hnamed⟩

theorem triple_within {x : Op (World Tables) α} {Q : α → World Tables → Prop}
    {E : Error → World Tables → Prop} (h : Triple x s.world Q E) :
    Triple (Op.within database x) s (fun a t => Q a t.world) (fun e t => E e t.world) := by
  rcases hx : x.run s.world with ⟨e | a, w⟩
  · exact Triple.of_run_error (t := { s with world := w })
      (by simp only [Op.run] at hx; simp only [Op.run, Op.within, database, hx]) (h.error hx)
  · exact Triple.of_run (t := { s with world := w })
      (by simp only [Op.run] at hx; simp only [Op.run, Op.within, database, hx]) (h.ok hx)

theorem triple_rollingBack {x : Op Session α} {Q : α → Session → Prop} {E : Error → Prop}
    (h : Triple x s Q fun e _ => E e) :
    Triple (rollingBack x) s Q fun e t => E e ∧ t.world.store = s.world.store := by
  rcases hx : x.run s with ⟨e | a, t⟩
  · exact Triple.of_run_error (t := { t with world := { t.world with store := s.world.store } })
      (by simp only [Op.run] at hx; simp only [Op.run, rollingBack, hx]) ⟨h.error hx, rfl⟩
  · exact Triple.of_run (by simp only [Op.run] at hx; simp only [Op.run, rollingBack, hx])
      (h.ok hx)

/-- A transaction that fails has written nothing; else it has written what its statement
writes. -/
theorem triple_transact {operation : Operation} {x : Op (World Tables) α}
    {Q : α → World Tables → Prop} (h : Triple x s.world Q (Refused operation s.world.store)) :
    Triple (transact operation x) s
      (fun a t => Q a t.world ∧ x.run s.world = (.ok a, t.world))
      (fun e t => Refused operation s.world.store e t.world) := by
  have haccess (u : Session) : Triple (access operation) u (fun _ t => t.world = u.world)
      (fun e _ => ∀ failure, e = .storage failure → failure.operation = operation) :=
    (triple_access operation).mono (fun _ _ h => h) fun _ _ h => h.2
  have hx : Triple x s.world (fun a w => Q a w ∧ x.run s.world = (.ok a, w))
      (fun e _ => ∀ failure, e = .storage failure → failure.operation = operation) :=
    Triple.of_forall (fun a w hr => ⟨h.ok hr, hr⟩) fun e w hr => (h.error hr).2
  -- whichever step fails, the tables are rolled back, so only the name of the failure is left
  refine (triple_rollingBack ?_).mono (fun _ _ h => h) fun e t h => ⟨h.2, h.1⟩
  refine (haccess s).bind fun _ t ht => (haccess t).bind fun _ u hu => ?_
  rw [← ht, ← hu] at hx ⊢
  refine (triple_within hx).bind fun a v hv => (haccess v).bind fun _ z hz => Triple.pure ?_
  rw [hz]
  exact hv

/-- A question leaves the tables as they are, however it ends. -/
theorem triple_query {r : Request α} (h : Preliminary r.operation (Tables.storage.perform r)) :
    Triple (query.perform r) s (fun _ t => t.world.store = s.world.store)
      (fun e t => Refused r.operation s.world.store e t.world) := by
  refine (triple_access r.operation).bind fun _ t ht => ?_
  rw [← ht]
  refine (triple_access r.operation).bind fun _ u hu => ?_
  rw [← hu]
  refine (triple_within (h u.world)).bind fun a v hv => ?_
  rw [← hv]
  exact (triple_access r.operation).bind fun _ z hz => Triple.pure (by rw [hz])

/-- Closing a write leaves the tables as they are; a failure bears the name of the closing
question. -/
theorem triple_through {operation? : Option Operation} {c : Closing α} (h : c.Reads operation?) :
    Triple (c.through query) s (fun _ t => t.world.store = s.world.store)
      (fun e t => t.world.store = s.world.store ∧
        ∀ failure, e = .storage failure → operation? = some failure.operation) := by
  have hask {β : Type} {r : Request β} (hr : operation? = some r.operation ∧
      Preliminary r.operation (Tables.storage.perform r)) :
      Triple (query.perform r) s (fun _ t => t.world.store = s.world.store)
        (fun e t => t.world.store = s.world.store ∧
          ∀ failure, e = .storage failure → operation? = some failure.operation) :=
    (triple_query hr.2).mono (fun _ _ h => h) fun e t h =>
      ⟨h.1, fun failure he => by rw [hr.1, h.2 failure he]⟩
  cases c with
  | answer a => exact Triple.pure rfl
  | again r => exact hask h
  | stored r =>
    refine (hask h).bind fun found t ht => ?_
    cases found with
    | none => exact Triple.throw ⟨ht, nofun⟩
    | some a => exact Triple.pure ht

theorem triple_carryOut {r : Request α} {x : Op (World Tables) (Closing α)}
    (hx : Tables.write r = some x) :
    Triple (carryOut r x) s
      (fun _ t => ∃ c w, x.run s.world = (.ok c, w) ∧ t.world.store = w.store)
      (fun e t => Refused r.operation s.world.store e t.world ∨
        (∃ c w, x.run s.world = (.ok c, w) ∧ t.world.store = w.store) ∧
          ∀ failure, e = .storage failure → r.closing? = some failure.operation) := by
  refine Triple.bind_check (fun e he => .inl ⟨rfl, ?_⟩) fun _ _ => ?_
  -- a tree that cannot be read is refused before any access, and is no failure of the storage
  · rintro failure rfl
    cases r <;> first
      | cases he
      | skip
    case updateRule id change expected =>
      rw [Tables.prepared] at he
      cases ht : change.tree.mapM TreeSource.read <;> rw [ht] at he <;> cases he
  · refine ((triple_transact (Tables.writes_of_write hx _)).mono (fun _ _ h => h)
      fun _ _ h => .inl h).bind ?_
    rintro c t ⟨hc, hrun⟩
    -- from here on the write is committed, however the closing question ends
    exact (triple_through hc).mono (fun _ u hu => ⟨c, t.world, hrun, hu⟩)
      fun e u hu => .inr ⟨⟨c, t.world, hrun, hu.1⟩, hu.2⟩

/-! ## Where no access fails -/

/-- A write of the store is its statement, closed through the store. -/
theorem perform_eq_write {r : Request α} {x : Op (World Tables) (Closing α)}
    (hx : Tables.write r = some x) :
    Tables.storage.perform r = x >>= Closing.through Tables.storage := by
  cases r <;> cases hx <;> rw [bind_assoc]
  case updateRule id change expected =>
    refine bind_congr (x := Tables.changeRule id change expected) fun found => ?_
    cases found <;> rfl
  case updateVulnerability id change =>
    refine bind_congr (x := Tables.changeVulnerability id change) fun found => ?_
    cases found <;> rfl
  all_goals first
    | rfl
    | exact (bind_pure _).symm

/-- A write looks at its tree before anything else. -/
theorem prepared_bind {r : Request α} {x : Op (World Tables) (Closing α)}
    (hx : Tables.write r = some x) : (do Op.ofExcept (Tables.prepared r); x) = x := by
  cases r <;> cases hx <;> try rfl
  case updateRule id change expected =>
    rw [Tables.prepared, Tables.changeRule]
    cases change.tree.mapM TreeSource.read <;> rfl

/-- With no failure to come, `x` does what `y` does to what the database holds. -/
def Calmly (x : Op Session α) (y : Op (World Tables) α) : Prop :=
  ∀ w, x.run ⟨w, []⟩ = ((y.run w).1, ⟨(y.run w).2, []⟩)

namespace Calmly

variable {x : Op Session α} {y : Op (World Tables) α}

theorem pure (a : α) : Calmly (pure a) (pure a) := fun _ => rfl

theorem throw (e : Error) : Calmly (throw e : Op Session α) (throw e) := fun _ => rfl

theorem ofExcept (r : Except Error α) : Calmly (Op.ofExcept r) (Op.ofExcept r) := by
  cases r
  · exact throw _
  · exact pure _

theorem within (y : Op (World Tables) α) : Calmly (Op.within database y) y := fun _ => rfl

theorem bind {f : α → Op Session β} {g : α → Op (World Tables) β} (hx : Calmly x y)
    (hf : ∀ a, Calmly (f a) (g a)) : Calmly (x >>= f) (y >>= g) := by
  intro w
  rw [Op.run_bind, Op.run_bind, hx w]
  rcases y.run w with ⟨_ | a, w'⟩
  · rfl
  · exact hf a w'

theorem after_access {operation : Operation} (hx : Calmly x y) :
    Calmly (do access operation; x) y := hx

theorem then_access {operation : Operation} (hx : Calmly x y) :
    Calmly (do let a ← x; access operation; return a) y := by
  have h := hx.bind (f := fun a => do access operation; return a) fun a => after_access (pure a)
  rwa [bind_pure] at h

/-- Where nothing is written on failure, rolling back does nothing. -/
theorem rollingBack (hx : Calmly x y) {Q : α → World Tables → Prop} {operation : Operation}
    (hy : ∀ w, Triple y w Q (Refused operation w.store)) : Calmly (rollingBack x) y := by
  intro w
  have hrun := hx w
  rcases hr : y.run w with ⟨e | a, w'⟩ <;> rw [hr] at hrun
  · have hw := ((hy w).error hr).1
    simp only [Op.run] at hrun
    simp only [Op.run, Session.rollingBack, hrun, ← hw]
  · simp only [Op.run] at hrun
    simp only [Op.run, Session.rollingBack, hrun]

theorem query (r : Request α) : Calmly (Session.query.perform r) (Tables.storage.perform r) :=
  .after_access <| .after_access <| .then_access <| .within _

theorem transact {operation : Operation} {Q : α → World Tables → Prop}
    (hy : ∀ w, Triple y w Q (Refused operation w.store)) : Calmly (transact operation y) y :=
  .rollingBack (.after_access <| .after_access <| .then_access <| .within _) hy

theorem through (c : Closing α) :
    Calmly (c.through Session.query) (c.through Tables.storage) := by
  cases c with
  | answer a => exact pure a
  | again r => exact query r
  | stored r =>
    refine (query r).bind fun found => ?_
    cases found with
    | none => exact throw _
    | some a => exact pure a

end Calmly

/-- A write none of whose accesses fails is the write of the store. -/
theorem calmly_carryOut {r : Request α} {x : Op (World Tables) (Closing α)}
    (hx : Tables.write r = some x) : Calmly (carryOut r x) (Tables.storage.perform r) := by
  have h : Calmly (carryOut r x) (do
      Op.ofExcept (Tables.prepared r)
      (← x).through Tables.storage) :=
    (Calmly.ofExcept _).bind fun _ =>
      (Calmly.transact (Tables.writes_of_write hx)).bind fun c => .through c
  rwa [← bind_assoc, prepared_bind hx, ← perform_eq_write hx] at h

/-- A write is all or nothing but for its closing question: if it fails under its own name,
the tables are as they were; if the closing question fails, the write is committed. An answer
means a committed write too, and a write none of whose accesses fails is the write of the
store. -/
theorem all_or_nothing_until_closing {r : Request α} {x : Op (World Tables) (Closing α)}
    (hx : Tables.write r = some x) {result : Except Error α}
    (hrun : (carryOut r x).run s = (result, t)) :
    (∀ failure, result = .error (.storage failure) →
      failure.operation = r.operation ∧ t.world.store = s.world.store ∨
      r.closing? = some failure.operation ∧
        ∃ c w, x.run s.world = (.ok c, w) ∧ t.world.store = w.store) ∧
    (∀ a, result = .ok a → ∃ c w, x.run s.world = (.ok c, w) ∧ t.world.store = w.store) ∧
    (s.strikes = [] → (Tables.storage.perform r).run s.world = (result, t.world)) := by
  refine ⟨?_, ?_, fun hs => ?_⟩
  · rintro failure rfl
    obtain ⟨hstore, hname⟩ | ⟨hwritten, hname⟩ := (triple_carryOut hx).error hrun
    · exact .inl ⟨hname failure rfl, hstore⟩
    · exact .inr ⟨hname failure rfl, hwritten⟩
  · rintro a rfl
    exact (triple_carryOut hx).ok hrun
  · rcases s with ⟨w, _⟩
    cases hs
    rw [calmly_carryOut hx w] at hrun
    cases hrun
    rfl

/-- A rule without conditions. -/
def bare : RuleDraft where
  name := .text "R"
  description := .text "d"
  tree := ⟨.and, []⟩

/-- Its creation in an empty database, of whose accesses some fail. -/
def creation (strikes : List Bool) : Except Error Rule × Session :=
  (carryOut (.createRule bare) (do return .stored (.getRule (.text (← Tables.insertRule bare))))).run
    ⟨Backing.start .tables, strikes⟩

/-- The commit fails: there is no rule. -/
theorem creation_undone :
    (creation [false, false, true]).1 = .error (.storage ⟨.createRule, .database⟩) ∧
      (creation [false, false, true]).2.world.store = (Backing.start .tables).store := by
  have hrun : creation [false, false, true] =
      (.error (.storage ⟨.createRule, .database⟩), (creation [false, false, true]).2) := rfl
  obtain ⟨-, hstore⟩ | ⟨hname, -⟩ := (all_or_nothing_until_closing rfl hrun).1 _ rfl
  · exact ⟨rfl, hstore⟩
  · exact absurd hname (by decide)

/-- The connection of the closing question fails: the creation is reported as failed, and the
rule stays. -/
theorem creation_kept :
    (creation [false, false, false, true]).1 = .error (.storage ⟨.getRule, .database⟩) ∧
      (Backing.start .tables).store.rules.rows.records.map RuleRow.name = [] ∧
      (creation [false, false, false, true]).2.world.store.rules.rows.records.map RuleRow.name =
        ["R"] :=
  ⟨rfl, rfl, rfl⟩

end Session

end PropertyRisk
