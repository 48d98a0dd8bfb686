import PropertyRisk.Proofs.Visits

/-!
# Stores that can be read

A store is legible when every document, window and detection time in it can be
read. `Backing.perform_legible`: what the engine asks of such a store, on what it
has checked, is refused by no rejection and leaves the store legible. So once a
call has begun to write, the store gives it no cause to reject it.
-/

namespace PropertyRisk

open Op (Triple Keeps Quiet)
open Engine

/-- Whether an operation ends in no rejection, wherever it begins. -/
def Op.Accepts (x : Op σ α) : Prop :=
  ∀ s, Triple x s (fun _ _ => True) (fun e _ => e.isRejection = false)

namespace Op.Accepts

variable {x : Op σ α} {f : α → Op σ β}

theorem pure (a : α) : Accepts (pure a : Op σ α) := fun _ => Triple.pure trivial

theorem throw {e : Error} (he : e.isRejection = false) : Accepts (throw e : Op σ α) :=
  fun _ => Triple.throw he

theorem ofExcept {r : Except Error α} (he : ∀ e, r = .error e → e.isRejection = false) :
    Accepts (ofExcept r : Op σ α) :=
  fun _ => Triple.ofExcept (fun _ _ => trivial) he

theorem bind (hx : Accepts x) (hf : ∀ a, Accepts (f a)) : Accepts (x >>= f) :=
  fun s => (hx s).bind fun a t _ => hf a t

theorem ite {c : Prop} [Decidable c] {y : Op σ α} (hx : Accepts x) (hy : Accepts y) :
    Accepts (if c then x else y) := by
  split
  · exact hx
  · exact hy

theorem mapM (hf : ∀ a, Accepts (f a)) (as : List α) : Accepts (as.mapM f) :=
  fun s => Triple.mapM (I := fun _ => True) (fun a t _ => hf a t) as s trivial

end Op.Accepts

namespace View

variable {S : Type} {v : View S} {w w' : World S} {rules : Shelf Key Rule}
  {found : Shelf Key Vulnerability} {s : String}

/-- Rules whose windows can be read. -/
structure Timely (v : View S) (rules : Shelf Key Rule) : Prop where
  shelved : v.Shelved Rule.id rules
  windows : ∀ r ∈ rules.records, r.window.Readable

namespace Timely

theorem put (h : v.Timely rules) (hs : v.Plain s) {r : Rule} (hid : r.id = .text s)
    (hr : r.window.Readable) : v.Timely (rules.put (.text s) r) where
  shelved := h.shelved.put hs hid
  windows x hx := (Shelf.mem_records_put hx).elim (fun he => he ▸ hr) (h.windows x)

theorem drop (h : v.Timely rules) (operation : Operation) (id : Value) :
    v.Timely (v.drop operation id rules) where
  shelved := h.shelved.drop operation id
  windows x hx := h.windows x (mem_records_of_drop hx)

end Timely

/-- Vulnerabilities whose detection times can be read. -/
structure Dated (v : View S) (found : Shelf Key Vulnerability) : Prop where
  shelved : v.Shelved Vulnerability.id found
  stamped : Stamped found.records

theorem Dated.put (h : v.Dated found) (hs : v.Plain s) {x : Vulnerability} (hid : x.id = .text s)
    (hx : ∃ stamp, requireStampValue x.detectedAt = .ok stamp) :
    v.Dated (found.put (.text s) x) where
  shelved := h.shelved.put hs hid
  stamped y hy := (Shelf.mem_records_put hy).elim (fun he => he ▸ hx) (h.stamped y)

theorem Dated.drop (h : v.Dated found) (operation : Operation) (id : Value) :
    v.Dated (v.drop operation id found) where
  shelved := h.shelved.drop operation id
  stamped y hy := h.stamped y (mem_records_of_drop hy)

/-- A store in which everything that is to be read can be. -/
structure Legible (v : View S) (w : World S) : Prop where
  whole : v.Whole w.store
  plain : ∀ n, v.Plain (w.idOf n)
  rules : v.Timely (v.records w.store).rules
  found : v.Dated (v.records w.store).vulnerabilities

/-- The requests that the engine makes on what it has checked. Changes of rules are
not among them, since the rule must be there. -/
def Sane (v : View S) : {α : Type} → Request α → Prop
  | _, .createRule d => d.IsChecked
  | _, .updateRule .. => False
  | _, .createVulnerability d => d.IsOpening
  | _, .updateVulnerability _ change => change.IsWorkflow
  | _, .createAssessment d => v.Noted d.observations
  | _, .listRulesEffectiveAt time | _, .listVulnerabilitiesForProperty _ (some time) =>
    ∃ stamp, requireStampValue time = .ok stamp
  | _, _ => True

/-- What can be read in an answer, too. -/
def Tells : {α : Type} → Request α → α → Prop
  | _, .getRule _, found => ∀ r, found = some r → r.window.Readable
  | _, .createAssessment d, a =>
    (d.assessedAt = .text "" ∨ ∃ stamp : Time.Stamp, d.assessedAt = .text stamp.text) →
      ∃ stamp, requireStampValue a.assessedAt = .ok stamp
  | _, _, _ => True

namespace Legible

theorem issue (h : v.Legible w) (n : Nat) : v.Legible { w with issued := n } :=
  ⟨h.whole, h.plain, h.rules, h.found⟩

theorem becomes (h : v.Legible w) {m : Memory} (hb : v.Becomes w m w') (hrules : v.Timely m.rules)
    (hfound : v.Dated m.vulnerabilities) : v.Legible w' where
  whole := hb.whole
  plain := hb.idOf ▸ h.plain
  rules := hb.records ▸ hrules
  found := hb.records ▸ hfound

end Legible

end View

/-! ## Windows and times -/

theorem effectiveAmong_of_readable (rules : List Rule) {time : Value}
    (ht : ∃ stamp, requireStampValue time = .ok stamp) (h : ∀ r ∈ rules, r.window.Readable) :
    ∃ rs, effectiveAmong time rules = .ok rs := by
  obtain ⟨stamp, hstamp⟩ := ht
  induction rules with
  | nil => exact ⟨[], rfl⟩
  | cons r rest ih =>
    obtain ⟨rs, hrs⟩ := ih fun r hr => h r (List.mem_cons_of_mem _ hr)
    obtain ⟨effective, hw⟩ := (h r List.mem_cons_self).contains stamp
    refine ⟨if effective then r :: rs else rs, ?_⟩
    simp only [effectiveAmong, Window.containsValue, hstamp, hw, hrs]

theorem Rule.window_changed {r : Rule} {change : RuleChange} {tree : Option Criteria}
    {now : String} (h : r.window.Readable) (hc : change.IsChecked) :
    (r.changed change tree now).window.Readable := by
  rcases hc.window with ⟨hfrom, hto⟩ | ⟨w, hw, hfrom, hto⟩
  · simp only [window, changed, hfrom, hto, Option.getD_none]
    exact h
  · simp only [window, changed, hfrom, hto, Option.getD_some]
    exact hw.readable

/-- The window of a new rule can be read as it was checked. -/
theorem RuleDraft.IsChecked.readable {d : RuleDraft} (h : d.IsChecked) (now : String) :
    (Window.mk (d.effectiveFrom.orElse (.text now)) d.effectiveTo).Readable := by
  obtain ⟨a, ha⟩ := h.window.start
  have ha : d.effectiveFrom = .text a.text := ha
  have hstart : d.effectiveFrom.orElse (.text now) = d.effectiveFrom := by
    rw [ha, Value.orElse_stamp]
  rw [hstart]
  exact h.window.readable

/-! ## In memory -/

namespace Memory

variable {w : World Memory}

theorem triple_look {f : Memory → Except Error α} {P : α → Prop}
    (hok : ∀ a, f w.store = .ok a → P a)
    (herr : ∀ e, f w.store = .error e → e.isRejection = false) :
    Triple (look f) w (fun a _ => P a) (fun e _ => e.isRejection = false) :=
  Triple.of_run_except (run_look f w) hok herr

theorem accepted_of_keyOf {id : Value} {e : Error} (h : keyOf id = .error e) :
    e.isRejection = false := by
  unfold keyOf at h
  split at h <;> cases h
  rfl

theorem accepted_of_find {shelf : Shelf Key α} {id : Value} {e : Error}
    (h : find shelf id = .error e) : e.isRejection = false := by
  unfold find at h
  split at h <;> cases h
  rename_i hk
  exact accepted_of_keyOf hk

theorem accepted_of_place {shelf : Shelf Key α} {id : Value} {a : α} {e : Error}
    (h : place id a shelf = .error e) : e.isRejection = false := by
  unfold place at h
  split at h <;> cases h
  rename_i hk
  exact accepted_of_keyOf hk

theorem accepted_of_without {shelf : Shelf Key α} {id : Value} {e : Error}
    (h : without id shelf = .error e) : e.isRejection = false := by
  unfold without at h
  split at h <;> cases h
  rename_i hk
  exact accepted_of_keyOf hk

theorem accepted_of_findAll {shelf : Shelf Key α} {ids : List Value} {e : Error}
    (h : findAll shelf ids = .error e) : e.isRejection = false := by
  induction ids with
  | nil => cases h
  | cons id rest ih =>
    unfold findAll at h
    split at h
    · cases h
      rename_i hf
      exact accepted_of_find hf
    · split at h <;> cases h
      rename_i hr
      exact ih hr

theorem accepted_of_inOrder {key : α → Value} {records : List α} {e : Error}
    (h : inOrder key records = .error e) : e.isRejection = false := by
  unfold inOrder at h
  split at h <;> cases h
  rfl

theorem mem_of_find {shelf : Shelf Key α} {id : Value} {a : α} (h : find shelf id = .ok (some a)) :
    a ∈ shelf.records := by
  unfold find at h
  split at h
  · cases h
  · by_cases hn : id.isNaN
    · simp [hn] at h
    · simp only [hn, Bool.false_eq_true, if_false, Except.ok.injEq] at h
      exact Shelf.mem_records_of_get? h

theorem accepts_filed {given : Value} {make : Value → α} {idOf : α → Value}
    {shelf : Memory → Shelf Key α} {set : Memory → Shelf Key α → Memory} :
    Op.Accepts (filed given make idOf shelf set) := by
  refine Op.Accepts.bind ?_ fun id => Op.Accepts.bind (fun _ => trivial) fun m =>
    Op.Accepts.bind (.ofExcept fun e he => accepted_of_place he) fun _ => fun _ => trivial
  unfold World.idOr
  exact .ite (.pure _) (Op.Accepts.bind (fun _ => trivial) fun _ => .pure _)

theorem ofProperty_of_stamped (h : w.store.Stamped) {p : Value}
    {until_ : Option Value} (hu : ∀ t, until_ = some t → ∃ stamp, requireStampValue t = .ok stamp) :
    ∃ xs, w.store.ofProperty p until_ = .ok xs := by
  have hsub : PropertyRisk.Stamped (w.store.vulnerabilities.records.filter (·.propertyId.equal p)) :=
    PropertyRisk.Stamped.sublist h fun x hx => List.mem_of_mem_filter hx
  unfold ofProperty
  cases until_ with
  | none =>
    obtain ⟨xs, hxs, -⟩ := byDetection_of_stamped hsub
    exact ⟨xs, hxs⟩
  | some t =>
    obtain ⟨stamp, hstamp⟩ := hu t rfl
    obtain ⟨stamped, hs, hmap, -⟩ := stampAll_of_stamped hsub
    have hcut : PropertyRisk.Stamped ((stamped.filter (·.1.le stamp)).map (·.2)) := by
      refine hsub.sublist fun x hx => ?_
      obtain ⟨q, hq, rfl⟩ := List.mem_map.mp hx
      exact hmap ▸ List.mem_map.mpr ⟨q, List.mem_of_mem_filter hq, rfl⟩
    obtain ⟨xs, hxs, -⟩ := byDetection_of_stamped hcut
    exact ⟨xs, by simp only [hstamp, hs, hxs]⟩

/-- Reads are answered, or fail for want of a shape. -/
theorem triple_read (h : view.Legible w) {r : Request α} (hread : r.isRead) (hr : view.Sane r) :
    Triple (view.storage.perform r) w (fun a _ => View.Tells r a)
      (fun e _ => e.isRejection = false) := by
  cases r <;> first
    | exact absurd hread Bool.false_ne_true
    | simp only [perform_eq, answer, Op.within_whole]
  case getRule id =>
    refine triple_look (fun found hf r hr => ?_) fun e => accepted_of_find
    exact h.rules.windows r (mem_of_find (hr ▸ hf))
  case listRules => exact triple_look (fun _ _ => trivial) fun _ he => by cases he
  case listRulesEffectiveAt time =>
    obtain ⟨rs, hrs⟩ := effectiveAmong_of_readable _ hr h.rules.windows
    refine Triple.bind_run (run_look _ w) (Triple.ofExcept (fun _ _ => trivial) fun e he => ?_)
    cases hrs.symm.trans he
  case getVulnerability id => exact triple_look (fun _ _ => trivial) fun e => accepted_of_find
  case listVulnerabilitiesForRule id =>
    obtain ⟨xs, hxs, -⟩ := byDetection_of_stamped (PropertyRisk.Stamped.sublist h.found.stamped
      fun x (hx : x ∈ w.store.vulnerabilities.records.filter (·.ruleId.equal id)) =>
        List.mem_of_mem_filter hx)
    exact triple_look (fun _ _ => trivial) fun e he => by cases hxs.symm.trans he
  case listVulnerabilitiesForProperty p until_ =>
    have hu : ∀ t, until_ = some t → ∃ stamp, requireStampValue t = .ok stamp := by
      rintro t rfl
      exact hr
    obtain ⟨xs, hxs⟩ := ofProperty_of_stamped h.found.stamped hu (p := p)
    exact triple_look (fun _ _ => trivial) fun e he => by cases hxs.symm.trans he
  case getAssessment id => exact triple_look (fun _ _ => trivial) fun e => accepted_of_find
  case listObservationTypes => exact triple_look (fun _ _ => trivial) fun e => accepted_of_inOrder
  case getObservationTypes ids => exact triple_look (fun _ _ => trivial) fun e => accepted_of_findAll
  case getObservationValues ids =>
    exact triple_look (fun _ _ => trivial) fun e => accepted_of_findAll
  case getMitigationType id => exact triple_look (fun _ _ => trivial) fun e => accepted_of_find
  case listMitigationTypes => exact triple_look (fun _ _ => trivial) fun e => accepted_of_inOrder
  case listMitigationValues id =>
    exact triple_look (fun _ _ => trivial) fun e => accepted_of_inOrder
  case ping => exact Triple.pure trivial

theorem accepts_deleteRule (id : Value) : Op.Accepts (deleteRule id) :=
  Op.Accepts.bind (fun _ => trivial) fun _ =>
    Op.Accepts.bind (.ofExcept fun _ => accepted_of_find) fun _ =>
      Op.Accepts.bind (.ofExcept fun _ => accepted_of_without) fun _ => fun _ => trivial

theorem accepts_deleteVulnerability (id : Value) : Op.Accepts (deleteVulnerability id) :=
  Op.Accepts.bind (fun _ => trivial) fun _ =>
    Op.Accepts.bind (.ofExcept fun _ => accepted_of_find) fun _ =>
      Op.Accepts.bind (.ofExcept fun _ => accepted_of_without) fun _ => fun _ => trivial

theorem accepts_updateVulnerability (id : Value) (change : VulnerabilityChange) :
    Op.Accepts (updateVulnerability id change) := by
  refine Op.Accepts.bind (fun _ => trivial) fun _ =>
    Op.Accepts.bind (.ofExcept fun _ => accepted_of_find) fun found => ?_
  cases found with
  | none => exact .pure _
  | some x =>
    refine .ite (.throw rfl) (Op.Accepts.bind (fun _ => trivial) fun _ =>
      Op.Accepts.bind (.ofExcept fun _ => accepted_of_place) fun _ => fun _ => trivial)

theorem accepts_write {r : Request α} (hwrite : r.isRead = false) (hr : view.Sane r) :
    Op.Accepts (view.storage.perform r) := by
  cases r <;> first
    | exact Bool.noConfusion hwrite
    | exact hr.elim
    | simp only [perform_eq, answer, Op.within_whole, createObservationType_eq,
        createObservationValue_eq, createMitigationType_eq, createMitigationValue_eq]
  case createRule d => exact fun _ => trivial
  case deleteRule id => exact accepts_deleteRule id
  case createVulnerability d => exact fun _ => trivial
  case updateVulnerability id change => exact accepts_updateVulnerability id change
  case deleteVulnerability id => exact accepts_deleteVulnerability id
  case createAssessment d => exact fun _ => trivial
  all_goals exact accepts_filed

/-- Writes leave everything to be read. -/
theorem triple_write (h : view.Legible w) {r : Request α} (hwrite : r.isRead = false)
    (hr : view.Sane r) :
    Triple (view.storage.perform r) w (fun a w' => View.Tells r a ∧ view.Legible w')
      (fun _ => view.Legible) := by
  have hkeep {x : Op (World Memory) α} (hk : Keeps view.Legible x w)
      (ht : ∀ a : α, View.Tells r a) :
      Triple x w (fun a w' => View.Tells r a ∧ view.Legible w') (fun _ => view.Legible) :=
    hk.mono (fun a _ hl => ⟨ht a, hl⟩) fun _ _ hl => hl
  cases r <;> try exact Bool.noConfusion hwrite
  case createRule d =>
    refine Triple.of_run rfl ⟨trivial, h.becomes becomes_issued ?_ h.found⟩
    exact h.rules.put trivial rfl (RuleDraft.IsChecked.readable hr _)
  case updateRule => exact hr.elim
  case deleteRule id =>
    exact hkeep (Keeps.of_run (run_deleteRule (.of_shelved h.rules.shelved))
      (h.becomes becomes (h.rules.drop _ _) h.found)) fun _ => trivial
  case createVulnerability d =>
    refine Triple.of_run rfl ⟨trivial, h.becomes becomes_issued h.rules (h.found.put trivial rfl ?_)⟩
    obtain ⟨stamp, hstamp⟩ := VulnerabilityDraft.IsOpening.detectedAt hr
    exact ⟨stamp, by rw [hstamp, Value.orElse_stamp, requireStampValue_text]⟩
  case updateVulnerability id change =>
    refine (triple_updateVulnerability h.found.shelved hr).mono ?_ fun _ _ he => he ▸ h
    rintro (_ | y) w' hw'
    · obtain rfl : w' = w := hw'
      exact ⟨trivial, h⟩
    · obtain ⟨s, x, hget, hsame, hb⟩ := hw'
      obtain ⟨-, hid⟩ := h.found.shelved.id_of_get? hget
      refine ⟨trivial, h.becomes hb h.rules (h.found.put trivial (hsame.id.trans hid) ?_)⟩
      exact hsame.detectedAt ▸ h.found.stamped _ (Shelf.mem_records_of_get? hget)
  case deleteVulnerability id =>
    exact hkeep (Keeps.of_run (run_deleteVulnerability h.found.shelved)
      (h.becomes becomes h.rules (h.found.drop _ _))) fun _ => trivial
  case createAssessment d =>
    refine Triple.of_run rfl ⟨fun hd => ?_, h.becomes becomes_issued h.rules h.found⟩
    obtain ⟨stamp, hstamp⟩ := Value.exists_orElse_stamp w.clock hd
    exact ⟨stamp, (congrArg requireStampValue hstamp).trans (requireStampValue_text stamp)⟩
  all_goals
    refine hkeep (Keeps.of_triple (keeps_catalogs (w := w) rfl) ?_ ?_) fun _ => trivial
    all_goals
      rintro _ w' ⟨m, hrules, hfound, -, hb⟩
      exact h.becomes hb (hrules ▸ h.rules) (hfound ▸ h.found)

theorem perform_legible (h : view.Legible w) {r : Request α} (hr : view.Sane r) :
    Triple (view.storage.perform r) w (fun a w' => View.Tells r a ∧ view.Legible w')
      (fun e w' => e.isRejection = false ∧ view.Legible w') := by
  cases hread : r.isRead with
  | true => exact (triple_read h hread hr).and ((quiet_of_isRead hread).keeps h)
  | false =>
    exact ((accepts_write hread hr w).and (triple_write h hread hr)).mono (fun _ _ ht => ht.2)
      fun _ _ ht => ht

/-- A rule that is not there is not deleted. -/
theorem triple_deleteRule (h : view.Legible w) (id : Value) :
    Triple (view.storage.perform (.deleteRule id)) w
      (fun deleted w' => deleted = false → w'.store = w.store) (fun _ _ => True) := by
  refine Triple.of_run_except (run_deleteRule (.of_shelved h.rules.shelved)) (fun deleted hd hno => ?_)
    fun _ _ => trivial
  subst hno
  rcases hlook : view.look .deleteRule id w.store.rules with e | _ | r <;> rw [hlook] at hd <;>
    cases hd
  have hsame : view.drop .deleteRule id w.store.rules = w.store.rules := by
    unfold View.drop
    split
    · rename_i s hn
      rw [View.look_of_name hn] at hlook
      exact Shelf.erase_of_get?_none (Except.ok.inj hlook)
    · rfl
  show ({ w.store with rules := view.drop .deleteRule id w.store.rules } : Memory) = w.store
  rw [hsame]

/-- A rule that was read is there to be changed. -/
theorem triple_updateRule (h : view.Legible w) {id : Value} {s : String} {r : Rule}
    {change : RuleChange} (hn : view.name .updateRule id = .ok (some s))
    (hr : w.store.rules.get? (.text s) = some r) (hc : change.IsChecked) :
    Triple (view.storage.perform (.updateRule id change (some (.int r.version)))) w
      (fun found w' => found ≠ none ∧ view.Legible w')
      (fun e w' => e.isRejection = false ∧ view.Legible w') := by
  obtain ⟨tree, hproper, -⟩ := hc.proper
  cases eq_text_of_name hn
  have hid : (r.changed change tree w.clock.text).id = .text s := by
    simp only [Rule.changed, hproper.id, Option.getD_none]
    exact (h.rules.shelved.id_of_get? hr).2
  refine Triple.of_run (run_updateRule hr hproper) ⟨Option.some_ne_none _, h.becomes becomes ?_ h.found⟩
  exact h.rules.put trivial hid
    (Rule.window_changed (h.rules.windows r (Shelf.mem_records_of_get? hr)) hc)

end Memory

/-! ## In tables -/

namespace Tables

variable {w : World Tables}

theorem accepted_of_name {operation : Operation} {id : Value} {e : Error}
    (h : view.name operation id = .error e) : e.isRejection = false :=
  accepted_of_boundCell h

theorem accepted_of_look {operation : Operation} {id : Value} {shelf : Shelf Key α} {e : Error}
    (h : view.look operation id shelf = .error e) : e.isRejection = false := by
  unfold View.look at h
  rcases hn : view.name operation id with e' | s? <;> rw [hn] at h <;> cases h
  exact accepted_of_name hn

/-- What is deleted is looked for first. -/
theorem accepted_of_map_look {operation : Operation} {id : Value} {shelf : Shelf Key α}
    {f : Option α → β} {e : Error} (h : (view.look operation id shelf).map f = .error e) :
    e.isRejection = false := by
  rcases hlook : view.look operation id shelf with e' | found <;> rw [hlook] at h <;> cases h
  exact accepted_of_look hlook

theorem accepts_prepare (operation : Operation) (touch : Touch) (t : Table α) :
    Op.Accepts (prepare operation touch t) :=
  .ite (.pure ()) (.throw rfl)

theorem accepts_bindText (operation : Operation) (x : Value) : Op.Accepts (bindText operation x) :=
  bindText_eq operation x ▸ .ofExcept fun _ => accepted_of_boundCell

theorem accepts_notNull (operation : Operation) (cell : Option α) :
    Op.Accepts (notNull operation cell) :=
  notNull_eq operation cell ▸ .ofExcept fun _ => accepted_of_requiredCell

theorem accepts_insert (operation : Operation) (t : Table α) (id : String) (row : α) :
    Op.Accepts (Tables.insert operation t id row) :=
  .ite (.throw rfl) (.pure _)

theorem accepts_select (operation : Operation) (table : Tables → Table α) :
    Op.Accepts (select operation table) :=
  Op.Accepts.bind (fun _ => trivial) fun _ => (accepts_prepare _ _ _).bind fun _ => .pure _

theorem accepts_selectOne (operation : Operation) (table : Tables → Table α) (id : Value) :
    Op.Accepts (selectOne operation table id) :=
  Op.Accepts.bind (fun _ => trivial) fun _ => (accepts_prepare _ _ _).bind fun _ =>
    (accepts_bindText _ _).bind fun _ => .pure _

theorem accepts_selectByIds (operation : Operation) (table : Tables → Table α) (idOf : α → String)
    (ids : List Value) : Op.Accepts (selectByIds operation table idOf ids) :=
  .ite (.pure []) <| (accepts_select _ _).bind fun _ =>
    (Op.Accepts.mapM (accepts_bindText operation) ids).bind fun _ => .pure _

theorem accepts_idOr (given : Value) : Op.Accepts (World.idOr given : Op (World Tables) Value) :=
  .ite (.pure given) (Op.Accepts.bind (fun _ => trivial) fun _ => .pure _)

/-- The end of every statement that adds a row. -/
theorem accepts_added {operation : Operation} {table : Table α} {id : String} {row : α}
    {set : Table α → Tables} {a : β} :
    Op.Accepts (do
      let new ← Tables.insert operation table id row
      World.save (set new)
      return a) :=
  (accepts_insert _ _ _ _).bind fun _ => fun _ => trivial

theorem accepts_insertObservationType (d : ObservationTypeDraft) :
    Op.Accepts (insertObservationType d) := by
  refine (accepts_idOr _).bind fun given => Op.Accepts.bind (fun _ => trivial) fun s =>
    (accepts_prepare _ _ _).bind fun _ => ?_
  iterate 4 refine (accepts_bindText _ _).bind fun _ => ?_
  iterate 3 refine (accepts_notNull _ _).bind fun _ => ?_
  exact accepts_added

theorem accepts_insertObservationValue (d : ObservationValueDraft) :
    Op.Accepts (insertObservationValue d) := by
  refine (accepts_idOr _).bind fun given => Op.Accepts.bind (fun _ => trivial) fun s =>
    (accepts_prepare _ _ _).bind fun _ => ?_
  iterate 4 refine (accepts_bindText _ _).bind fun _ => ?_
  iterate 3 refine (accepts_notNull _ _).bind fun _ => ?_
  exact accepts_added

theorem accepts_insertMitigationType (d : MitigationTypeDraft) :
    Op.Accepts (insertMitigationType d) := by
  refine (accepts_idOr _).bind fun given => Op.Accepts.bind (fun _ => trivial) fun s =>
    (accepts_prepare _ _ _).bind fun _ => ?_
  iterate 4 refine (accepts_bindText _ _).bind fun _ => ?_
  iterate 3 refine (accepts_notNull _ _).bind fun _ => ?_
  exact accepts_added

theorem accepts_insertMitigationValue (d : MitigationValueDraft) :
    Op.Accepts (insertMitigationValue d) := by
  refine (accepts_idOr _).bind fun given => Op.Accepts.bind (fun _ => trivial) fun s =>
    (accepts_prepare _ _ _).bind fun _ => ?_
  iterate 5 refine (accepts_bindText _ _).bind fun _ => ?_
  iterate 4 refine (accepts_notNull _ _).bind fun _ => ?_
  exact accepts_added

theorem accepts_listForProperty {p : Value} {until_ : Option Value}
    (hstamped : Stamped (records w.store).vulnerabilities.records)
    (hu : ∀ t, until_ = some t → ∃ stamp, requireStampValue t = .ok stamp) :
    Triple (listForProperty p until_) w (fun _ _ => True) (fun e _ => e.isRejection = false) := by
  simp only [listForProperty, select, bind_assoc, bindNumber_eq]
  refine Triple.bind_run (World.run_stored w) (Triple.bind (accepts_prepare _ _ _ w) fun _ t _ => ?_)
  rw [pure_bind]
  refine Triple.bind_check (fun _ => accepted_of_boundCell) fun q _ => ?_
  cases until_ with
  | none => exact Triple.pure trivial
  | some time =>
    obtain ⟨stamp, hstamp⟩ := hu time rfl
    have hrows : Stamped (byDetection
        (w.store.vulnerabilities.rows.records.filter (·.propertyId.equal q))) := by
      refine hstamped.sublist fun x hx => ?_
      obtain ⟨row, hrow, rfl⟩ := List.mem_map.mp ((byDetection_perm _).mem_iff.mp hx)
      rw [records, Shelf.records_relabel]
      exact List.mem_map.mpr ⟨row, List.mem_of_mem_filter hrow, rfl⟩
    obtain ⟨stamped, hs, -⟩ := stampAll_of_stamped hrows
    simp only [hstamp, hs]
    exact Triple.pure trivial

/-- Reads are answered, or fail for want of what a column takes. -/
theorem triple_read (h : view.Legible w) {r : Request α} (hread : r.isRead) (hr : view.Sane r) :
    Triple (view.storage.perform r) w (fun a _ => View.Tells r a)
      (fun e _ => e.isRejection = false) := by
  cases r <;> try exact absurd hread Bool.false_ne_true
  case getRule id =>
    refine Triple.of_run_except (run_getRule h.whole.toReadsRules) (fun found hf r hr => ?_)
      fun _ => accepted_of_look
    obtain ⟨s, -, hget⟩ := View.look_eq_some.mp (hr ▸ hf)
    exact h.rules.windows r (Shelf.mem_records_of_get? hget)
  case listRules => exact Triple.of_run (run_listRules h.whole.toReadsRules) trivial
  case listRulesEffectiveAt time =>
    obtain ⟨rs, hrs⟩ := effectiveAmong_of_readable ((sortedByTexts RuleRow.createdAt
      RuleRow.id w.store.rules.rows.records).map RuleRow.record) hr fun r hm => by
        obtain ⟨row, hrow, rfl⟩ := List.mem_map.mp hm
        refine h.rules.windows _ ?_
        show _ ∈ Shelf.records (Shelf.relabel _ _ _)
        rw [Shelf.records_relabel]
        exact List.mem_map.mpr ⟨row, (List.mergeSort_perm _ _).mem_iff.mp hrow, rfl⟩
    refine Triple.bind_run (run_listRules h.whole.toReadsRules)
      (Triple.ofExcept (fun _ _ => trivial) fun e he => ?_)
    exact nomatch hrs.symm.trans he
  case getVulnerability id =>
    exact Triple.of_run_except (run_getVulnerability h.whole) (fun _ _ => trivial)
      fun _ => accepted_of_look
  case listVulnerabilitiesForRule id =>
    exact (accepts_select _ _).bind (fun _ => (accepts_bindText _ _).bind fun _ => .pure _) w
  case listVulnerabilitiesForProperty p until_ =>
    refine accepts_listForProperty h.found.stamped ?_
    rintro t rfl
    exact hr
  case getAssessment id =>
    exact Triple.of_run_except (run_getAssessment h.whole) (fun _ _ => trivial)
      fun _ => accepted_of_look
  case listObservationTypes => exact (accepts_select _ _).bind (fun _ => .pure _) w
  case getObservationTypes ids => exact (accepts_selectByIds _ _ _ _).bind (fun _ => .pure _) w
  case getObservationValues ids => exact (accepts_selectByIds _ _ _ _).bind (fun _ => .pure _) w
  case getMitigationType id => exact (accepts_selectOne _ _ _).bind (fun _ => .pure _) w
  case listMitigationTypes => exact (accepts_select _ _).bind (fun _ => .pure _) w
  case listMitigationValues id =>
    exact (accepts_select _ _).bind (fun _ => (accepts_bindText _ _).bind fun _ => .pure _) w
  case ping => exact trivial

theorem tag_null : tag .null = .null := rfl

/-- Columns keep a checked window as it is. -/
theorem window_tagged {d : RuleDraft} (h : d.IsChecked) (now : String) :
    Window.mk (tag (d.effectiveFrom.orElse (.text now))) (tag d.effectiveTo) =
      ⟨d.effectiveFrom.orElse (.text now), d.effectiveTo⟩ := by
  obtain ⟨a, ha⟩ := h.window.start
  have ha : d.effectiveFrom = .text a.text := ha
  have hstop : tag d.effectiveTo = d.effectiveTo := by
    rcases h.window.stop with hn | ⟨b, hb⟩
    · have hn : d.effectiveTo = .null := hn
      rw [hn, tag_null]
    · have hb : d.effectiveTo = .text b.text := hb
      rw [hb, tag_text]
  rw [hstop, ha, Value.orElse_stamp, tag_text]

theorem legible_withVulnerability (h : view.Legible w) {s : String} (row : VulnerabilityRow)
    (hs : Text.isWhole s = true) (hid : row.id = s)
    (hd : ∃ stamp, requireStampValue row.toVulnerability.detectedAt = .ok stamp) (n : Nat) :
    view.Legible { w with store := w.store.withVulnerability s row, issued := n } where
  whole := h.whole.withVulnerability
  plain := h.plain
  rules := h.rules
  found := by
    show view.Dated (records (w.store.withVulnerability s row)).vulnerabilities
    rw [records_withVulnerability]
    exact h.found.put hs (congrArg Value.text hid) hd

/-- A vulnerability that was written can be read again. -/
theorem triple_getWritten (h : view.Legible w) (id : Value) :
    Triple (getVulnerability id) w (fun _ => view.Legible)
      (fun e w' => e.isRejection = false ∧ view.Legible w') :=
  Triple.of_run_except (run_getVulnerability h.whole) (fun _ _ => h)
    fun _ he => ⟨accepted_of_look he, h⟩

theorem triple_catalog (h : view.Legible w) {x : Op (World Tables) α} (hx : Op.Accepts x)
    (hk : Keeps (CatalogsOnly w) x w) :
    Triple x w (fun _ w' => True ∧ view.Legible w')
      (fun e w' => e.isRejection = false ∧ view.Legible w') := by
  have hl (w' : World Tables) : CatalogsOnly w w' → view.Legible w' := by
    rintro ⟨m, hrules, hfound, -, hb⟩
    exact h.becomes hb (hrules ▸ h.rules) (hfound ▸ h.found)
  exact ((hx w).and hk).mono (fun _ w' ht => ⟨trivial, hl w' ht.2⟩)
    fun _ w' ht => ⟨ht.1, hl w' ht.2⟩

theorem triple_createRule_legible (h : view.Legible w) {d : RuleDraft} (hd : d.IsChecked) :
    Triple (view.storage.perform (.createRule d)) w (fun _ => view.Legible)
      (fun e w' => e.isRejection = false ∧ view.Legible w') := by
  obtain ⟨document, hread⟩ := hd.tree
  refine (triple_createRule h.whole.toReadsRules (h.plain _) (Criteria.readable_of_read hread)).mono
    ?_ ?_
  · rintro r w' ⟨rfl, -, -, hb⟩
    refine h.becomes (hb.becomes h.whole) (h.rules.put (h.plain _) rfl ?_) h.found
    rw [RuleDraft.window_stored, window_tagged hd]
    exact hd.readable _
  · rintro e w' ⟨he, rfl⟩
    exact ⟨he, h.issue _⟩

theorem triple_deleteRule_legible (h : view.Legible w) (id : Value) :
    Triple (view.storage.perform (.deleteRule id)) w (fun _ => view.Legible)
      (fun e w' => e.isRejection = false ∧ view.Legible w') := by
  obtain ⟨w', hrun, -, hb⟩ := run_deleteRule h.whole.toReadsRules id
  have hl := h.becomes (hb.becomes h.whole) (h.rules.drop _ _) h.found
  exact Triple.of_run_except hrun (fun _ _ => hl) fun _ he => ⟨accepted_of_map_look he, hl⟩

theorem triple_createVulnerability_legible (h : view.Legible w) {d : VulnerabilityDraft}
    (hd : d.IsOpening) :
    Triple (view.storage.perform (.createVulnerability d)) w (fun _ => view.Legible)
      (fun e w' => e.isRejection = false ∧ view.Legible w') := by
  obtain ⟨stamp, hstamp⟩ := hd.detectedAt
  refine ((triple_insertVulnerability d).mono (fun _ _ h => h) ?_).bind ?_
  · rintro e w' ⟨he, rfl⟩
    exact ⟨he, h.issue _⟩
  rintro id w' ⟨rfl, row, hid, hrow, rfl⟩
  have hdated : row.toVulnerability.detectedAt = .text stamp.text := by
    rw [hrow.detectedAt, hstamp, Value.orElse_stamp, tag_text]
  have hl := legible_withVulnerability h _ (h.plain _) hid
    ⟨stamp, hdated ▸ requireStampValue_text stamp⟩ (w.issued + 1)
  -- the answer is read back from the table
  refine Triple.bind (triple_getWritten hl _) fun found w' hl => ?_
  cases found
  · exact Triple.throw ⟨rfl, hl⟩
  · exact Triple.pure hl

theorem triple_updateVulnerability_legible (h : view.Legible w) (id : Value)
    {change : VulnerabilityChange} (hc : change.IsWorkflow) :
    Triple (view.storage.perform (.updateVulnerability id change)) w (fun _ => view.Legible)
      (fun e w' => e.isRejection = false ∧ view.Legible w') := by
  refine ((triple_changeVulnerability hc).mono (fun _ _ h => h) ?_).bind ?_
  · rintro e w' ⟨he, rfl⟩
    exact ⟨he, h⟩
  rintro (_ | _) w' hw'
  · obtain rfl : w' = w := hw'
    exact Triple.pure h
  · obtain ⟨s, row, hs, hrow, new, hsame, -, -, rfl⟩ := hw'
    obtain ⟨hid, hplain⟩ := id_of_shelved h.found.shelved hrow
    have hsid : row.id = s := Value.text.inj hid
    have hold : row.toVulnerability ∈ (records w.store).vulnerabilities.records := by
      rw [records, Shelf.records_relabel]
      exact List.mem_map.mpr ⟨row, Shelf.mem_records_of_get? hrow, rfl⟩
    -- a change keeps the id and the time of detection
    have hl := legible_withVulnerability h (s := row.id) new (hsid ▸ hplain)
      (Value.text.inj hsame.id) (hsame.detectedAt ▸ h.found.stamped _ hold) w.issued
    exact triple_getWritten hl id

theorem triple_deleteVulnerability_legible (h : view.Legible w) (id : Value) :
    Triple (view.storage.perform (.deleteVulnerability id)) w (fun _ => view.Legible)
      (fun e w' => e.isRejection = false ∧ view.Legible w') := by
  obtain ⟨w', hrun, hb⟩ := run_deleteVulnerability h.whole id
  have hl := h.becomes hb h.rules (h.found.drop _ _)
  exact Triple.of_run_except hrun (fun _ _ => hl) fun _ he => ⟨accepted_of_map_look he, hl⟩

/-- The time of a new assessment can be read if what was given for it can. -/
theorem triple_createAssessment_legible (h : view.Legible w) {d : AssessmentDraft}
    (hd : view.Noted d.observations) :
    Triple (view.storage.perform (.createAssessment d)) w
      (fun a w' => View.Tells (.createAssessment d) a ∧ view.Legible w')
      (fun e w' => e.isRejection = false ∧ view.Legible w') := by
  refine (triple_createAssessment h.whole (h.plain _) hd).mono ?_ ?_
  · rintro a w' ⟨-, -, htime, -, -, hb⟩
    refine ⟨fun hgiven => ?_, h.becomes hb h.rules h.found⟩
    obtain ⟨stamp, hstamp⟩ := Value.exists_orElse_stamp w.clock hgiven
    exact ⟨stamp, by rw [htime, hstamp, tag_text, requireStampValue_text]⟩
  · rintro e w' ⟨he, hb⟩
    exact ⟨he, h.becomes hb h.rules h.found⟩

/-- Writes leave everything to be read. -/
theorem triple_write (h : view.Legible w) {r : Request α} (hwrite : r.isRead = false)
    (hr : view.Sane r) :
    Triple (view.storage.perform r) w (fun a w' => View.Tells r a ∧ view.Legible w')
      (fun e w' => e.isRejection = false ∧ view.Legible w') := by
  have hkeep {x : Op (World Tables) α} (hx : Triple x w (fun _ => view.Legible)
        (fun e w' => e.isRejection = false ∧ view.Legible w')) (ht : ∀ a : α, View.Tells r a) :
      Triple x w (fun a w' => View.Tells r a ∧ view.Legible w')
        (fun e w' => e.isRejection = false ∧ view.Legible w') :=
    hx.mono (fun a _ hl => ⟨ht a, hl⟩) fun _ _ he => he
  cases r <;> try exact Bool.noConfusion hwrite
  case createRule d => exact hkeep (triple_createRule_legible h hr) fun _ => trivial
  case updateRule => exact hr.elim
  case deleteRule id => exact hkeep (triple_deleteRule_legible h id) fun _ => trivial
  case createVulnerability d => exact hkeep (triple_createVulnerability_legible h hr) fun _ => trivial
  case updateVulnerability id change =>
    exact hkeep (triple_updateVulnerability_legible h id hr) fun _ => trivial
  case deleteVulnerability id =>
    exact hkeep (triple_deleteVulnerability_legible h id) fun _ => trivial
  case createAssessment d => exact triple_createAssessment_legible h hr
  case createObservationType d =>
    exact triple_catalog h (accepts_insertObservationType d) (keeps_insertObservationType h.whole d)
  case createObservationValue d =>
    exact triple_catalog h (accepts_insertObservationValue d)
      (keeps_insertObservationValue h.whole d)
  case createMitigationType d =>
    refine triple_catalog h ?_ (keeps_catalogs h.whole rfl)
    refine (accepts_insertMitigationType d).bind fun id =>
      ((accepts_selectOne _ _ _).bind fun _ => .pure _).bind fun found => ?_
    cases found
    · exact .throw rfl
    · exact .pure _
  case createMitigationValue d =>
    exact triple_catalog h (accepts_insertMitigationValue d) (keeps_insertMitigationValue h.whole d)

theorem perform_legible (h : view.Legible w) {r : Request α} (hr : view.Sane r) :
    Triple (view.storage.perform r) w (fun a w' => View.Tells r a ∧ view.Legible w')
      (fun e w' => e.isRejection = false ∧ view.Legible w') := by
  cases hread : r.isRead with
  | true => exact (triple_read h hread hr).and ((quiet_of_isRead hread).keeps h)
  | false => exact triple_write h hread hr

/-- A rule that is not there is not deleted. -/
theorem triple_deleteRule (id : Value) :
    Triple (view.storage.perform (.deleteRule id)) w
      (fun deleted w' => deleted = false → w'.store = w.store) (fun _ _ => True) := by
  show Triple (deleteRule id) w _ _
  unfold deleteRule
  refine Triple.bind_run (World.run_stored w) ?_
  unfold eraseRow prepare
  split
  case isFalse => exact Triple.throw trivial
  simp only [pure_bind, bindText_eq, bind_assoc]
  refine Triple.bind_ofExcept (fun _ => trivial) fun id? _ => ?_
  cases id? with
  | none => exact Triple.of_run rfl fun _ => rfl
  | some s =>
    refine Triple.of_run rfl fun hno => ?_
    have hget : w.store.rules.rows.get? s = none := by simpa using hno
    show ({ w.store with rules := { w.store.rules with rows := w.store.rules.rows.erase s } } : Tables) =
      w.store
    rw [Shelf.erase_of_get?_none hget]

theorem accepted_of_mapM_requiredCell {operation : Operation} {new : Option (Option α)} {e : Error}
    (h : new.mapM (requiredCell operation) = .error e) : e.isRejection = false := by
  rcases new with _ | _ | a <;> cases h
  rfl

theorem accepted_of_takes {change : RuleChange} {version : Int} {e : Error}
    (h : takes change version = .error e) : e.isRejection = false := by
  have hbind {α β : Type} {x : Except Error α} {f : α → Except Error β}
      (hb : (x >>= f) = .error e) (hx : x = .error e → e.isRejection = false)
      (hf : ∀ a, f a = .error e → e.isRejection = false) : e.isRejection = false := by
    cases x with
    | error e' => exact hx (Except.error.inj hb ▸ rfl)
    | ok a => exact hf a hb
  unfold takes at h
  iterate 4 refine hbind h accepted_of_mapM_boundCell fun _ h => ?_
  refine hbind h accepted_of_boundCell fun _ h => ?_
  iterate 3 refine hbind h accepted_of_mapM_requiredCell fun _ h => ?_
  cases h

/-- Columns keep a checked change of a window as it is. -/
theorem checked_kept {change : RuleChange} (h : change.IsChecked) : (view.kept change).IsChecked where
  proper := by
    obtain ⟨tree, hproper, htree⟩ := h.proper
    exact ⟨tree, ⟨hproper.tree, hproper.id, hproper.createdAt, hproper.others⟩, htree⟩
  window := by
    rcases h.window with ⟨hfrom, hto⟩ | ⟨w, hw, hfrom, hto⟩
    · exact .inl ⟨by simp [View.kept, hfrom], by simp [View.kept, hto]⟩
    · obtain ⟨a, ha⟩ := hw.start
      have hkeep {x : Value} (hx : x = .null ∨ ∃ b : Time.Stamp, x = .text b.text) :
          view.column x = x := by
        rcases hx with rfl | ⟨b, rfl⟩
        · rfl
        · exact lawful.column_text lawful.plain_stamp
      refine .inr ⟨w, hw, ?_, ?_⟩
      · simp [View.kept, hfrom, hkeep (.inr ⟨a, ha⟩)]
      · simp [View.kept, hto, hkeep hw.stop]

/-- A rule that was read is there to be changed. -/
theorem triple_updateRule (h : view.Legible w) {id : Value} {s : String} {r : Rule}
    {change : RuleChange} (hn : view.name .updateRule id = .ok (some s))
    (hr : (records w.store).rules.get? (.text s) = some r) (hc : change.IsChecked) :
    Triple (view.storage.perform (.updateRule id change (some (.int r.version)))) w
      (fun found w' => found ≠ none ∧ view.Legible w')
      (fun e w' => e.isRejection = false ∧ view.Legible w') := by
  obtain ⟨tree, hproper, htree⟩ := hc.proper
  obtain ⟨hplain, hid⟩ := h.rules.shelved.id_of_get? hr
  obtain ⟨w', hrun, hb⟩ := run_updateRule h.whole h.rules.shelved hn hr hproper fun c hc' => by
    obtain ⟨document, hd⟩ := htree c hc'
    exact Criteria.readable_of_read hd
  rcases ht : takes change r.version with e | ⟨⟩ <;> rw [ht] at hrun hb
  · exact Triple.of_run_error hrun ⟨accepted_of_takes ht, h.becomes hb h.rules h.found⟩
  · refine Triple.of_run hrun ⟨nofun, h.becomes hb (h.rules.put hplain ?_ ?_) h.found⟩
    · simp only [Rule.changed, View.kept, hproper.id, Option.getD_none]
      exact hid
    · exact Rule.window_changed (h.rules.windows r (Shelf.mem_records_of_get? hr)) (checked_kept hc)

end Tables

/-! ## Either store -/

namespace Backing

variable {b : Backing} {w : World b.Store}

theorem perform_legible : ∀ (b : Backing) {w : World b.Store} {r : Request α}, b.view.Legible w →
    b.view.Sane r →
    Triple (b.storage.perform r) w (fun a w' => View.Tells r a ∧ b.view.Legible w')
      (fun e w' => e.isRejection = false ∧ b.view.Legible w')
  | memory, _, _, h, hr => Memory.perform_legible h hr
  | tables, _, _, h, hr => Tables.perform_legible h hr

theorem run_getRule : ∀ (b : Backing) {w : World b.Store} (id : Value), b.view.Legible w →
    (b.storage.perform (.getRule id)).run w =
      (b.view.look .getRule id (b.view.records w.store).rules, w)
  | memory, w, id, h => (Memory.run_look (fun m => Memory.find m.rules id) w).trans
      (congrArg (·, w) (Memory.find_of_shelved h.rules.shelved .getRule id))
  | tables, _, _, h => Tables.run_getRule h.whole.toReadsRules

/-- Deleting a vulnerability leaves the rules. -/
theorem keeps_deleteVulnerability : ∀ (b : Backing) {w : World b.Store} (id : Value),
    b.view.Legible w → Keeps (fun w' => (b.view.records w'.store).rules =
      (b.view.records w.store).rules) (b.storage.perform (.deleteVulnerability id)) w
  | memory, _, _, h => Keeps.of_run (Memory.run_deleteVulnerability h.found.shelved) rfl
  | tables, _, id, h => by
    obtain ⟨w', hrun, hb⟩ := Tables.run_deleteVulnerability h.whole id
    exact Keeps.of_run hrun ((congrArg Memory.rules hb.records).trans rfl)

/-- What is answered with nothing has changed nothing. -/
theorem triple_updateVulnerability : ∀ (b : Backing) {w : World b.Store} (id : Value)
    {change : VulnerabilityChange}, b.view.Legible w → change.IsWorkflow →
    Triple (b.storage.perform (.updateVulnerability id change)) w
      (fun y? w' => y? = none → w' = w) (fun _ _ => True)
  | memory, _, id, _, h, hc => (Memory.triple_updateVulnerability h.found.shelved hc).mono
      (fun _ _ hy hnone => by subst hnone; exact hy) fun _ _ _ => trivial
  | tables, _, id, _, h, hc => (Tables.triple_updateVulnerability h.whole h.found.shelved hc).mono
      (fun _ _ hy hnone => by subst hnone; exact hy) fun _ _ _ => trivial

theorem triple_deleteRule : ∀ (b : Backing) {w : World b.Store} (id : Value), b.view.Legible w →
    Triple (b.storage.perform (.deleteRule id)) w
      (fun deleted w' => deleted = false → w'.store = w.store) (fun _ _ => True)
  | memory, _, id, h => Memory.triple_deleteRule h id
  | tables, _, id, _ => Tables.triple_deleteRule id

theorem triple_updateRule : ∀ (b : Backing) {w : World b.Store} {id : Value} {s : String} {r : Rule}
    {change : RuleChange}, b.view.Legible w → b.view.name .updateRule id = .ok (some s) →
    (b.view.records w.store).rules.get? (.text s) = some r → change.IsChecked →
    Triple (b.storage.perform (.updateRule id change (some (.int r.version)))) w
      (fun found w' => found ≠ none ∧ b.view.Legible w')
      (fun e w' => e.isRejection = false ∧ b.view.Legible w')
  | memory, _, _, _, _, _, h, hn, hr, hc => Memory.triple_updateRule h hn hr hc
  | tables, _, _, _, _, _, h, hn, hr, hc => Tables.triple_updateRule h hn hr hc

end Backing

end PropertyRisk
