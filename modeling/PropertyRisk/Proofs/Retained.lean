import PropertyRisk.Proofs.Orphans

/-!
# Trees that are retained

A rule has the tree that was read when it was created, or when it was last given one.
`Backing.triple_create_planted` and `Backing.triple_update_planted`: so it is once a call is
answered. `Backing.Rooted.leads`: whatever calls follow, and whatever befalls their requests, only
one that is to give the rule another tree does so.
-/

namespace PropertyRisk

open Op (Triple Keeps)
open Engine

namespace Backing

variable {b : Backing} {w u : World b.Store} {s : String} {A : Criteria → Prop} {r : Rule}
  {c : Call} {calls : b.History}

/-! ## Trees -/

/-- Whether a call is to give the rule under an id this tree. -/
def Replants (b : Backing) (s : String) (tree : Criteria) : Call → Prop
  | .updateRule id patch => b.Points id (.text s) ∧
      ∃ document, patch.tree = some document ∧ Criteria.read document = .ok tree
  | _ => False

/-- Rules can be looked up and written to, and are under ids that were issued. -/
structure Stocked (b : Backing) (w : World b.Store) : Prop where
  inOrder : b.RulesInOrder w
  injective : Function.Injective w.idOf
  plain : ∀ n, b.view.Plain (w.idOf n)
  keys : w.Issued (b.view.records w.store).rules

/-- A rule under an id that was issued, if it is there, has one of these trees. -/
structure Rooted (b : Backing) (s : String) (A : Criteria → Prop) (w : World b.Store) : Prop
    extends b.Stocked w where
  issued : ∃ n ≤ w.issued, s = w.idOf n
  tree : ∀ r, b.ruleAt w s = some r → A r.tree

/-- A request that gives the rule under an id no other trees than these. -/
def Roots (b : Backing) (s : String) (A : Criteria → Prop) : {α : Type} → Request α → Prop
  | _, .updateRule id change _ => ∃ tree, change.Proper tree ∧
      ∀ c, tree = some c → b.Points id (.text s) → A c
  | _, _ => True

theorem Traceable.stocked (h : b.Traceable w) : b.Stocked w :=
  ⟨h.inOrder, h.numbered.injective, h.numbered.plain, h.rules⟩

theorem Stocked.of_effect (h : b.Stocked w) {q : Request α} (hin : b.RulesInOrder u)
    (hf : w.Follows u) (he : b.RuleEffect w u q) : b.Stocked u := by
  refine ⟨hin, hf.idOf ▸ h.injective, hf.idOf ▸ h.plain, ?_⟩
  cases he with
  | same hsame => exact hsame ▸ h.keys.follow hf
  | created hd hissued hput => exact hput ▸ h.keys.put hf hissued _
  | changed hchange ht hold hrevised hput =>
    intro k hk
    rcases Shelf.mem_keys_put.mp (hput ▸ hk) with rfl | hk
    · exact h.keys.follow hf _ (Shelf.mem_keys_of_get? hold)
    · exact h.keys.follow hf k hk
  | deleted hd ht herase =>
    intro k hk
    obtain ⟨r, hr⟩ := Shelf.exists_get?_of_mem_keys (herase ▸ hk)
    rw [Shelf.get?_erase] at hr
    split at hr
    · cases hr
    · exact h.keys.follow hf k (Shelf.mem_keys_of_get? hr)

theorem Stocked.keeps (h : b.Stocked w) {q : Request α} (hq : b.view.Parsed q) :
    Keeps b.Stocked (b.storage.perform q) w :=
  (keeps_ruleEffect h.inOrder (h.plain _) hq).imp fun _ ⟨hin, hf, he⟩ => h.of_effect hin hf he

/-- What a request makes of the rules leaves the trees of this one among `A`. -/
theorem Rooted.of_effect (h : b.Rooted s A w) {q : Request α} (hq : b.Roots s A q)
    (hin : b.RulesInOrder u) (hf : w.Follows u) (he : b.RuleEffect w u q) : b.Rooted s A u := by
  obtain ⟨n, hn, hs⟩ := h.issued
  refine ⟨h.toStocked.of_effect hin hf he, ⟨n, Nat.le_trans hn hf.issued, hf.idOf ▸ hs⟩,
    fun r hr => ?_⟩
  unfold ruleAt at hr
  cases he with
  | same hsame =>
    rw [hsame] at hr
    exact h.tree r hr
  | created hd hissued hput =>
    -- the new rule is under another id
    rw [hput, Shelf.get?_put] at hr
    split at hr
    · rename_i hnew
      have := h.injective (hs.symm.trans (Key.text.inj hnew))
      omega
    · exact h.tree r hr
  | @changed id change expected t old new hchange ht hold hrevised hput =>
    cases q <;> cases hchange
    obtain ⟨tree, hproper, htree⟩ := hq
    rw [hput, Shelf.get?_put] at hr
    split at hr
    · rename_i hst
      cases hr
      cases Key.text.inj hst
      rw [revised_of_proper hproper hrevised]
      cases tree with
      | none => exact h.tree old hold
      | some c => exact htree c rfl (points_of_name ht)
    · exact h.tree r hr
  | deleted hd ht herase =>
    rw [herase, Shelf.get?_erase] at hr
    split at hr
    · cases hr
    · exact h.tree r hr

/-- What is agreed with a store while a rule has one of these trees. -/
def rooting (b : Backing) (s : String) (A : Criteria → Prop) : Contract (World b.Store) where
  inv := b.Rooted s A
  may q := b.view.Parsed q ∧ b.Roots s A q

theorem meets_rooting : b.storage.Meets (b.rooting s A) where
  now w := ⟨w.clock, b.view_storage ▸ b.lawful.now⟩
  perform hq h := (keeps_ruleEffect h.inOrder (h.plain _) hq.1).mono
    (fun _ _ ⟨hin, hf, he⟩ => ⟨trivial, h.of_effect hq.2 hin hf he⟩)
    fun _ _ ⟨hin, hf, he⟩ => ⟨trivial, h.of_effect hq.2 hin hf he⟩
  overflow _ := trivial

/-- A call gives the rule under an id no other tree than it is to. -/
theorem Rooted.after (h : b.Rooted s A w) (policy : Policy) (plan : List Storage.Mishap)
    (hc : ∀ tree, b.Replants s tree c → A tree) : b.Rooted s A (b.after policy plan c w) := by
  have hg := (meets_rooting (b := b) (s := s) (A := A)).faulty fun _ _ => trivial
  have hall (e : Error) (x : World b.Store × List Storage.Mishap) :
      (b.rooting s A).first.errs e x := trivial
  have hinv : (b.rooting s A).first.inv (w, plan) := h
  have hread {α : Type} {q : Request α} (hq : q.isRead) : (b.rooting s A).may q := by
    cases q <;> first
      | exact absurd hq Bool.false_ne_true
      | exact ⟨trivial, trivial⟩
  -- only an update asks for a change of a rule
  by_cases hupdate : ∃ id patch, c = .updateRule id patch
  case neg =>
    refine (Call.upheld hg hall (fun {α q} hasks => ⟨parsed_of_asks hasks, ?_⟩) policy
      hinv).keeps.state
    cases q <;> try exact trivial
    case updateRule id change expected =>
      obtain ⟨⟨patch, rfl⟩, -⟩ := hasks
      exact absurd ⟨id, patch, rfl⟩ hupdate
  obtain ⟨id, patch, rfl⟩ := hupdate
  refine ((Rules.upheld_update hg hall hread id patch (fun _ _ _ _ _ _ => ⟨trivial, trivial⟩) ?_
    hinv).map Reply.ruleUpdate).keeps.state
  intro window tree isActive expected hp _
  have hproper : (Rules.changeOf patch window tree isActive).Proper tree := ⟨rfl, rfl, rfl, rfl⟩
  refine ⟨hproper.isRead (Criteria.read_of_mapM hp.read), tree, hproper, fun c hc' hpoints => ?_⟩
  exact hc c ⟨hpoints, Criteria.document_of_mapM hp.read c hc'⟩

/-- After a run of calls a rule has a tree that it had, or one that a call was to give it. -/
theorem Rooted.leads {tree : Criteria} (h : b.Rooted s (· = tree) w) (hl : b.Leads w calls u) :
    b.Rooted s (fun t => t = tree ∨ ∃ call ∈ calls, b.Replants s t call.2) u := by
  induction hl with
  | here => exact { h with tree := fun r hr => .inl (h.tree r hr) }
  | tick clock _ ih =>
    exact ⟨⟨b.rulesInOrder_tick ih.inOrder clock, ih.injective, ih.plain, ih.keys⟩, ih.issued,
      ih.tree⟩
  | @call earlier v policy plan c _ ih =>
    -- what the rule may have so far is among what it may have with one more call
    have hv : b.Rooted s (fun t => t = tree ∨ ∃ call ∈ (v, c) :: earlier,
        b.Replants s t call.2) v :=
      { ih with tree := fun r hr => (ih.tree r hr).imp_right fun ⟨call, hcall, ht⟩ =>
          ⟨call, List.mem_cons_of_mem _ hcall, ht⟩ }
    exact hv.after policy plan fun t ht => .inr ⟨(v, c), List.mem_cons_self, ht⟩

/-! ## Accepting a tree -/

/-- A rule is there, with this tree. -/
structure Planted (b : Backing) (s : String) (tree : Criteria) (r : Rule) (w : World b.Store) : Prop
    extends b.Rooted s (· = tree) w where
  there : b.ruleAt w s = some r

/-- A rule that is written under an id has the tree that it was written with. -/
theorem Planted.of_put {tree : Criteria} (hu : b.Stocked u) (hs : ∃ n ≤ u.issued, s = u.idOf n)
    (hput : (b.view.records u.store).rules = (b.view.records w.store).rules.put (.text s) r)
    (ht : r.tree = tree) : b.Planted s tree r u := by
  have hthere : b.ruleAt u s = some r := by
    rw [ruleAt, hput, Shelf.get?_put, if_pos rfl]
  exact ⟨⟨hu, hs, fun r' hr' => Option.some.inj (hthere.symm.trans hr') ▸ ht⟩, hthere⟩

theorem triple_createRule_planted (h : b.Stocked w) {d : RuleDraft} (hd : b.view.Tree d.tree) :
    Triple (b.storage.perform (.createRule d)) w
      (fun r t => ∃ s, r.id = .text s ∧ b.Planted s d.tree r t) (fun _ _ => True) := by
  refine (b.triple_createRule h.inOrder (h.plain _) hd).mono ?_ fun _ _ _ => trivial
  rintro r t ⟨hr, hissued, hin, hb⟩
  have hrules := congrArg Memory.rules hb.records
  have ht : b.Stocked t := h.of_effect (q := .createRule d) hin hb.follows
    (.created rfl hissued (hr ▸ hrules))
  refine ⟨w.idOf (w.issued + 1), hr ▸ rfl, .of_put ht ?_ hrules (hr ▸ rfl)⟩
  exact ⟨w.issued + 1, Nat.le_of_eq hissued.symm, by rw [hb.follows.idOf]⟩

theorem triple_updateRule_planted (h : b.Stocked w) {change : RuleChange} {tree : Criteria}
    (hc : change.Proper (some tree)) (hread : ∃ document, Criteria.read document = .ok tree)
    (id : Value) (expected : Option Value) :
    Triple (b.storage.perform (.updateRule id change expected)) w
      (fun r? t => ∀ r, r? = some r → ∃ s, b.Points id (.text s) ∧ b.Planted s tree r t)
      (fun _ _ => True) := by
  have hisRead : change.IsRead := hc.isRead fun c hc => Option.some.inj hc ▸ hread
  by_cases hfound :
      ∃ old, b.view.look .updateRule id (b.view.records w.store).rules = .ok (some old)
  case neg =>
    obtain ⟨answer, hrun, hno⟩ := b.run_writeRule_of_absent change expected h.inOrder
      fun r hr => hfound ⟨r, hr⟩
    exact Triple.of_run_except hrun (fun r? hr r he => absurd (he ▸ hr) (hno r)) fun _ _ => trivial
  obtain ⟨old, hlook⟩ := hfound
  obtain ⟨s, hs, hold⟩ := View.look_eq_some.mp hlook
  obtain ⟨t, hrun, hin, hb⟩ := b.run_writeRule change expected h.inOrder hisRead hs hold
  refine Triple.of_run_except hrun (fun r? hrevised r he => ?_) fun _ _ => trivial
  subst he
  have hrules := congrArg Memory.rules hb.records
  simp only [hrevised] at hrules
  have ht : b.Stocked t := h.of_effect (q := .updateRule id change expected) hin hb.follows
    (.changed rfl hs hold hrevised hrules)
  obtain ⟨n, hn, hkey⟩ := h.keys _ (Shelf.mem_keys_of_get? hold)
  refine ⟨s, points_of_name hs, .of_put ht ?_ hrules ?_⟩
  · exact ⟨n, Nat.le_trans hn hb.follows.issued, hb.follows.idOf ▸ Key.text.inj hkey⟩
  · rw [revised_of_proper hc hrevised]
    rfl

/-- What is agreed with a store that has rules and ids for new ones. -/
def stocking (b : Backing) : Contract (World b.Store) where
  inv := b.Stocked
  may q := b.view.Parsed q

theorem meets_stocking : b.storage.faulty.Meets b.stocking.first :=
  (meets_of_keeps fun hq h => h.keeps hq).faulty fun _ _ => trivial

theorem parsed_of_isRead {q : Request α} (hq : q.isRead) : b.view.Parsed q := by
  cases q <;> first
    | exact absurd hq Bool.false_ne_true
    | exact trivial

/-- What a request is answered holds also where requests may fail. -/
theorem triple_faulty_of_ok {q : Request α} {Q : α → World b.Store → Prop}
    (h : Triple (b.storage.perform q) w Q fun _ _ => True) (plan : List Storage.Mishap) :
    Triple (b.storage.faulty.perform q) (w, plan) (fun a t => Q a t.1) fun _ _ => True :=
  Storage.triple_faulty h plan (fun _ => trivial) (fun _ _ _ _ => trivial) fun _ _ _ _ => trivial

/-- A rule that is answered as created has the tree that was read. -/
theorem triple_create_planted (input : RuleInput) (plan : List Storage.Mishap) (h : b.Stocked w) :
    Triple (Rules.create b.storage.faulty input) (w, plan)
      (fun r t => ∃ tree s, Criteria.read input.tree = .ok tree ∧ r.id = .text s ∧
        b.Planted s tree r t.1) (fun _ _ => True) := by
  unfold Rules.create
  refine Triple.bind_ofExcept (fun _ => trivial) fun name _ => ?_
  refine Triple.bind_ofExcept (fun _ => trivial) fun description _ => ?_
  refine Triple.bind_run (b.run_now_faulty w plan) ?_
  refine Triple.bind_ofExcept (fun _ => trivial) fun window _ => ?_
  split
  case h_2 => exact Triple.throw trivial
  refine (Rules.triple_checkTree_of_meets meets_stocking parsed_of_isRead (fun _ _ => trivial)
    input.tree (s := (w, plan)) h).answered.bind ?_
  rintro tree ⟨u, plan⟩ ⟨⟨htree, -⟩, hu : b.Stocked u⟩
  refine (triple_faulty_of_ok (triple_createRule_planted hu
    (b.lawful.tree_of_read htree)) plan).mono ?_ fun _ _ _ => trivial
  exact fun r t ⟨s, hid, ht⟩ => ⟨tree, s, htree, hid, ht⟩

theorem triple_apply_planted {current : Rule} {id : Value} {patch : RulePatch} {document : Value}
    (hpatch : patch.tree = some document) (window : Option Window) (isActive : Option Bool)
    {x : World b.Store × List Storage.Mishap} (h : b.Stocked x.1) :
    Triple (Rules.apply b.storage.faulty current id patch window isActive) x
      (fun u t => ∃ tree s, Criteria.read document = .ok tree ∧ b.Points id (.text s) ∧
        b.Planted s tree u.rule t.1) (fun _ _ => True) := by
  refine (Rules.triple_checkTrees_of_meets meets_stocking parsed_of_isRead (fun _ _ => trivial)
    patch.tree (s := x) h).answered.bind ?_
  rintro tree? t ⟨⟨hread, -⟩, ht⟩
  obtain ⟨tree, htree, rfl⟩ := mapM_some_eq_ok (hpatch ▸ hread)
  -- vulnerabilities are listed and removed on the way, which leaves the rules alone
  refine (meets_stocking.upheld (r := .listVulnerabilitiesForRule id) trivial ht).answered.bind
    fun xs t ht => ?_
  refine (Rules.upheld_reconcileAll meets_stocking (fun hq _ => parsed_of_isRead hq) _ xs
    (fun _ _ => trivial) ht).answered.bind fun outcomes ⟨v, plan⟩ hv => ?_
  have hwritten := triple_updateRule_planted hv
    (show (Rules.changeOf patch window (some tree) isActive).Proper (some tree) from
      ⟨rfl, rfl, rfl, rfl⟩) ⟨document, htree⟩ id (some (.int current.version))
  refine (triple_faulty_of_ok hwritten plan).bind fun r? t hr => ?_
  cases r? with
  | none => exact Triple.throw trivial
  | some r =>
    obtain ⟨s, hs, hplanted⟩ := hr r rfl
    exact Triple.pure ⟨tree, s, htree, hs, hplanted⟩

/-- A rule that is answered as changed has the tree that was read, if one was given. -/
theorem triple_update_planted (id : Value) {patch : RulePatch} {document : Value}
    (hpatch : patch.tree = some document) (plan : List Storage.Mishap) (h : b.Stocked w) :
    Triple (Rules.update b.storage.faulty id patch) (w, plan)
      (fun u t => ∃ tree s, Criteria.read document = .ok tree ∧ b.Points id (.text s) ∧
        b.Planted s tree u.rule t.1) (fun _ _ => True) := by
  unfold Rules.update
  split
  · exact Triple.throw trivial
  refine Triple.bind_ofExcept (fun _ => trivial) fun _ _ => ?_
  refine (Rules.upheld_get meets_stocking (fun _ _ => trivial) parsed_of_isRead id
    (s := (w, plan)) h).answered.bind fun current t ht => ?_
  refine Triple.bind_ofExcept (fun _ => trivial) fun window _ => ?_
  split
  · exact triple_apply_planted hpatch none _ ht
  · exact triple_apply_planted hpatch (some _) _ ht
  · exact Triple.throw trivial

/-! ## Asking for a rule -/

theorem run_getRule_call (h : b.RulesInOrder w) (hs : b.view.Plain s) (policy : Policy) :
    ((Call.getRule (.text s)).run policy b.storage).run w =
      (match b.ruleAt w s with
        | some r => .ok (.rule r)
        | none => .error (.notFound .rule (.text s)), w) := by
  refine (Op.run_map _ _ _).trans ?_
  rw [Rules.get, Op.run_bind_ok (run_getRule_at h hs)]
  cases b.ruleAt w s <;> rfl

end Backing

end PropertyRisk
