import Mathlib.Data.List.TakeWhile
import PropertyRisk.Proofs.Catalogued
import PropertyRisk.Proofs.Founded
import PropertyRisk.Proofs.RuleWrites
import PropertyRisk.Proofs.Visits

/-!
# Every stored rule is well formed

`Backing.wellFormed_of_visited`: whatever calls were made since the store was empty, and
whatever befell their requests, each stored rule has a name and a description, a window whose
end is later than its start, and a tree that refers to catalog records alone. What a call
checks, it checks against the catalogs as they are; `Backing.WellKept` is what stays true of
the rules and of the catalogs together.
-/

namespace PropertyRisk

open Op (Triple Keeps)
open Engine

/-! ## Well-formed rules -/

/-- A text that is not blank. -/
def Value.IsLabel (x : Value) : Prop :=
  ∃ s, x = .text s ∧ ∃ c ∈ s.toList, Text.isBlank c = false

/-- The written form of an instant, which is read as this instant. -/
def Value.Writes (x : Value) (a : Time.Stamp) : Prop :=
  x = .text a.text ∧ requireStampValue x = .ok a

/-- A window from an instant on, up to a later one if there is an end. -/
def Window.Ordered (w : Window) : Prop :=
  ∃ a, w.start.Writes a ∧ (w.stop = .null ∨ ∃ b, w.stop.Writes b ∧ a.instant < b.instant)

/-- Whatever a tree refers to is in the observation catalogs, each value under the type of its
leaf. -/
structure Criteria.Known (m : Memory) (tree : Criteria) : Prop where
  types : ∀ l ∈ tree.leaves, ∃ t ∈ m.observationTypes.records, t.id = .text l.typeId
  values : ∀ l ∈ tree.leaves, ∀ id ∈ l.valueIds.getD [], ∃ v ∈ m.observationValues.records,
    v.id = .text id ∧ v.typeId = .text l.typeId

structure Rule.WellFormed (m : Memory) (r : Rule) : Prop where
  name : r.name.IsLabel
  description : r.description.IsLabel
  window : r.window.Ordered
  tree : r.tree.Known m

section

variable {m m' : Memory}

theorem Criteria.Known.mono {tree : Criteria} (h : tree.Known m) (hm : m.Extends m') :
    tree.Known m' where
  types l hl := by
    obtain ⟨t, ht, hid⟩ := h.types l hl
    exact ⟨t, hm.types t ht, hid⟩
  values l hl id hid := by
    obtain ⟨v, hv, hown⟩ := h.values l hl id hid
    exact ⟨v, hm.values v hv, hown⟩

theorem Rule.WellFormed.mono {r : Rule} (h : r.WellFormed m) (hm : m.Extends m') :
    r.WellFormed m' :=
  ⟨h.name, h.description, h.window, h.tree.mono hm⟩

end

/-- A new rule that comes to a well-formed one. -/
structure RuleDraft.WellFormed (m : Memory) (d : RuleDraft) : Prop where
  name : d.name.IsLabel
  description : d.description.IsLabel
  window : Window.Ordered ⟨d.effectiveFrom, d.effectiveTo⟩
  tree : d.tree.Known m
  read : ∃ document, Criteria.read document = .ok d.tree

/-- A change after which a well-formed rule is well formed. -/
structure RuleChange.WellFormed (m : Memory) (change : RuleChange) : Prop where
  name : ∀ x, change.name = some x → x.IsLabel
  description : ∀ x, change.description = some x → x.IsLabel
  window : change.effectiveFrom = none ∧ change.effectiveTo = none ∨
    ∃ w : Window, w.Ordered ∧ change.effectiveFrom = some w.start ∧
      change.effectiveTo = some w.stop
  tree : ∃ tree, change.Proper tree ∧ ∀ c, tree = some c →
    c.Known m ∧ ∃ document, Criteria.read document = .ok c

theorem RuleChange.WellFormed.isRead {m : Memory} {change : RuleChange} (h : change.WellFormed m) :
    change.IsRead := by
  obtain ⟨tree, hproper, htree⟩ := h.tree
  exact hproper.isRead fun c hc => (htree c hc).2

theorem Window.Ordered.written {w : Window} (h : w.Ordered) : w.Written := by
  obtain ⟨a, ⟨ha, -⟩, hstop⟩ := h
  exact ⟨⟨a, ha⟩, hstop.imp id fun ⟨b, hb, _⟩ => ⟨b, hb.1⟩⟩

/-! ## What the checks leave -/

namespace Engine.Rules

variable {s : String} {x : Value}

theorem exists_of_isBlankText (h : isBlankText s = false) :
    ∃ c ∈ s.toList, Text.isBlank c = false := by
  by_contra hno
  have hblank : ∀ c ∈ s.toList, Text.isBlank c = true := by simpa using hno
  have hnone : s.toList.dropWhile Text.isBlank = [] := List.dropWhile_eq_nil_iff.mpr hblank
  simp [isBlankText, Text.trimBy, hnone] at h

theorem mem_dropWhile {p : Char → Bool} {c : Char} {cs : List Char} (hc : c ∈ cs)
    (hp : p c = false) : c ∈ cs.dropWhile p := by
  rw [← List.takeWhile_append_dropWhile (p := p) (l := cs), List.mem_append] at hc
  exact hc.resolve_left fun h => by simp [List.mem_takeWhile_imp h] at hp

/-- Trimming leaves what is not blank. -/
theorem mem_trim {c : Char} (hc : c ∈ s.toList) (hp : Text.isBlank c = false) :
    c ∈ (Text.trim s).toList := by
  simp only [Text.trim, Text.trimBy, String.toList_ofList, List.mem_reverse]
  exact mem_dropWhile (List.mem_reverse.mpr (mem_dropWhile hc hp)) hp

theorem isLabel_of_requiredText (h : requiredText x = .ok (some s)) : (Value.text s).IsLabel := by
  unfold requiredText at h
  split at h
  · split at h
    · rename_i t
      split at h <;> cases h
      rename_i hblank
      obtain ⟨c, hc, hp⟩ := exists_of_isBlankText (by simpa using hblank)
      exact ⟨_, rfl, c, mem_trim hc hp, hp⟩
    · cases h
  · cases h

theorem isLabel_of_labelProblems {field : String} (h : labelProblems field (some (.text s)) = []) :
    (Value.text s).IsLabel := by
  have hfull : isEmptyLabel (.text s) = false := by simpa [labelProblems] using h
  have hblank : isBlankText s = false := (Bool.or_eq_false_iff.mp hfull).2
  exact ⟨s, rfl, exists_of_isBlankText hblank⟩

theorem writes_text (a : Time.Stamp) : (Value.text a.text).Writes a :=
  ⟨rfl, requireStampValue_text a⟩

theorem ordered_of_checkWindow {start stop : Value} {w : Window}
    (h : checkWindow start stop = .ok (.ok w)) : w.Ordered := by
  unfold checkWindow at h
  split at h
  · cases h
  · cases h
  rename_i first hfirst
  split at h
  · split at h
    · cases h
    · cases h
    rename_i last hlast
    split at h <;> cases h
    rename_i hle
    exact ⟨first, writes_text first, .inr ⟨last, writes_text last, by simpa [Time.Stamp.le] using hle⟩⟩
  · cases h
    exact ⟨first, writes_text first, .inl rfl⟩

/-- A value that is of no other type is of this one, if its owner is a text. -/
theorem owner_of_isForeign {owner : Value} {typeId : String} (howner : ∃ s, owner = .text s)
    (h : isForeign owner typeId = false) : owner = .text typeId := by
  obtain ⟨s, rfl⟩ := howner
  have hsame : s = typeId := by simpa [isForeign, Value.equal] using h
  rw [hsame]

end Engine.Rules

/-- What a draft comes to once it is checked against the catalogs. -/
theorem Contract.Finds.known {C : Contract σ} {m : Memory} {tree : Criteria} (h : C.Finds tree)
    (hgives : ∀ {α} {r : Request α} {a}, C.gives r a → m.Answers r a)
    (howned : ∀ v ∈ m.observationValues.records, ∃ s, v.typeId = .text s) : tree.Known m where
  types l hl := by
    obtain ⟨ids, found, hfound, t, ht, hid⟩ := h.types l hl
    exact ⟨t, hgives hfound t ht, hid⟩
  values l hl id hid := by
    obtain ⟨ids, found, hfound, v, hv, hvid, hforeign⟩ := h.values l hl id hid
    have hmem := hgives hfound v hv
    exact ⟨v, hmem, hvid, Rules.owner_of_isForeign (howned v hmem) hforeign⟩

section

variable {C : Contract σ} {m : Memory}
  (hgives : ∀ {α} {r : Request α} {a}, C.gives r a → m.Answers r a)
  (howned : ∀ v ∈ m.observationValues.records, ∃ s, v.typeId = .text s)
include hgives howned

theorem Engine.RuleInput.Passes.wellFormed {input : RuleInput} {d : RuleDraft}
    (h : input.Passes C d) : d.WellFormed m := by
  obtain ⟨name, hname, hd⟩ := h.name
  obtain ⟨description, hdescription, hd'⟩ := h.description
  obtain ⟨start, hwindow⟩ := h.window
  exact ⟨hd ▸ Rules.isLabel_of_requiredText hname, hd' ▸ Rules.isLabel_of_requiredText hdescription,
    Rules.ordered_of_checkWindow hwindow, h.finds.known hgives howned, _, h.tree⟩

/-- The names that a patch sets are texts. -/
theorem Engine.RulePatch.Passes.wellFormed {patch : RulePatch} {window : Option Window}
    {tree : Option Criteria} (h : patch.Passes C window tree)
    (hname : ∀ x, patch.name = some x → ∃ s, x = .text s)
    (hdescription : ∀ x, patch.description = some x → ∃ s, x = .text s) (isActive : Option Bool) :
    (Rules.changeOf patch window tree isActive).WellFormed m := by
  have hlabels := h.labels
  simp only [Rules.patchProblems, List.append_eq_nil_iff] at hlabels
  obtain ⟨⟨⟨hnames, hdescriptions⟩, -⟩, -⟩ := hlabels
  refine ⟨fun x hx => ?_, fun x hx => ?_, ?_, tree, ⟨rfl, rfl, rfl, rfl⟩, fun c hc =>
    ⟨(h.finds c hc).known hgives howned, Criteria.read_of_mapM h.read c hc⟩⟩
  · obtain ⟨s, rfl⟩ := hname x hx
    have hx : patch.name = some (.text s) := hx
    exact Rules.isLabel_of_labelProblems (hx ▸ hnames)
  · obtain ⟨s, rfl⟩ := hdescription x hx
    have hx : patch.description = some (.text s) := hx
    exact Rules.isLabel_of_labelProblems (hx ▸ hdescriptions)
  · cases window with
    | none => exact .inl ⟨rfl, rfl⟩
    | some w =>
      obtain ⟨start, stop, hw⟩ := h.window w rfl
      exact .inr ⟨w, Rules.ordered_of_checkWindow hw, rfl, rfl⟩

end

/-! ## Requests -/

/-- A request that writes no other rules than well-formed ones. -/
def Request.IsOrderly (m : Memory) : {α : Type} → Request α → Prop
  | _, .createRule d => d.WellFormed m
  | _, .updateRule _ change _ => change.WellFormed m
  | _, _ => True

theorem Request.IsOrderly.mono {m m' : Memory} {q : Request α} (h : q.IsOrderly m)
    (hm : m.Extends m') : q.IsOrderly m' := by
  cases q with
  | createRule d => exact { h with tree := h.tree.mono hm }
  | updateRule id change expected =>
    obtain ⟨tree, hproper, htree⟩ := h.tree
    exact { h with tree := ⟨tree, hproper, fun c hc => ⟨(htree c hc).1.mono hm, (htree c hc).2⟩⟩ }
  | _ => exact trivial

theorem Tables.column_of_bound {operation : Operation} {s : String} {cell : Option String}
    (h : boundCell operation (Cell.text (.text s)) = .ok cell) :
    view.column (.text s) = .text s := by
  have hcell := boundCell_eq_ok.mp h
  simp only [Cell.text, Cell.ofText] at hcell
  split at hcell <;> cases hcell
  rename_i hs
  exact lawful.column_text hs

namespace Backing

variable {b : Backing} {w w' : World b.Store} {m : Memory} {r r' : Rule} {change : RuleChange}
  {expected : Option Value} {now : String}

/-- A text that a change sets is kept as it is, if the change is written at all. -/
theorem column_of_revised : ∀ {b : Backing}, b.revised change expected now r = .ok (some r') →
    ∀ s, change.name = some (.text s) ∨ change.description = some (.text s) →
      b.view.column (.text s) = .text s
  | memory, _, _, _ => rfl
  | tables, h, s, hs => by
    obtain ⟨_, -, h⟩ := bind_eq_ok.mp h
    obtain ⟨_, hname, h⟩ := bind_eq_ok.mp h
    obtain ⟨_, hdescription, -⟩ := bind_eq_ok.mp h
    rcases hs with hs | hs
    · obtain ⟨_, hcell, -⟩ := mapM_some_eq_ok (hs ▸ hname)
      exact Tables.column_of_bound hcell
    · obtain ⟨_, hcell, -⟩ := mapM_some_eq_ok (hs ▸ hdescription)
      exact Tables.column_of_bound hcell

theorem isLabel_getD {f : Value → Value} {given : Option Value} {x : Value} (hx : x.IsLabel)
    (hgiven : ∀ y, given = some y → y.IsLabel)
    (hf : ∀ s, given = some (.text s) → f (.text s) = .text s) :
    ((given.map f).getD x).IsLabel := by
  cases given with
  | none => exact hx
  | some y =>
    obtain ⟨s, rfl, hs⟩ := hgiven y rfl
    exact ⟨s, hf s rfl, hs⟩

theorem wellFormed_revised (h : r.WellFormed m) (hc : change.WellFormed m)
    (hr : b.revised change expected now r = .ok (some r')) : r'.WellFormed m := by
  obtain ⟨tree, hproper, htree⟩ := hc.tree
  have hcolumn := column_of_revised hr
  rw [revised_of_proper hproper hr]
  refine ⟨isLabel_getD h.name hc.name fun s hs => hcolumn s (.inl hs),
    isLabel_getD h.description hc.description fun s hs => hcolumn s (.inr hs), ?_, ?_⟩
  · rcases hc.window with ⟨hfrom, hto⟩ | ⟨v, hv, hfrom, hto⟩
    · rw [window_unchanged hfrom hto]
      exact h.window
    · rwa [window_changed hv.written hfrom hto]
  · cases tree with
    | none => exact h.tree
    | some c => exact (htree c rfl).1

theorem wellFormed_stored {d : RuleDraft} (h : d.WellFormed m) (id : String) :
    (d.stored b.tag b.view.flag id now).WellFormed m := by
  obtain ⟨name, hname, hlabel⟩ := h.name
  obtain ⟨description, hdescription, hlabel'⟩ := h.description
  refine ⟨⟨name, ?_, hlabel⟩, ⟨description, ?_, hlabel'⟩, ?_, h.tree⟩
  · rw [RuleDraft.stored, hname, b.tag_text]
  · rw [RuleDraft.stored, hdescription, b.tag_text]
  · rw [window_stored h.window.written]
    exact h.window

/-- All rules are well formed. -/
def RulesWellFormed (b : Backing) (m : Memory) (w : World b.Store) : Prop :=
  ∀ r ∈ (b.view.records w.store).rules.records, r.WellFormed m

/-- What a request makes of the rules leaves them well formed, if it writes no others. -/
theorem rulesWellFormed_of_effect (h : b.RulesWellFormed m w) {q : Request α} (hq : q.IsOrderly m)
    (he : b.RuleEffect w w' q) : b.RulesWellFormed m w' := by
  cases he with
  | same hsame => exact fun r hr => h r (hsame ▸ hr)
  | created hd hissued hput =>
    cases q <;> cases hd
    intro r hr
    rcases Shelf.mem_records_put (hput ▸ hr) with rfl | hold
    · exact wellFormed_stored hq _
    · exact h r hold
  | changed hchange hs hget hrevised hput =>
    cases q <;> cases hchange
    intro r hr
    rcases Shelf.mem_records_put (hput ▸ hr) with rfl | hold
    · exact wellFormed_revised (h _ (Shelf.mem_records_of_get? hget)) hq hrevised
    · exact h r hold
  | deleted hd hs herase => exact fun r hr => h r (Shelf.mem_records_of_erase (herase ▸ hr))

theorem parsed_of_isOrderly {q : Request α} (hq : q.IsOrderly m) : b.view.Parsed q := by
  cases q <;> try exact trivial
  case createRule d =>
    obtain ⟨_, hread⟩ := RuleDraft.WellFormed.read hq
    exact b.lawful.tree_of_read hread
  case updateRule id change expected => exact RuleChange.WellFormed.isRead hq

/-- What a request keeps of the rules. -/
theorem keeps_rulesWellFormed (hin : b.RulesInOrder w) (hplain : ∀ n, b.view.Plain (w.idOf n))
    (h : b.RulesWellFormed m w) {q : Request α} (hq : q.IsOrderly m) :
    Keeps (fun w' => b.RulesInOrder w' ∧ b.RulesWellFormed m w') (b.storage.perform q) w := by
  exact (keeps_ruleEffect hin (hplain _) (parsed_of_isOrderly hq)).imp fun w' ⟨hin, _, he⟩ =>
    ⟨hin, rulesWellFormed_of_effect h hq he⟩

/-! ## The invariant -/

/-- The catalogs are in order, and all rules are well formed by them. -/
structure WellKept (b : Backing) (w : World b.Store) : Prop where
  catalogs : b.Catalogued w
  inOrder : b.RulesInOrder w
  rules : b.RulesWellFormed (b.view.records w.store) w

/-- What a request keeps: a rule stays well formed while the catalogs grow. -/
theorem WellKept.request (h : b.WellKept w) {q : Request α} (hfiles : b.Files q)
    (hq : q.IsOrderly (b.view.records w.store)) : Keeps b.WellKept (b.storage.perform q) w := by
  exact ((keeps_catalogued h.catalogs hfiles).both
    (keeps_rulesWellFormed h.inOrder h.catalogs.plain h.rules hq)).imp fun w' ⟨hc, hin, hr⟩ =>
      ⟨hc.1, hin, fun r hmem => (hr r hmem).mono hc.2⟩

/-! ## Calls -/

/-- What is agreed with a store on rules that are checked against the catalogs of `m`: these
stay as they are. -/
def ruling (b : Backing) (m : Memory) : Contract (World b.Store) where
  inv u := b.WellKept u ∧ (b.view.records u.store).observations = m.observations
  may q := q.addsObservations = false ∧ q.IsOrderly m
  gives := m.Answers

/-- A type that is found can be the owner of a value. -/
def Knows (b : Backing) : {α : Type} → Request α → α → Prop
  | _, .getObservationTypes ids, found => found ≠ [] → ∃ id ∈ ids, b.Owns id
  | _, _, _ => True

/-- What is agreed with a store while no rule is written. -/
def filing (b : Backing) : Contract (World b.Store) where
  inv := b.WellKept
  may q := b.Files q ∧ ∀ m, q.IsOrderly m
  gives := b.Knows

theorem files_of_addsObservations {q : Request α} (h : q.addsObservations = false) : b.Files q := by
  cases q <;> first
    | exact trivial
    | exact Bool.noConfusion h

theorem answers_of_eq {m' : Memory} {q : Request α} {a : α} (h : m'.Answers q a)
    (hm : m'.observations = m.observations) : m.Answers q a := by
  have hextends := Memory.extends_of_eq hm.symm
  cases q <;> first
    | exact trivial
    | exact fun x hx => hextends.types x (h x hx)
    | exact fun x hx => hextends.values x (h x hx)

theorem meets_ruling (m : Memory) : b.storage.faulty.Meets (b.ruling m).first := by
  refine (meets_of_triple ?_).faulty fun _ _ => trivial
  rintro α q u ⟨hadds, hq⟩ ⟨hu, hm⟩
  have horderly := Request.IsOrderly.mono hq (Memory.extends_of_eq hm)
  have hkept := hu.request (files_of_addsObservations hadds) horderly
  have hsame := b.keeps_beside (w := u) (Request.spares_observations hadds)
  exact ((hkept.and hsame).and (b.triple_answers q)).mono
    (fun _ _ ht => ⟨answers_of_eq ht.2 hm, ht.1.1, ht.1.2.2.trans hm⟩)
    fun _ _ ht => ⟨ht.1.1, ht.1.2.2.trans hm⟩

theorem meets_filing : b.storage.faulty.Meets b.filing.first := by
  refine (meets_of_triple ?_).faulty fun _ _ => trivial
  rintro α q u ⟨hfiles, hq⟩ hu
  have hkept := hu.request hfiles (hq _)
  cases q <;> try exact hkept.mono (fun _ _ ht => ⟨trivial, ht⟩) fun _ _ ht => ht
  case getObservationTypes ids =>
    exact (hkept.and (hu.catalogs.owns_of_found ids)).mono (fun _ _ ht => ⟨ht.2, ht.1⟩)
      fun _ _ ht => ht.1

end Backing

/-- A call whose patch of a rule, if any, sets texts as name and description. -/
def Engine.Call.NamesTexts : Call → Prop
  | updateRule _ patch => (∀ x, patch.name = some x → ∃ s, x = .text s) ∧
      ∀ x, patch.description = some x → ∃ s, x = .text s
  | _ => True

/-- Whether a call writes a rule. -/
def Engine.Call.isRuleWrite : Call → Bool
  | createRule _ | updateRule .. => true
  | _ => false

namespace Backing

variable {b : Backing} {w : World b.Store} {plan : List Storage.Mishap}

theorem files_of_isRead {q : Request α} (hq : q.isRead) : b.Files q ∧ ∀ m, q.IsOrderly m := by
  cases q <;> first
    | exact absurd hq Bool.false_ne_true
    | exact ⟨trivial, fun _ => trivial⟩

/-- A call that neither writes a rule nor adds to a catalog asks for nothing that could. -/
theorem files_of_asks {c : Call} (hwrite : c.isRuleWrite = false) (hfiling : c.isFiling = false)
    {q : Request α} (hq : c.Asks q) : b.Files q ∧ ∀ m, q.IsOrderly m := by
  cases q <;> try exact ⟨trivial, fun _ => trivial⟩
  case createRule d =>
    obtain ⟨⟨input, rfl⟩, -⟩ := hq
    cases hwrite
  case updateRule id change expected =>
    obtain ⟨⟨patch, rfl⟩, -⟩ := hq
    cases hwrite
  all_goals exact Bool.noConfusion ((hq rfl).symm.trans hfiling)

theorem keeps_ruling (h : b.WellKept w) (policy : Policy) {c : Call} (hc : c.NamesTexts)
    (hwrite : c.isRuleWrite = true) :
    (b.ruling (b.view.records w.store)).first.Upheld (c.run policy b.storage.faulty) (w, plan) := by
  have hg := meets_ruling (b := b) (b.view.records w.store)
  have hread {α : Type} {q : Request α} (hq : q.isRead) :
      (b.ruling (b.view.records w.store)).may q := by
    refine ⟨?_, (files_of_isRead (b := b) hq).2 _⟩
    cases q <;> first
      | rfl
      | cases hq
  cases c with
  | createRule input =>
    exact (Rules.upheld_createRule hg (fun _ _ => trivial) hread input
      (fun d hd => ⟨rfl, hd.wellFormed id h.catalogs.owned⟩) ⟨h, rfl⟩).map _
  | updateRule id patch =>
    exact (Rules.upheld_update hg (fun _ _ => trivial) hread id patch
      (fun _ _ _ _ _ _ => ⟨rfl, trivial⟩)
      (fun isActive _ hp _ => ⟨rfl, hp.wellFormed (fun ha => ha) h.catalogs.owned hc.1 hc.2 isActive⟩)
      ⟨h, rfl⟩).map _
  | _ => cases hwrite

theorem keeps_filing (h : b.WellKept w) (policy : Policy) {c : Call}
    (hwrite : c.isRuleWrite = false) :
    b.filing.first.Upheld (c.run policy b.storage.faulty) (w, plan) := by
  have hg := meets_filing (b := b)
  have hw : b.filing.first.inv (w, plan) := h
  have hall (e : Error) (s : World b.Store × List Storage.Mishap) : b.filing.first.errs e s := trivial
  have hread {α : Type} {q : Request α} (hq : q.isRead) : b.filing.may q := files_of_isRead hq
  cases hfiling : c.isFiling with
  | false => exact Call.upheld hg hall (files_of_asks hwrite hfiling) policy hw
  | true =>
    cases c with
    | createObservationType name kind description multiple =>
      exact (Catalogs.upheld_createObservationType hg hall (fun _ hd => ⟨hd, fun _ => trivial⟩)
        _ _ _ _ hw).map _
    | createObservationValue typeId value description =>
      refine (Catalogs.upheld_createObservationValue hg hall hread typeId
        (fun d found hd htype hfound hne => ⟨⟨hd, ?_⟩, fun _ => trivial⟩) _ _ hw).map _
      obtain ⟨id, hid, howns⟩ := hfound hne
      rw [htype, ← List.mem_singleton.mp hid]
      exact howns
    | createMitigationType name description multiple =>
      have hmay (d : MitigationTypeDraft) : b.filing.may (.createMitigationType d) :=
        ⟨trivial, fun _ => trivial⟩
      exact (hg.upheld (hmay _) hw).map _
    | createMitigationValue typeId value description category =>
      exact (Catalogs.upheld_createMitigationValue hg hall hread
        (fun _ _ => ⟨trivial, fun _ => trivial⟩) _ _ _ _ hw).map _
    | _ => cases hfiling

theorem WellKept.after (h : b.WellKept w) {c : Call} (hc : c.NamesTexts) (policy : Policy)
    (plan : List Storage.Mishap) : b.WellKept (b.after policy plan c w) := by
  cases hwrite : c.isRuleWrite with
  | true => exact (keeps_ruling h policy hc hwrite).keeps.state.1
  | false => exact (keeps_filing h policy hwrite).keeps.state

theorem WellKept.empty (b : Backing) {clock : Time.Stamp} {issued : Nat} {idOf : Nat → String}
    (hinj : Function.Injective idOf) (hwhole : ∀ n, Text.isWhole (idOf n) = true) :
    b.WellKept ⟨b.empty, clock, issued, idOf⟩ := by
  have hrecords : b.view.records b.empty = {} := b.records_empty
  refine ⟨⟨hinj, fun n => b.plain_of_isWhole (hwhole n), hrecords ▸ nofun, hrecords ▸ nofun,
    hrecords ▸ nofun⟩, b.rulesInOrder_empty clock issued idOf, ?_⟩
  rw [RulesWellFormed, hrecords]
  nofun

theorem WellKept.tick (h : b.WellKept w) (clock : Time.Stamp) : b.WellKept { w with clock } :=
  ⟨⟨h.catalogs.injective, h.catalogs.plain, h.catalogs.types, h.catalogs.values,
    h.catalogs.owned⟩, b.rulesInOrder_tick h.inOrder clock, h.rules⟩

theorem Visited.wellKept (h : b.Visited (fun _ _ c => c.NamesTexts) w) : b.WellKept w := by
  induction h with
  | empty clock issued idOf hinj hwhole => exact .empty b hinj hwhole
  | tick clock _ ih => exact ih.tick clock
  | call policy plan hc _ ih => exact ih.after hc policy plan

/-- Every stored rule is well formed by the catalogs, and so is every rule that is answered. -/
theorem wellFormed_of_visited (h : b.Visited (fun _ _ c => c.NamesTexts) w) :
    (∀ r ∈ (b.view.records w.store).rules.records, r.WellFormed (b.view.records w.store)) ∧
      ∀ id r w', (b.storage.perform (.getRule id)).run w = (.ok (some r), w') →
        r.WellFormed (b.view.records w.store) := by
  refine ⟨h.wellKept.rules, fun id r w' hrun => ?_⟩
  rw [b.run_lookUpRule h.wellKept.inOrder] at hrun
  obtain ⟨hlook, -⟩ := Prod.mk.inj hrun
  obtain ⟨s, -, hr⟩ := View.look_eq_some.mp hlook
  exact h.wellKept.rules r (Shelf.mem_records_of_get? hr)

/-! ## A rule with an end -/

/-- A store that knows what can be observed of a leak. -/
def leaky : World Tables :=
  tables.after {} [] (.createObservationValue (.text "a") (.text "burst") .null)
    (tables.after {} [] (.createObservationType (.text "leak") (.text "ENUM") .null (.bool false))
      (start .tables))

/-- A rule on leaks, which is given an end later on. -/
def ended : World Tables :=
  tables.after {} [] (.updateRule (.text "aaa") { effectiveTo := some (.text "2025-01-01T01:00+01:00") })
    (tables.after {} [] (.createRule
      { name := .text " Burst ", description := .text "A pipe has burst."
        tree := .object [("join_operator", .text "AND"), ("conditions", .list
          [.object [("observation_type_id", .text "a"),
            ("observation_value_ids", .list [.text "aa"])]])]
        effectiveFrom := .text "2024-01-01" }) leaky)

theorem visited_ended : tables.Visited (fun _ _ c => c.NamesTexts) ended :=
  .call _ _ ⟨nofun, nofun⟩ <| .call _ _ trivial <| .call _ _ trivial <| .call _ _ trivial <|
    .empty _ 0 letters letters_injective isWhole_letters

theorem wellFormed_ended : ∃ r ∈ (tables.view.records ended.store).rules.records,
    r.name = .text "Burst" ∧ r.effectiveTo = .text "2025-01-01T01:00:00+01:00" ∧
      r.WellFormed (tables.view.records ended.store) := by
  have hended : ∃ r ∈ (Tables.records ended.store).rules.records,
      r.name = .text "Burst" ∧ r.effectiveTo = .text "2025-01-01T01:00:00+01:00" := by
    decide +kernel
  obtain ⟨r, hr, hname, hstop⟩ := hended
  exact ⟨r, hr, hname, hstop, (wellFormed_of_visited visited_ended).1 r hr⟩

end Backing

end PropertyRisk
