import PropertyRisk.Engine.RuleWording
import PropertyRisk.Proofs.References
import PropertyRisk.Proofs.Rivals

/-!
# What the words of a rule tell

`Backing.wording_in_order`: the words of a stored rule are its tree, leaf by leaf in order, with
the join of a group between its members and each nested group in one pair of parentheses. A leaf
that states a test is told by a piece that begins with the name of its type. A leaf that states
none is told by nothing at all, so that two joins may meet (`Backing.unstated_left_out`).

What is written is first told in marks (`Written`), which say where a leaf stands without saying
how it is worded.
-/

namespace PropertyRisk

open Engine Engine.Rules

/-! ## A tree in marks -/

inductive Mark
  | piece (l : Leaf)
  | join (j : Join)
  | opening
  | closing
deriving DecidableEq, Repr

namespace Mark

def leaf? : Mark → Option Leaf
  | piece l => some l
  | _ => none

def text (piece : Leaf → String) : Mark → String
  | .piece l => piece l
  | .join j => j.phrase
  | .opening => "("
  | .closing => ")"

/-- The text of some marks, one right after the other. -/
def textOf (piece : Leaf → String) (marks : List Mark) : String :=
  String.join (marks.map (text piece))

variable {piece : Leaf → String}

theorem textOf_cons (t : Mark) (rest : List Mark) :
    textOf piece (t :: rest) = t.text piece ++ textOf piece rest := by
  rw [textOf, List.map_cons, String.join_cons, textOf]

theorem textOf_singleton (t : Mark) : textOf piece [t] = t.text piece := by
  rw [textOf_cons]
  exact String.append_empty

theorem textOf_append (ts us : List Mark) :
    textOf piece (ts ++ us) = textOf piece ts ++ textOf piece us := by
  rw [textOf, List.map_append, String.join_append, textOf, textOf]

end Mark

/-- How the members of a group with a join are written. -/
inductive Written : Join → List Condition → List Mark → Prop
  | nothing {j} : Written j [] []
  | leaf {j l} : Written j [.leaf l] [.piece l]
  | group {j k members marks} :
    Written k members marks → Written j [.group k members] (.opening :: marks ++ [.closing])
  | members {j c d rest ts us} : Written j [c] ts → Written j (d :: rest) us →
    Written j (c :: d :: rest) (ts ++ .join j :: us)

/-- Each leaf is written once, in its place. -/
theorem Written.leaves {j : Join} {members : List Condition} {marks : List Mark}
    (h : Written j members marks) :
    marks.filterMap Mark.leaf? = Condition.leavesOf members := by
  induction h with
  | nothing => rfl
  | leaf => rfl
  | group _ ih =>
    rw [List.filterMap_append, List.filterMap_cons_none rfl, ih]
    simp [Condition.leavesOf, Condition.leaves, Mark.leaf?]
  | members _ _ ihc ihrest =>
    rw [List.filterMap_append, List.filterMap_cons_none rfl, ihc, ihrest]
    simp [Condition.leavesOf]

mutual

theorem exists_written_member (names : Names) (j : Join) : ∀ c : Condition, ∃ marks,
    Written j [c] marks ∧ Mark.textOf (Leaf.phrase names) marks = c.phrase names
  | .leaf l => ⟨_, .leaf, Mark.textOf_singleton _⟩
  | .group k members => by
    obtain ⟨marks, hwritten, htext⟩ := exists_written names k members
    refine ⟨_, .group hwritten, ?_⟩
    rw [Mark.textOf_append, Mark.textOf_cons, Mark.textOf_singleton, htext]
    rfl

theorem exists_written (names : Names) (j : Join) : ∀ members : List Condition, ∃ marks,
    Written j members marks ∧ Mark.textOf (Leaf.phrase names) marks =
      Value.joined j.phrase (Condition.phrases names members)
  | [] => ⟨_, .nothing, rfl⟩
  | [c] => by
    obtain ⟨marks, hwritten, htext⟩ := exists_written_member names j c
    refine ⟨marks, hwritten, htext.trans ?_⟩
    exact String.intercalate_singleton.symm
  | c :: d :: rest => by
    obtain ⟨ts, hmember, hts⟩ := exists_written_member names j c
    obtain ⟨us, hrest, hus⟩ := exists_written names j (d :: rest)
    refine ⟨_, .members hmember hrest, ?_⟩
    simp only [Mark.textOf_append, Mark.textOf_cons, Mark.text, hts, hus, Condition.phrases,
      Value.joined, String.intercalate_cons_cons, String.append_assoc]

end

/-! ## What a leaf is told by -/

/-- A leaf that asks for catalog values, or compares with a value. -/
def Leaf.IsStated (l : Leaf) : Prop := l.valueIds ≠ none ∨ l.value ≠ .null

/-- The label of an id is that of the record with this id, or the id itself if there is none. -/
def GoesBy (idOf : α → Value) (labelOf : α → String) (records : List α) (id label : String) :
    Prop :=
  (∃ a ∈ records, idOf a = .text id ∧ labelOf a = label) ∨
    (¬∃ a ∈ records, idOf a = .text id) ∧ label = id

namespace Memory

def TypeName (m : Memory) : String → String → Prop :=
  GoesBy ObservationType.id (·.name.plain) m.observationTypes.records

def ValueLabel (m : Memory) : String → String → Prop :=
  GoesBy ObservationValue.id (·.value.plain) m.observationValues.records

/-- The words that a leaf is told by. -/
inductive Words (m : Memory) (l : Leaf) : String → Prop
  | values {ids name labels} : l.valueIds = some ids → m.TypeName l.typeId name →
    List.Forall₂ m.ValueLabel ids labels →
    m.Words l (name ++ " is " ++ Value.joined " or " labels)
  | value {name} : l.valueIds = none → l.value ≠ .null → m.TypeName l.typeId name →
    m.Words l (name ++ " " ++ l.operator.phrase ++ " " ++ l.value.comparable)
  | nothing : ¬l.IsStated → m.Words l ""

/-- Words begin with the name of the type, where there are any. -/
theorem Words.begin {m : Memory} {l : Leaf} {words : String} (h : m.Words l words)
    (hl : l.IsStated) :
    words ≠ "" ∧ ∃ name, m.TypeName l.typeId name ∧ name.toList <+: words.toList := by
  have nonempty (name word rest : String) (hword : word ≠ "") : name ++ word ++ rest ≠ "" := by
    simp [String.append_eq_empty_iff, hword]
  cases h with
  | values hids hname hlabels =>
    refine ⟨nonempty _ _ _ (by decide), _, hname, ?_⟩
    simp [String.toList_append, List.append_assoc]
  | value hids hvalue hname =>
    refine ⟨by simp [String.append_eq_empty_iff], _, hname, ?_⟩
    simp [String.toList_append, List.append_assoc]
  | nothing hunstated => exact absurd hl hunstated

theorem Words.eq_empty {m : Memory} {l : Leaf} {words : String} (h : m.Words l words)
    (hl : ¬l.IsStated) : words = "" := by
  cases h with
  | values hids => exact absurd (.inl (by simp [hids])) hl
  | value _ hvalue => exact absurd (.inr hvalue) hl
  | nothing => rfl

end Memory

/-- The names that were found are those that the ids asked for go by. -/
theorem goesBy_nameIn {idOf : α → Value} {labelOf : α → String} {records found : List α}
    {ids : List String} (hfound : FoundBy idOf records ids found) {id : String} (hid : id ∈ ids) :
    GoesBy idOf labelOf records id
      (nameIn (found.map fun a => ((idOf a).plain, labelOf a)) id) := by
  rw [nameIn]
  cases hlookup : (found.map fun a => ((idOf a).plain, labelOf a)).lookup id with
  | some label =>
    obtain ⟨before, after, hsplit, -⟩ := List.lookup_eq_some_iff.mp hlookup
    have hmem : (id, label) ∈ found.map fun a => ((idOf a).plain, labelOf a) := by
      rw [hsplit]
      simp
    obtain ⟨a, ha, heq⟩ := List.mem_map.mp hmem
    obtain ⟨hrecord, s, -, hs⟩ := (hfound a).mp ha
    obtain ⟨rfl, rfl⟩ := Prod.mk.inj heq
    refine .inl ⟨a, hrecord, ?_, rfl⟩
    rw [hs, Value.plain_text]
  | none =>
    refine .inr ⟨?_, rfl⟩
    rintro ⟨a, ha, hs⟩
    have hmem := List.mem_map_of_mem (f := fun a => ((idOf a).plain, labelOf a))
      ((hfound a).mpr ⟨ha, id, hid, hs⟩)
    have hother := List.lookup_eq_none_iff.mp hlookup _ hmem
    simp [hs] at hother

/-- The names of what was found. -/
def Names.found (types : List ObservationType) (values : List ObservationValue) : Names where
  types := types.map fun t => (t.id.plain, t.name.plain)
  values := values.map fun v => (v.id.plain, v.value.plain)

/-- A leaf is worded with the names that its ids go by. -/
theorem Leaf.words_phrase {m : Memory} {names : Names} {l : Leaf}
    (htype : m.TypeName l.typeId (nameIn names.types l.typeId))
    (hvalues : ∀ id ∈ l.valueIds.getD [], m.ValueLabel id (nameIn names.values id)) :
    m.Words l (l.phrase names) := by
  rw [Leaf.phrase]
  cases hids : l.valueIds with
  | some ids =>
    rw [hids, Option.getD_some] at hvalues
    refine .values hids htype ?_
    rw [List.forall₂_map_right_iff, List.forall₂_same]
    exact hvalues
  | none =>
    by_cases hnull : l.value = .null
    · rw [if_pos hnull]
      exact .nothing (by simp [IsStated, hids, hnull])
    · rw [if_neg hnull]
      exact .value hids hnull htype

/-! ## What is asked of the catalogs -/

namespace Tables

variable {w : World Tables} {texts : List String} {operation : Operation}

/-- Texts are not bound when one of them cannot be encoded. -/
theorem run_bindTexts_of_half (h : ∃ s ∈ texts, Text.isWhole s = false) :
    ((texts.map Value.text).mapM (bindText operation)).run w =
      (.error (.fault .unencodable), w) := by
  induction texts with
  | nil => simp at h
  | cons s rest ih =>
    rw [List.map_cons, List.mapM_cons, bindText_eq, boundCell_text]
    by_cases hwhole : Text.isWhole s = true
    case neg =>
      rw [if_neg hwhole]
      exact Op.run_bind_error rfl
    case pos =>
      have hrest := ((List.exists_mem_cons_iff _ _ _).mp h).resolve_left
        fun hhalf => Bool.false_ne_true (hhalf.symm.trans hwhole)
      rw [if_pos hwhole]
      exact (Op.run_bind_ok rfl).trans (Op.run_bind_error (ih hrest))

theorem run_selectByIds_of_half {table : Tables → Table α} {idOf : α → String}
    (ht : (table w.store).state = .whole) (h : ∃ s ∈ texts, Text.isWhole s = false) :
    (selectByIds operation table idOf (texts.map .text)).run w =
      (.error (.fault .unencodable), w) := by
  unfold selectByIds
  have hsome : ¬(texts.map Value.text).isEmpty := by
    obtain ⟨s, hs, -⟩ := h
    simpa using List.ne_nil_of_mem hs
  rw [if_neg hsome]
  exact (Op.run_bind_ok (run_select ht)).trans (Op.run_bind_error (run_bindTexts_of_half h))

end Tables

namespace Backing

variable {b : Backing} {w : World b.Store} {texts : List String}

/-- A request for some ids fails when one of them cannot be encoded. -/
theorem run_getCatalogs_of_not_plain : ∀ {b : Backing} {w : World b.Store}, b.Indexed w →
    (∃ s ∈ texts, ¬b.view.Plain s) →
    (b.storage.perform (.getObservationTypes (texts.map .text))).run w =
        (.error (.fault .unencodable), w) ∧
      (b.storage.perform (.getObservationValues (texts.map .text))).run w =
        (.error (.fault .unencodable), w)
  | memory, _, _, ⟨_, _, hs⟩ => absurd trivial hs
  | tables, w, h, hs => by
    have hhalf : ∃ s ∈ texts, Text.isWhole s = false :=
      hs.imp fun s hs => ⟨hs.1, Bool.eq_false_iff.mpr hs.2⟩
    exact ⟨Op.run_bind_error (Tables.run_selectByIds_of_half h.there.1 hhalf),
      Op.run_bind_error (Tables.run_selectByIds_of_half h.there.2 hhalf)⟩

/-- The words of a tree can be found: the store can be asked for its ids, and the values that it
names are labelled with texts, which can be joined. -/
structure Tellable (b : Backing) (w : World b.Store) (tree : Criteria) : Prop where
  ask : b.CanAsk tree
  labels : ∀ v ∈ (b.view.records w.store).observationValues.records,
    (∃ id ∈ valueIdsOf tree.leaves, v.id = .text id) → ∃ label, v.value = .text label

theorem mapM_labelOf {values : List ObservationValue}
    (h : ∀ v ∈ values, ∃ label, v.value = .text label) :
    values.mapM labelOf = .ok (values.map fun v => (v.id.plain, v.value.plain)) := by
  induction values with
  | nil => rfl
  | cons v rest ih =>
    obtain ⟨label, hlabel⟩ := h v List.mem_cons_self
    rw [List.mapM_cons, labelOf, hlabel, ih fun u hu => h u (List.mem_cons_of_mem _ hu),
      List.map_cons, hlabel]
    rfl

theorem mapM_labelOf_of_other {values : List ObservationValue}
    (h : ∃ v ∈ values, ∀ label, v.value ≠ .text label) :
    values.mapM labelOf = .error (.fault .wrongShape) := by
  induction values with
  | nil => simp at h
  | cons v rest ih =>
    rw [List.mapM_cons, labelOf]
    split
    case h_1 label hlabel =>
      have hrest := (List.exists_mem_cons_iff _ _ _).mp h
      rw [ih (hrest.resolve_left fun hother => hother label hlabel)]
      rfl
    case h_2 => rfl

/-- No request is made for no ids, and none would find anything. -/
theorem run_unlessNone {x : Op σ (List α)} {f : List α → Op σ β} {s : σ} {ids : List String}
    (hnone : ids = [] → x.run s = (.ok [], s)) :
    (if ids.isEmpty then pure [] >>= f else x >>= f).run s = (x >>= f).run s := by
  cases ids with
  | nil => exact ((Op.run_bind_ok rfl).trans (Op.run_bind_ok (hnone rfl)).symm)
  | cons => rfl

theorem run_getCatalogs_of_none : ∀ (b : Backing) (w : World b.Store),
    (b.storage.perform (.getObservationTypes [])).run w = (.ok [], w) ∧
      (b.storage.perform (.getObservationValues [])).run w = (.ok [], w)
  | memory, _ => ⟨rfl, rfl⟩
  | tables, _ => ⟨rfl, rfl⟩

variable {tree : Criteria}

theorem run_namesIn_of_found (h : b.Indexed w) (hask : b.CanAsk tree) : ∃ types values,
    (namesIn b.storage tree).run w =
      ((values.mapM labelOf).map fun labels =>
        ⟨types.map fun t => (t.id.plain, t.name.plain), labels⟩, w) ∧
    FoundBy ObservationType.id (b.view.records w.store).observationTypes.records
      (distinctSorted (tree.leaves.map Leaf.typeId)) types ∧
    FoundBy ObservationValue.id (b.view.records w.store).observationValues.records
      (distinctSorted (valueIdsOf tree.leaves)) values := by
  obtain ⟨types, htypes, hfoundTypes⟩ :=
    run_getObservationTypes h (plain_typeIds fun l hl => (hask l hl).1)
  obtain ⟨values, hvalues, hfoundValues⟩ :=
    run_getObservationValues h (plain_valueIds fun l hl => (hask l hl).2)
  have hnone := b.run_getCatalogs_of_none w
  refine ⟨types, values, ?_, hfoundTypes, hfoundValues⟩
  unfold namesIn
  refine (run_unlessNone fun hids => by rw [hids]; exact hnone.1).trans ?_
  refine (Op.run_bind_ok htypes).trans ?_
  refine (run_unlessNone fun hids => by rw [hids]; exact hnone.2).trans ?_
  refine (Op.run_bind_ok hvalues).trans ?_
  rw [Op.run_bind, Op.run_ofExcept]
  cases values.mapM labelOf <;> rfl

theorem run_namesIn_of_not_ask (h : b.Indexed w) (hask : ¬b.CanAsk tree) :
    (namesIn b.storage tree).run w = (.error (.fault .unencodable), w) := by
  have hnone := b.run_getCatalogs_of_none w
  unfold namesIn
  refine (run_unlessNone fun hids => by rw [hids]; exact hnone.1).trans ?_
  by_cases htypes : ∀ s ∈ distinctSorted (tree.leaves.map Leaf.typeId), b.view.Plain s
  case neg =>
    push Not at htypes
    exact Op.run_bind_error (run_getCatalogs_of_not_plain h htypes).1
  case pos =>
    have hvalues : ∃ s ∈ distinctSorted (valueIdsOf tree.leaves), ¬b.view.Plain s := by
      by_contra hall
      push Not at hall
      refine hask fun l hl => ⟨htypes _ (mem_distinctSorted.mpr (List.mem_map_of_mem hl)), ?_⟩
      exact fun id hid => hall id (mem_distinctSorted.mpr (List.mem_flatMap.mpr ⟨l, hl, hid⟩))
    obtain ⟨types, hrun, -⟩ := run_getObservationTypes h htypes
    refine (Op.run_bind_ok hrun).trans ?_
    refine (run_unlessNone fun hids => by rw [hids]; exact hnone.2).trans ?_
    exact Op.run_bind_error (run_getCatalogs_of_not_plain h hvalues).2

/-- A leaf of a tree is worded with the names that were found. -/
theorem words_of_found {m : Memory} {types : List ObservationType} {values : List ObservationValue}
    (htypes : FoundBy ObservationType.id m.observationTypes.records
      (distinctSorted (tree.leaves.map Leaf.typeId)) types)
    (hvalues : FoundBy ObservationValue.id m.observationValues.records
      (distinctSorted (valueIdsOf tree.leaves)) values) {l : Leaf} (hl : l ∈ tree.leaves) :
    m.Words l (l.phrase (.found types values)) := by
  refine Leaf.words_phrase ?_ fun id hid => ?_
  · exact goesBy_nameIn htypes (mem_distinctSorted.mpr (List.mem_map_of_mem hl))
  · exact goesBy_nameIn hvalues (mem_distinctSorted.mpr (List.mem_flatMap.mpr ⟨l, hl, hid⟩))

/-! ## The words of a stored rule -/

/-- A rule is worded with the names for its tree. -/
theorem run_render {s : String} {r : Rule} {answer : Except Error PropertyRisk.Names}
    (hin : b.RulesInOrder w) (hr : b.ruleAt w s = some r)
    (hnames : (namesIn b.storage r.tree).run w = (answer, w)) :
    (render b.storage (.text s)).run w = (answer.map fun names =>
      "Rule: " ++ r.name.plain ++ "\nDescription: " ++ r.description.plain ++
        "\nConditions: " ++ r.tree.phrase names, w) := by
  have hget : (get b.storage (.text s)).run w = (.ok r, w) := by
    rw [Rules.get, Op.run_bind_ok (run_getRule_at hin (plain_of_ruleAt hin hr)), hr]
    rfl
  refine (Op.run_bind_ok hget).trans ?_
  rw [Op.run_bind, hnames]
  cases answer <;> rfl

/-- The words of a stored rule are its tree, written in order: each leaf that states a test is
told by words of its own, which begin with the name of its type, and any other leaf by none. If
the names cannot be found, there are no words. -/
theorem wording_in_order {s : String} {r : Rule} (hin : b.RulesInOrder w) (h : b.Indexed w)
    (hr : b.ruleAt w s = some r) :
    (b.Tellable w r.tree → ∃ piece marks,
      (render b.storage (.text s)).run w =
        (.ok ("Rule: " ++ r.name.plain ++ "\nDescription: " ++ r.description.plain ++
          "\nConditions: " ++ Mark.textOf piece marks), w) ∧
      Written r.tree.join r.tree.conditions marks ∧
      marks.filterMap Mark.leaf? = r.tree.leaves ∧
      ∀ l ∈ r.tree.leaves, (b.view.records w.store).Words l (piece l) ∧
        (l.IsStated → piece l ≠ "" ∧ ∃ name, (b.view.records w.store).TypeName l.typeId name ∧
          name.toList <+: (piece l).toList) ∧
        (¬l.IsStated → piece l = "")) ∧
    (¬b.Tellable w r.tree → ∃ fault,
      (render b.storage (.text s)).run w = (.error (.fault fault), w)) := by
  by_cases hask : b.CanAsk r.tree
  case neg =>
    exact ⟨fun htell => absurd htell.ask hask,
      fun _ => ⟨_, run_render hin hr (run_namesIn_of_not_ask h hask)⟩⟩
  obtain ⟨types, values, hnames, htypes, hvalues⟩ := run_namesIn_of_found h hask
  constructor
  · intro htell
    have hlabels : ∀ v ∈ values, ∃ label, v.value = .text label := by
      intro v hv
      obtain ⟨hrecord, id, hid, hsame⟩ := (hvalues v).mp hv
      exact htell.labels v hrecord ⟨id, mem_distinctSorted.mp hid, hsame⟩
    rw [mapM_labelOf hlabels] at hnames
    obtain ⟨marks, hwritten, htext⟩ :=
      exists_written (.found types values) r.tree.join r.tree.conditions
    refine ⟨Leaf.phrase (.found types values), marks, (run_render hin hr hnames).trans ?_, hwritten,
      hwritten.leaves, fun l hl => ?_⟩
    · rw [htext]
      rfl
    · have hwords := words_of_found htypes hvalues hl
      exact ⟨hwords, hwords.begin, hwords.eq_empty⟩
  · intro htell
    have hother : ∃ v ∈ values, ∀ label, v.value ≠ .text label := by
      by_contra hall
      push Not at hall
      refine htell ⟨hask, ?_⟩
      rintro v hv ⟨id, hid, hsame⟩
      exact hall v ((hvalues v).mpr ⟨hv, id, mem_distinctSorted.mpr hid, hsame⟩)
    rw [mapM_labelOf_of_other hother] at hnames
    exact ⟨_, run_render hin hr hnames⟩

/-! ## A condition that is left out -/

/-- Values in tables have texts for their types and labels. -/
theorem valueTexts_tables (t : Tables) : ∀ v ∈ (Tables.records t).observationValues.records,
    (∃ s, v.typeId = .text s) ∧ ∃ label, v.value = .text label := by
  intro v hv
  rw [Tables.records, Shelf.records_relabel] at hv
  obtain ⟨row, -, rfl⟩ := List.mem_map.mp hv
  exact ⟨⟨_, rfl⟩, _, rfl⟩

/-- The first leaf asks for nothing. -/
def vagueTree : Criteria :=
  ⟨.and, [.leaf { typeId := "a" }, .group .or
    [.leaf { typeId := "a", valueIds := some ["aa"] },
      .leaf { typeId := "a", value := .text "no" }]]⟩

def vagueDraft : RuleDraft where
  name := .text "Vague"
  description := .text "Something leaks."
  tree := vagueTree

/-- A store with a rule that leaves a condition open. -/
def vague : World Tables := ((Tables.storage.perform (.createRule vagueDraft)).run leaky).2

theorem visited_leaky : tables.Visited (fun _ _ c => c.NamesTexts) leaky :=
  .call _ _ trivial <| .call _ _ trivial <| .empty _ 0 letters letters_injective isWhole_letters

theorem rulesInOrder_vague : tables.RulesInOrder vague := by
  have hread : Criteria.read vagueTree.toValue = .ok vagueTree := by rfl
  have hstored := triple_createRule tables (d := vagueDraft) visited_leaky.wellKept.inOrder
    (visited_leaky.indexing.plain _) (Criteria.readable_of_read hread)
  exact (Op.Keeps.of_triple hstored (fun _ _ h => h.2.2.1) fun _ _ h => h.1).state

theorem indexed_vague : tables.Indexed vague := by
  have hkept := (visited_leaky.indexing.keeps (r := .createRule vagueDraft) trivial).state
  exact ⟨hkept.there, hkept.types.shelved, hkept.values.shelved,
    fun v hv => (valueTexts_tables vague.store v hv).1⟩

theorem ruleAt_vague : ∃ r, ruleAt tables vague "aaa" = some r ∧ r.name = .text "Vague" ∧
    r.description = .text "Something leaks." ∧ r.tree = vagueTree := by
  have hrule : ((ruleAt tables vague "aaa").any fun r => r.name = .text "Vague" ∧
      r.description = .text "Something leaks." ∧ r.tree = vagueTree) = true := by decide +kernel
  obtain ⟨r, hr, htold⟩ := (Option.any_eq_true _ _).mp hrule
  exact ⟨r, hr, of_decide_eq_true htold⟩

theorem tellable_vague : Tellable tables vague vagueTree where
  ask l hl := by
    have hall : vagueTree.leaves.all fun l =>
        Text.isWhole l.typeId && (l.valueIds.getD []).all Text.isWhole := by decide
    have hleaf := List.all_eq_true.mp hall l hl
    rw [Bool.and_eq_true, List.all_eq_true] at hleaf
    exact hleaf
  labels v hv _ := (valueTexts_tables vague.store v hv).2

theorem wording_vague : (tables.RulesInOrder vague ∧ tables.Indexed vague ∧
      Tellable tables vague vagueTree) ∧ ∃ piece marks,
    (render Tables.storage (.text "aaa")).run vague =
      (.ok ("Rule: Vague\nDescription: Something leaks.\nConditions: " ++
        Mark.textOf piece marks), vague) ∧
    Written .and vagueTree.conditions marks ∧ marks.filterMap Mark.leaf? = vagueTree.leaves := by
  obtain ⟨r, hr, hname, hdescription, htree⟩ := ruleAt_vague
  have htell : Tellable tables vague r.tree := htree ▸ tellable_vague
  obtain ⟨piece, marks, hrun, hwritten, hleaves, -⟩ :=
    (wording_in_order rulesInOrder_vague indexed_vague hr).1 htell
  refine ⟨⟨rulesInOrder_vague, indexed_vague, tellable_vague⟩, piece, marks, hrun.trans ?_, ?_, ?_⟩
  · rw [hname, hdescription]
    rfl
  · rwa [htree] at hwritten
  · rwa [htree] at hleaves

theorem namesIn_vague : (namesIn Tables.storage vagueTree).run vague =
    (.ok ⟨[("a", "leak")], [("aa", "burst")]⟩, vague) := by
  -- sorting does not reduce, so it is done before the rest is run
  have htypes : distinctSorted (vagueTree.leaves.map Leaf.typeId) = ["a"] := by
    rw [distinctSorted, List.mergeSort_of_pairwise (by decide)]
    rfl
  have hnames : ((namesIn Tables.storage vagueTree).run vague).1.map
      (fun names => (names.types, names.values)) = .ok ([("a", "leak")], [("aa", "burst")]) := by
    unfold namesIn
    simp only [htypes]
    decide +kernel
  obtain ⟨⟨types, values⟩, t, hrun, hsame⟩ := Op.exists_of_answer hnames
  have hquiet := Rules.quiet_namesIn tables.lawful.readsQuietly vagueTree vague
  obtain rfl : t = vague := (congrArg Prod.snd hrun).symm.trans hquiet
  obtain ⟨rfl, rfl⟩ := Prod.mk.inj hsame
  exact hrun

/-- Nothing is said of the open condition, although its type is in the catalog: there is no way
to read the words as the tree, with words for every leaf. -/
theorem unstated_left_out :
    (tables.view.records vague.store).TypeName "a" "leak" ∧
    ((render Tables.storage (.text "aaa")).run vague).1 =
      .ok ("Rule: Vague\nDescription: Something leaks.\nConditions: " ++
        " and (leak is burst or leak equals no)") ∧
    ¬∃ piece marks, Written .and vagueTree.conditions marks ∧
      Mark.textOf piece marks = " and (leak is burst or leak equals no)" ∧
      ∀ l ∈ vagueTree.leaves, "leak".toList <+: (piece l).toList := by
  refine ⟨.inl ?_, ?_, ?_⟩
  · have hnamed : ∃ t ∈ (Tables.records vague.store).observationTypes.records,
        t.id = .text "a" ∧ t.name.plain = "leak" := by decide +kernel
    exact hnamed
  · obtain ⟨r, hr, hname, hdescription, htree⟩ := ruleAt_vague
    have hrun := run_render rulesInOrder_vague hr (htree ▸ namesIn_vague)
    rw [hname, hdescription, htree] at hrun
    exact congrArg Prod.fst hrun
  · rintro ⟨piece, marks, hwritten, htext, hpieces⟩
    have hfirst := hpieces _ List.mem_cons_self
    cases hwritten with
    | members hleaf hrest =>
      cases hleaf
      rw [Mark.textOf_append, Mark.textOf_singleton] at htext
      have hbegins : "leak".toList <+: " and (leak is burst or leak equals no)".toList := by
        rw [← htext, String.toList_append]
        exact hfirst.trans (List.prefix_append _ _)
      exact absurd hbegins (by decide)

end Backing

end PropertyRisk
