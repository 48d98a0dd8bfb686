import PropertyRisk.Proofs.Peers
import PropertyRisk.Proofs.SoundCalls

/-!
# Charted worlds

In a charted world the ids of all rules that were ever created are known, in the
order of creation, so that the world has a ledger. What the calls of a run write
keeps a world charted and makes one entry in its ledger.
-/

namespace PropertyRisk

open Engine
open Engine.Assessments

/-! ## The ledger of some records -/

namespace Memory

/-- Whether a vulnerability was found by the rule with an id, on an assessment. -/
structure Finds (m : Memory) (s : String) (k : Nat) (x : Vulnerability) : Prop where
  stored : x ∈ m.vulnerabilities.records
  ruleId : x.ruleId = .text s
  assessmentId : ∃ a, m.assessments.records[k]? = some a ∧ x.assessmentId = a.id

/-- The ledger of some records, where `ids` has the ids of the rules. -/
def ledger (m : Memory) (ids : List String) : Ledger where
  rules := ids.map fun s => (m.rules.get? (.text s)).map Rule.unnamed
  assessments := m.assessments.records.map Assessment.unnamed
  found n k := ∃ s x, ids[n]? = some s ∧ m.Finds s k x

variable {m : Memory} {ids : List String} {n k : Nat} {s : String}

theorem ledger_rule (hs : ids[n]? = some s) :
    (m.ledger ids).rules[n]? = some ((m.rules.get? (.text s)).map Rule.unnamed) := by
  simp [ledger, hs]

theorem ledger_rule_eq_some {r : Rule} : (m.ledger ids).rules[n]? = some (some r) ↔
    ∃ s r', ids[n]? = some s ∧ m.rules.get? (.text s) = some r' ∧ r'.unnamed = r := by
  simp [ledger]

theorem ledger_assessment {a : Assessment} : (m.ledger ids).assessments[k]? = some a ↔
    ∃ a', m.assessments.records[k]? = some a' ∧ a'.unnamed = a := by
  simp [ledger]

theorem known_ledger (m : Memory) (ids : List String) : (m.ledger ids).Known := by
  rintro n k ⟨s, x, -, hx⟩
  obtain ⟨a, ha, -⟩ := hx.assessmentId
  simpa [ledger] using (List.getElem?_eq_some_iff.mp ha).1

theorem ledger_put_new {r : Rule} (hnew : ¬m.Uses s) (hs : s ∉ ids) (dedupe : Bool) :
    ({ m with rules := m.rules.put (.text s) r } : Memory).ledger (ids ++ [s]) =
      (m.ledger ids).enter dedupe (.created r.unnamed) := by
  refine Ledger.ext ?_ rfl ?_
  · have hold : ∀ t ∈ ids, ((m.rules.put (.text s) r).get? (.text t)).map Rule.unnamed =
        (m.rules.get? (.text t)).map Rule.unnamed := by
      intro t ht
      have hne : Key.text t ≠ .text s := fun he => hs (Key.text.inj he ▸ ht)
      rw [Shelf.get?_put, if_neg hne]
    show List.map _ (ids ++ [s]) = List.map _ ids ++ [some r.unnamed]
    rw [List.map_append, List.map_congr_left hold, List.map_singleton, Shelf.get?_put, if_pos rfl,
      Option.map_some]
  · funext n k
    refine propext ⟨?_, ?_⟩
    · rintro ⟨t, x, ht, hx⟩
      refine ⟨t, x, ?_, hx.stored, hx.ruleId, hx.assessmentId⟩
      rcases Nat.lt_or_ge n ids.length with hn | hn
      · rwa [List.getElem?_append_left hn] at ht
      · rw [List.getElem?_append_right hn] at ht
        cases List.mem_singleton.mp (List.mem_of_getElem? ht)
        exact absurd (.inr (.inr (.inr ⟨x, hx.stored, hx.ruleId⟩))) hnew
    · rintro ⟨t, x, ht, hx⟩
      have hn := (List.getElem?_eq_some_iff.mp ht).1
      exact ⟨t, x, (List.getElem?_append_left hn).trans ht, hx.stored, hx.ruleId, hx.assessmentId⟩

/-- What changes at one of several different places. -/
theorem map_eq_set {ids : List String} (hnd : ids.Nodup) (hs : ids[n]? = some s)
    {f g : String → α} {y : α} (hself : g s = y) (hother : ∀ t, t ≠ s → g t = f t) :
    ids.map g = (ids.map f).set n y := by
  refine List.ext_getElem? fun i => ?_
  rw [List.getElem?_map, List.getElem?_set, List.length_map]
  by_cases hi : n = i
  · subst hi
    rw [if_pos rfl, if_pos (List.getElem?_eq_some_iff.mp hs).1, hs]
    exact congrArg some hself
  · rw [if_neg hi, List.getElem?_map]
    cases ht : ids[i]? with
    | none => rfl
    | some t =>
      refine congrArg some (hother t fun he => hi ?_)
      exact (List.getElem?_inj (List.getElem?_eq_some_iff.mp hs).1 hnd).mp (hs.trans (he ▸ ht.symm))

theorem ledger_erase (hnd : ids.Nodup) (hs : ids[n]? = some s) (dedupe : Bool) :
    ({ m with rules := m.rules.erase (.text s) } : Memory).ledger ids =
      (m.ledger ids).enter dedupe (.deleted n) := by
  refine Ledger.ext (map_eq_set hnd hs ?_ fun t ht => ?_) rfl ?_
  · simp [Shelf.get?_erase]
  · simp [Shelf.get?_erase, ht]
  · funext i k
    refine propext ⟨?_, ?_⟩
    all_goals
      rintro ⟨t, x, ht, hx⟩
      exact ⟨t, x, ht, hx.stored, hx.ruleId, hx.assessmentId⟩

/-- A rule is put in the place of another one, and of what that one had found
nothing is left that the tree refutes. -/
theorem ledger_revise {gone : Vulnerability → Bool} {tree : Criteria} {r : Rule}
    {rules : Shelf Key Rule} (hnd : ids.Nodup) (hs : ids[n]? = some s)
    (hself : rules.get? (.text s) = some r)
    (hother : ∀ t, t ≠ s → rules.get? (.text t) = m.rules.get? (.text t))
    (hgone : ∀ x a k, m.Finds s k x → m.assessments.records[k]? = some a →
      (gone x = true ↔ tree.refutes a.observations = true))
    (hspared : ∀ x, x.ruleId ≠ .text s → gone x = false) (dedupe : Bool) :
    ({ m.dropping gone with rules } : Memory).ledger ids =
      (m.ledger ids).enter dedupe (.revised n r.unnamed tree) := by
  refine Ledger.ext (map_eq_set hnd hs ?_ fun t ht => ?_) rfl ?_
  · exact congrArg (Option.map Rule.unnamed) hself
  · exact congrArg (Option.map Rule.unnamed) (hother t ht)
  · funext i k
    refine propext ⟨?_, ?_⟩
    · rintro ⟨t, x, ht, hx⟩
      obtain ⟨hstored, hkept⟩ := mem_dropping.mp hx.stored
      have hfinds : m.Finds t k x := ⟨hstored, hx.ruleId, hx.assessmentId⟩
      refine ⟨⟨t, x, ht, hfinds⟩, ?_⟩
      rintro rfl a ha
      obtain ⟨c, hc, rfl⟩ := ledger_assessment.mp ha
      cases Option.some.inj (ht.symm.trans hs)
      cases hrefutes : tree.refutes c.observations with
      | false => exact hrefutes
      | true => simp [(hgone x c k hfinds hc).mpr hrefutes] at hkept
    · rintro ⟨⟨t, x, ht, hx⟩, hkept⟩
      refine ⟨t, x, ht, mem_dropping.mpr ⟨hx.stored, ?_⟩, hx.ruleId, hx.assessmentId⟩
      by_cases hts : t = s
      · subst hts
        have hn : i = n :=
          (List.getElem?_inj (List.getElem?_eq_some_iff.mp ht).1 hnd).mp (ht.trans hs.symm)
        obtain ⟨a, ha, -⟩ := hx.assessmentId
        have hrefutes : tree.refutes a.observations = false :=
          hkept hn a.unnamed (ledger_assessment.mpr ⟨a, ha, rfl⟩)
        exact Bool.eq_false_iff.mpr fun hg => by simp [(hgone x a k hx ha).mp hg] at hrefutes
      · exact hspared x fun he => hts (Value.text.inj (hx.ruleId.symm.trans he))

theorem ledger_record {a : Assessment} (hnew : m.assessments.get? (.text s) = none)
    (hids : ∀ x ∈ m.vulnerabilities.records, ∃ t c, x.assessmentId = .text t ∧
      m.assessments.get? (.text t) = some c)
    (hid : a.id = .text s) (dedupe : Bool) :
    ({ m with assessments := m.assessments.put (.text s) a } : Memory).ledger ids =
      (m.ledger ids).enter dedupe (.recorded a.unnamed) := by
  have hrecords := Shelf.records_put_of_new (a := a) hnew
  refine Ledger.ext rfl ?_ ?_
  · simp only [ledger, hrecords, List.map_append, List.map_singleton, Ledger.enter]
  · funext i k
    refine propext ⟨?_, ?_⟩
    · rintro ⟨t, x, ht, hx⟩
      refine ⟨t, x, ht, hx.stored, hx.ruleId, ?_⟩
      obtain ⟨c, hc, hxc⟩ := hx.assessmentId
      simp only [hrecords] at hc
      rcases Nat.lt_or_ge k m.assessments.records.length with hk | hk
      · exact ⟨c, by rwa [List.getElem?_append_left hk] at hc, hxc⟩
      · -- nothing was found on an assessment that was not there yet
        rw [List.getElem?_append_right hk] at hc
        cases List.mem_singleton.mp (List.mem_of_getElem? hc)
        obtain ⟨i, c, hi, hget⟩ := hids x hx.stored
        cases Value.text.inj (hi.symm.trans (hxc.trans hid))
        simp [hnew] at hget
    · rintro ⟨t, x, ht, hx⟩
      refine ⟨t, x, ht, hx.stored, hx.ruleId, ?_⟩
      obtain ⟨c, hc, hxc⟩ := hx.assessmentId
      refine ⟨c, ?_, hxc⟩
      show (m.assessments.put (.text s) a).records[k]? = some c
      rw [hrecords, List.getElem?_append_left (List.getElem?_eq_some_iff.mp hc).1, hc]

end Memory

/-! ## Charted worlds -/

namespace View

variable {S : Type}

/-- A sound world in which no status was ever set by hand, where `ids` has the ids of
all rules that were created. -/
structure Charted (v : View S) (ids : List String) (w : World S) : Prop extends v.Sound [] w where
  windows : ∀ r ∈ (v.records w.store).rules.records, r.window.Readable
  nodup : ids.Nodup
  issued : ∀ s ∈ ids, ∃ n ≤ w.issued, s = w.idOf n
  used : ∀ s, (v.records w.store).Uses s → ∃ n, s = w.idOf n
  listed : ∀ s, Key.text s ∈ (v.records w.store).rules.keys → s ∈ ids
  opened : ∀ x ∈ (v.records w.store).vulnerabilities.records, x.status = .text Status.opened.name

/-- A charted world that another one has come to: the catalogs are the same, and no
assessment is missing. -/
structure Moves (v : View S) (w : World S) (ids : List String) (w' : World S) : Prop where
  charted : v.Charted ids w'
  clock : w'.clock = w.clock
  idOf : w'.idOf = w.idOf
  types : (v.records w'.store).observationTypes = (v.records w.store).observationTypes
  values : (v.records w'.store).observationValues = (v.records w.store).observationValues
  assessments : (v.records w.store).assessments.records <+: (v.records w'.store).assessments.records

/-- A move that makes entries in the ledger. -/
structure Enters (v : View S) (dedupe : Bool) (ids : List String) (w : World S)
    (es : List Ledger.Entry) (ids' : List String) (w' : World S) : Prop
    extends v.Moves w ids' w' where
  named : ids <+: ids'
  ledger : (v.records w'.store).ledger ids' =
    es.foldl (Ledger.enter dedupe) ((v.records w.store).ledger ids)

variable {v : View S} {ids : List String} {w w' : World S} {n k : Nat} {s : String}
  {x : Vulnerability} {a : Assessment} {r : Rule} {dedupe : Bool}

theorem Enters.trans {ids' ids'' : List String} {u : World S} {es es' : List Ledger.Entry}
    (h : v.Enters dedupe ids w es ids' w') (h' : v.Enters dedupe ids' w' es' ids'' u) :
    v.Enters dedupe ids w (es ++ es') ids'' u where
  charted := h'.charted
  clock := h'.clock.trans h.clock
  idOf := h'.idOf.trans h.idOf
  types := h'.types.trans h.types
  values := h'.values.trans h.values
  assessments := h.assessments.trans h'.assessments
  named := h.named.trans h'.named
  ledger := by rw [h'.ledger, h.ledger, List.foldl_append]

namespace Charted

/-- Where nothing is done, nothing is entered. -/
theorem rests (h : v.Charted ids w) (dedupe : Bool) : v.Enters dedupe ids w [] ids w :=
  ⟨⟨h, rfl, rfl, rfl, rfl, List.prefix_rfl⟩, List.prefix_rfl, rfl⟩

/-- The next id is that of no rule. -/
theorem next_not_mem (h : v.Charted ids w) : w.idOf (w.issued + 1) ∉ ids := by
  intro hm
  obtain ⟨n, hn, he⟩ := h.issued _ hm
  have := h.supplied.injective he
  omega

theorem position (h : v.Charted ids w) {j : Nat} {c : Assessment}
    (ha : (v.records w.store).assessments.records[k]? = some a)
    (hc : (v.records w.store).assessments.records[j]? = some c) (hid : c.id = a.id) :
    j = k ∧ c = a := by
  have hmap (i : Nat) (b : Assessment) (hb : (v.records w.store).assessments.records[i]? = some b) :
      ((v.records w.store).assessments.records.map Assessment.id)[i]? = some b.id := by
    rw [List.getElem?_map, hb, Option.map_some]
  have hjk : j = k := (List.getElem?_inj (List.getElem?_eq_some_iff.mp (hmap j c hc)).1
    h.ready.kept.assessments.nodup_ids).mp ((hmap j c hc).trans (hid ▸ (hmap k a ha).symm))
  subst hjk
  exact ⟨rfl, Option.some.inj (hc.symm.trans ha)⟩

/-- Where a vulnerability was found on an assessment, both are of one property. -/
theorem property (h : v.Charted ids w) (hx : (v.records w.store).Finds s k x)
    (ha : (v.records w.store).assessments.records[k]? = some a) :
    x.assessmentId = a.id ∧ a.propertyId = x.propertyId := by
  obtain ⟨c, hc, hid⟩ := hx.assessmentId
  cases Option.some.inj (hc.symm.trans ha)
  refine ⟨hid, ?_⟩
  obtain ⟨i, b, hi, hb, hp, -⟩ := h.grounds x hx.stored
  have hbi := (h.ready.kept.assessments.id_of_get? hb).2
  have hbc := h.ready.kept.assessments.eq_of_id (Shelf.mem_records_of_get? hb)
    (List.mem_of_getElem? hc) (hbi.trans (hi.symm.trans hid))
  exact hbc ▸ hp

theorem finds_of_mem (h : v.Charted ids w) (hx : x ∈ (v.records w.store).vulnerabilities.records)
    (hs : x.ruleId = .text s) :
    ∃ k a, (v.records w.store).Finds s k x ∧
      (v.records w.store).assessments.records[k]? = some a ∧ a.propertyId = x.propertyId := by
  obtain ⟨i, a, hi, ha, hp, -⟩ := h.grounds x hx
  obtain ⟨k, hk⟩ := List.getElem?_of_mem (Shelf.mem_records_of_get? ha)
  have hid := (h.ready.kept.assessments.id_of_get? ha).2
  exact ⟨k, a, ⟨hx, hs, a, hk, hi.trans hid.symm⟩, hk, hp⟩

/-- What is pending for a rule is what its ledger says. -/
theorem isPending_iff (h : v.Charted ids w) (hs : ids[n]? = some s) (hr : r.id = .text s)
    (p : Value) : isPending (v.records w.store).vulnerabilities.records p r = true ↔
      ((v.records w.store).ledger ids).Pending n p := by
  rw [isPending, List.any_eq_true]
  constructor
  · rintro ⟨x, hx, hq⟩
    simp only [Bool.and_eq_true, decide_eq_true_eq] at hq
    obtain ⟨k, a, hfinds, ha, hp⟩ := h.finds_of_mem hx (hq.1.1.trans hr)
    refine ⟨k, a.unnamed, ⟨s, x, hs, hfinds⟩, Memory.ledger_assessment.mpr ⟨a, ha, rfl⟩, ?_⟩
    show a.propertyId.equal p = true
    rw [hp]
    exact hq.1.2
  · rintro ⟨k, _, ⟨t, x, ht, hx⟩, ha, hp⟩
    obtain ⟨a, hget, rfl⟩ := Memory.ledger_assessment.mp ha
    cases Option.some.inj (ht.symm.trans hs)
    have hprop : x.propertyId.equal p = true := (h.property hx hget).2 ▸ hp
    refine ⟨x, hx.stored, ?_⟩
    simp [hx.ruleId, hr, hprop, h.opened x hx.stored]

/-! ### What is written -/

/-- What is to be shown of the records that a world has come to hold. -/
theorem moves_of_becomes (h : v.Charted ids w) {m : Memory} (hb : v.Becomes w m w')
    (hsound : v.Sound [] w') (hwindows : ∀ r ∈ m.rules.records, r.window.Readable)
    (hused : ∀ s, m.Uses s → (v.records w.store).Uses s ∨ ∃ n, s = w.idOf n)
    (hlisted : ∀ k ∈ m.rules.keys, k ∈ (v.records w.store).rules.keys)
    (hopened : ∀ x ∈ m.vulnerabilities.records, x.status = .text Status.opened.name)
    (htypes : m.observationTypes = (v.records w.store).observationTypes)
    (hvalues : m.observationValues = (v.records w.store).observationValues)
    (hassessments : (v.records w.store).assessments.records <+: m.assessments.records) :
    v.Moves w ids w' where
  charted.toSound := hsound
  charted.windows := hb.records ▸ hwindows
  charted.nodup := h.nodup
  charted.issued s hs := by
    obtain ⟨n, hn, he⟩ := h.issued s hs
    exact ⟨n, Nat.le_trans hn hb.issued, hb.idOf ▸ he⟩
  charted.used s hs := by
    rw [hb.records] at hs
    rw [hb.idOf]
    exact (hused s hs).elim (h.used s) fun hn => hn
  charted.listed s hs := by
    rw [hb.records] at hs
    exact h.listed s (hlisted _ hs)
  charted.opened := hb.records ▸ hopened
  clock := hb.clock
  idOf := hb.idOf
  types := hb.records ▸ htypes
  values := hb.records ▸ hvalues
  assessments := hb.records ▸ hassessments

theorem rests_of_becomes (h : v.Charted ids w) (dedupe : Bool)
    (hb : v.Becomes w (v.records w.store) w') : v.Enters dedupe ids w [] ids w' where
  toMoves := h.moves_of_becomes hb (h.congr rfl rfl rfl hb) h.windows (fun _ => .inl)
    (fun _ hk => hk) h.opened rfl rfl List.prefix_rfl
  named := List.prefix_rfl
  ledger := hb.records ▸ rfl

theorem put_rule (h : v.Charted ids w) (dedupe : Bool)
    (hid : r.id = .text (w.idOf (w.issued + 1))) (hr : r.window.Readable)
    (hi : w'.issued = w.issued + 1)
    (hb : v.Becomes w { v.records w.store with
      rules := (v.records w.store).rules.put (.text (w.idOf (w.issued + 1))) r } w') :
    v.Enters dedupe ids w [.created r.unnamed] (ids ++ [w.idOf (w.issued + 1)]) w' where
  charted.toSound := by
    refine h.toSound.put_rule (h.supplied.plain _) hid (.inr ⟨_, Nat.le_of_eq hi.symm, rfl⟩) ?_ hb
    -- nothing can have been found under an id that is issued only now
    exact fun x hx hxr => absurd (.inr (.inr (.inr ⟨x, hx, hxr⟩)))
      (h.supplied.unused _ (Nat.lt_succ_self _))
  charted.windows q hq := by
    rw [hb.records] at hq
    exact (Shelf.mem_records_put hq).elim (fun he => he ▸ hr) (h.windows q)
  charted.nodup := h.nodup.append (List.nodup_singleton _)
    (List.disjoint_singleton.mpr h.next_not_mem)
  charted.issued s hs := by
    rw [hb.idOf]
    rcases List.mem_append.mp hs with hs | hs
    · obtain ⟨n, hn, he⟩ := h.issued s hs
      exact ⟨n, by omega, he⟩
    · exact ⟨w.issued + 1, Nat.le_of_eq hi.symm, List.mem_singleton.mp hs⟩
  charted.used s hs := by
    rw [hb.records] at hs
    rw [hb.idOf]
    rcases hs with hs | hs
    · rcases Shelf.mem_keys_put.mp hs with hk | hs
      · exact ⟨_, Key.text.inj hk⟩
      · exact h.used s (.inl hs)
    · exact h.used s (.inr hs)
  charted.listed s hs := by
    rw [hb.records] at hs
    rcases Shelf.mem_keys_put.mp hs with hk | hs
    · exact List.mem_append_right _ (List.mem_singleton.mpr (Key.text.inj hk))
    · exact List.mem_append_left _ (h.listed s hs)
  charted.opened := hb.records ▸ h.opened
  clock := hb.clock
  idOf := hb.idOf
  types := hb.records ▸ rfl
  values := hb.records ▸ rfl
  assessments := hb.records ▸ List.prefix_rfl
  named := List.prefix_append _ _
  ledger := by
    rw [hb.records]
    exact Memory.ledger_put_new (h.supplied.unused _ (Nat.lt_succ_self _)) h.next_not_mem dedupe

theorem drop_rule (h : v.Charted ids w) (dedupe : Bool) {id : Value} (hs : ids[n]? = some s)
    (hn : v.name .deleteRule id = .ok (some s))
    (hb : v.Becomes w { v.records w.store with
      rules := v.drop .deleteRule id (v.records w.store).rules } w') :
    v.Enters dedupe ids w [.deleted n] ids w' where
  toMoves := by
    have hfewer (k : Key) (hk : k ∈ (v.drop .deleteRule id (v.records w.store).rules).keys) :
        k ∈ (v.records w.store).rules.keys := by
      obtain ⟨p, hp, he⟩ := List.mem_map.mp hk
      exact List.mem_map.mpr ⟨p, mem_of_mem_drop hp, he⟩
    exact h.moves_of_becomes hb (h.toSound.drop_rule id hb)
      (fun q hq => h.windows q (mem_records_of_drop hq))
      (fun t ht => .inl (ht.imp_left (hfewer _))) hfewer h.opened rfl rfl List.prefix_rfl
  named := List.prefix_rfl
  ledger := by
    rw [hb.records, drop_of_name hn]
    exact Memory.ledger_erase h.nodup hs dedupe

theorem put_assessment (h : v.Charted ids w) (dedupe : Bool)
    (hid : a.id = .text (w.idOf (w.issued + 1))) (ha : v.Settled a.propertyId)
    (hi : w'.issued = w.issued + 1)
    (hb : v.Becomes w { v.records w.store with
      assessments := (v.records w.store).assessments.put (.text (w.idOf (w.issued + 1))) a } w') :
    v.Enters dedupe ids w [.recorded a.unnamed] ids w' := by
  have hnew : (v.records w.store).assessments.get? (.text (w.idOf (w.issued + 1))) = none :=
    Shelf.get?_eq_none_iff.mpr fun hm =>
      h.supplied.unused _ (Nat.lt_succ_self _) (.inr (.inr (.inl hm)))
  refine ⟨h.moves_of_becomes hb ((h.toSound.put_assessment hid ha hi hb).mono (List.nil_subset _))
    h.windows (fun s hs => ?_) (fun _ hk => hk) h.opened rfl rfl ?_, List.prefix_rfl, ?_⟩
  · rcases hs with hs | hs | hs | hs
    · exact .inl (.inl hs)
    · exact .inl (.inr (.inl hs))
    · rcases Shelf.mem_keys_put.mp hs with hk | hs
      · exact .inr ⟨_, Key.text.inj hk⟩
      · exact .inl (.inr (.inr (.inl hs)))
    · exact .inl (.inr (.inr (.inr hs)))
  · exact Shelf.records_put_of_new hnew ▸ List.prefix_append _ _
  · rw [hb.records]
    refine Memory.ledger_record hnew (fun x hx => ?_) hid dedupe
    obtain ⟨i, c, hi, hc, -⟩ := h.grounds x hx
    exact ⟨i, c, hi, hc⟩

/-- A rule is written or left as it is, and some of what it has found is removed. -/
theorem revise (h : v.Charted ids w) (dedupe : Bool) (hs : ids[n]? = some s)
    (hkey : Key.text s ∈ (v.records w.store).rules.keys) (hr : r.window.Readable)
    {rules : Shelf Key Rule} (hrules : rules = (v.records w.store).rules.put (.text s) r ∨
      rules = (v.records w.store).rules ∧ rules.get? (.text s) = some r)
    {gone : Vulnerability → Bool} {tree : Criteria}
    (hgone : ∀ x a k, (v.records w.store).Finds s k x →
      (v.records w.store).assessments.records[k]? = some a →
        (gone x = true ↔ tree.refutes a.observations = true))
    (hspared : ∀ x, x.ruleId ≠ .text s → gone x = false) (hsound : v.Sound [] w')
    (hb : v.Becomes w { (v.records w.store).dropping gone with rules } w') :
    v.Enters dedupe ids w [.revised n r.unnamed tree] ids w' := by
  have hget (t : String) : rules.get? (.text t) =
      if t = s then some r else (v.records w.store).rules.get? (.text t) := by
    rcases hrules with rfl | ⟨rfl, hself⟩
    · simp [Shelf.get?_put]
    · split
      · rename_i hts
        exact hts ▸ hself
      · rfl
  have hkeys : ∀ k ∈ rules.keys, k ∈ (v.records w.store).rules.keys := by
    rcases hrules with rfl | ⟨rfl, -⟩
    · intro k hk
      exact (Shelf.mem_keys_put.mp hk).elim (fun he => he ▸ hkey) id
    · exact fun _ hk => hk
  have hreadable : ∀ q ∈ rules.records, q.window.Readable := by
    rcases hrules with rfl | ⟨rfl, -⟩
    · exact fun q hq => (Shelf.mem_records_put hq).elim (fun he => he ▸ hr) (h.windows q)
    · exact h.windows
  refine ⟨h.moves_of_becomes hb hsound hreadable (fun t ht => .inl ?_) hkeys
    (fun x hx => h.opened x (Memory.mem_dropping.mp hx).1) rfl rfl List.prefix_rfl,
    List.prefix_rfl, ?_⟩
  · rcases ht with ht | ht | ht | ⟨x, hx, ht⟩
    · exact .inl (hkeys _ ht)
    · obtain ⟨p, hp, hk⟩ := List.mem_map.mp ht
      exact .inr (.inl (List.mem_map.mpr ⟨p, (List.mem_filter.mp hp).1, hk⟩))
    · exact .inr (.inr (.inl ht))
    · exact .inr (.inr (.inr ⟨x, (Memory.mem_dropping.mp hx).1, ht⟩))
  · rw [hb.records]
    exact Memory.ledger_revise h.nodup hs (by simp [hget]) (fun t ht => by simp [hget, ht]) hgone
      hspared dedupe

end Charted

end View

end PropertyRisk
