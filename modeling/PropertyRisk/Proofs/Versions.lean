import PropertyRisk.Proofs.RuleWrites

/-!
# Versions of rules

`Backing.Served` has the states that requests lead to from an empty store, whoever makes
them, and counts the changes that were written to each rule. `Backing.Counted` is what
stays true in all of them: the version of a rule is one more than its changes.
-/

namespace PropertyRisk

open Op (Triple Keeps Quiet)

namespace Backing

variable {b : Backing} {w : World b.Store} {s : String} {r : Rule}

/-- The id under which a request has written a change to a rule, if it has. -/
def written? (b : Backing) : {α : Type} → Request α → Except Error α → Option String
  | _, .updateRule id _ _, .ok (some _) => (b.view.name .updateRule id).toOption.join
  | _, _, _ => none

theorem written?_of_not_change {r : Request α} (h : r.operation ≠ .updateRule)
    (answer : Except Error α) : b.written? r answer = none := by
  cases r <;> first
    | rfl
    | exact absurd rfl h

/-- The states that requests lead to from an empty store, with the number of changes
that have been written under each id. -/
inductive Served (b : Backing) : (String → Nat) → World b.Store → Prop
  | empty (clock : Time.Stamp) (issued : Nat) (idOf : Nat → String)
      (hinj : Function.Injective idOf) (hwhole : ∀ n, Text.isWhole (idOf n) = true) :
      Served b (fun _ => 0) ⟨b.empty, clock, issued, idOf⟩
  | tick {writes : String → Nat} {w : World b.Store} (clock : Time.Stamp) :
      Served b writes w → Served b writes { w with clock }
  | request {writes : String → Nat} {w : World b.Store} {α : Type} {r : Request α} :
      b.view.Parsed r → Served b writes w →
      Served b (fun s => writes s +
          if b.written? r ((b.storage.perform r).run w).1 = some s then 1 else 0)
        ((b.storage.perform r).run w).2

/-- Each rule is under an id that was issued, and its version is one more than the number
of changes under this id. -/
structure Counted (b : Backing) (writes : String → Nat) (w : World b.Store) : Prop where
  inOrder : b.RulesInOrder w
  injective : Function.Injective w.idOf
  plain : ∀ n, b.view.Plain (w.idOf n)
  issued : ∀ s r, b.ruleAt w s = some r → ∃ n ≤ w.issued, s = w.idOf n
  fresh : ∀ n, w.issued < n → writes (w.idOf n) = 0
  version : ∀ s r, b.ruleAt w s = some r → r.version = 1 + writes s

namespace Counted

variable {writes : String → Nat}

/-- Where no change has been written, rules may have gone. -/
theorem fewer (h : b.Counted writes w) {w' : World b.Store} (hf : w.Follows w')
    (horder : b.RulesInOrder w') (hrules : ∀ s r, b.ruleAt w' s = some r → b.ruleAt w s = some r) :
    b.Counted writes w' where
  inOrder := horder
  injective := hf.idOf ▸ h.injective
  plain := hf.idOf ▸ h.plain
  issued s r hr := by
    obtain ⟨n, hn, hs⟩ := h.issued s r (hrules s r hr)
    exact ⟨n, Nat.le_trans hn hf.issued, hf.idOf ▸ hs⟩
  fresh n hn := hf.idOf ▸ h.fresh n (Nat.lt_of_le_of_lt hf.issued hn)
  version s r hr := h.version s r (hrules s r hr)

theorem createRule (h : b.Counted writes w) {d : RuleDraft} (hd : b.view.Tree d.tree) :
    b.Counted writes ((b.storage.perform (.createRule d)).run w).2 := by
  refine Keeps.state (Keeps.of_triple (b.triple_createRule h.inOrder (h.plain _) hd) ?_ ?_)
  · rintro r w' ⟨hr, hissued, horder, hb⟩
    have hrules (s : String) (r' : Rule) (hr' : b.ruleAt w' s = some r') :
        s = w.idOf (w.issued + 1) ∧ r' = r ∨ b.ruleAt w s = some r' := by
      rw [ruleAt_eq hb, Shelf.get?_put] at hr'
      split at hr'
      · rename_i hs
        cases hr'
        exact .inl ⟨Key.text.inj hs, rfl⟩
      · exact .inr hr'
    refine ⟨horder, hb.follows.idOf ▸ h.injective, hb.follows.idOf ▸ h.plain, fun s r' hr' => ?_,
      fun n hn => ?_, fun s r' hr' => ?_⟩
    · rw [hb.follows.idOf]
      rcases hrules s r' hr' with ⟨hs, -⟩ | hold
      · exact ⟨_, Nat.le_of_eq hissued.symm, hs⟩
      · obtain ⟨n, hn, hs⟩ := h.issued s r' hold
        exact ⟨n, Nat.le_trans hn hb.follows.issued, hs⟩
    · rw [hb.follows.idOf]
      exact h.fresh n (Nat.lt_of_le_of_lt hb.follows.issued hn)
    · rcases hrules s r' hr' with ⟨rfl, rfl⟩ | hold
      · rw [hr, h.fresh _ (Nat.lt_succ_self _)]
        rfl
      · exact h.version s r' hold
  · rintro e w' ⟨horder, hb⟩
    exact h.fewer hb.1 horder fun s r hr => (ruleAt_of_beside hb s).symm.trans hr

theorem deleteRule (h : b.Counted writes w) (id : Value) :
    b.Counted writes ((b.storage.perform (.deleteRule id)).run w).2 := by
  obtain ⟨w', hrun, horder, hb⟩ := b.run_eraseRule h.inOrder id
  rw [hrun]
  refine h.fewer hb.follows horder fun s r hr => ?_
  rw [ruleAt_eq hb] at hr
  unfold View.drop at hr
  split at hr
  · rw [Shelf.get?_erase] at hr
    split at hr
    · cases hr
    · exact hr
  · exact hr

theorem updateRule (h : b.Counted writes w) (id : Value) {change : RuleChange}
    (hc : change.IsRead) (expected : Option Value) :
    b.Counted (fun s => writes s + if b.written? (.updateRule id change expected)
        ((b.storage.perform (.updateRule id change expected)).run w).1 = some s then 1 else 0)
      ((b.storage.perform (.updateRule id change expected)).run w).2 := by
  by_cases hfound : ∃ r, b.view.look .updateRule id (b.view.records w.store).rules = .ok (some r)
  case neg =>
    obtain ⟨answer, hrun, hno⟩ := b.run_writeRule_of_absent change expected
      h.inOrder fun r hr => hfound ⟨r, hr⟩
    have hwritten : b.written? (.updateRule id change expected) answer = none := by
      rcases answer with _ | _ | r'
      · rfl
      · rfl
      · exact absurd rfl (hno r')
    simpa [hrun, hwritten] using h
  obtain ⟨r, hlook⟩ := hfound
  obtain ⟨s, hn, hr⟩ := View.look_eq_some.mp hlook
  obtain ⟨w', hrun, horder, hb⟩ := b.run_writeRule change expected h.inOrder hc hn hr
  rw [hrun]
  rcases hrevised : b.revised change expected w.clock.text r with e | _ | r' <;> rw [hrevised] at hb
  · simpa [written?] using h.fewer hb.follows horder fun t x hx => (ruleAt_eq hb t).symm.trans hx
  · simpa [written?] using h.fewer hb.follows horder fun t x hx => (ruleAt_eq hb t).symm.trans hx
  -- the changed rule is one version on, and so is its count
  have hwritten : b.written? (.updateRule id change expected) (.ok (some r')) = some s := by
    simp [written?, hn, Except.toOption]
  have hrules (t : String) (x : Rule) (hx : b.ruleAt w' t = some x) :
      t = s ∧ x = r' ∨ t ≠ s ∧ b.ruleAt w t = some x := by
    rw [ruleAt_eq hb, Shelf.get?_put] at hx
    split at hx
    · rename_i ht
      cases hx
      exact .inl ⟨Key.text.inj ht, rfl⟩
    · rename_i ht
      exact .inr ⟨fun he => ht (congrArg Key.text he), hx⟩
  simp only [hwritten, Option.some.injEq]
  refine ⟨horder, hb.follows.idOf ▸ h.injective, hb.follows.idOf ▸ h.plain, fun t x hx => ?_,
    fun n hnew => ?_, fun t x hx => ?_⟩
  · rw [hb.follows.idOf]
    rcases hrules t x hx with ⟨rfl, -⟩ | ⟨-, hold⟩
    · obtain ⟨n, hn, ht⟩ := h.issued t r hr
      exact ⟨n, Nat.le_trans hn hb.follows.issued, ht⟩
    · obtain ⟨n, hn, ht⟩ := h.issued t x hold
      exact ⟨n, Nat.le_trans hn hb.follows.issued, ht⟩
  · rw [hb.follows.idOf]
    obtain ⟨k, hk, hs⟩ := h.issued s r hr
    have hnew : w.issued < n := Nat.lt_of_le_of_lt hb.follows.issued hnew
    have hne : s ≠ w.idOf n := by
      intro he
      have := h.injective (hs.symm.trans he)
      omega
    rw [h.fresh n hnew, if_neg hne]
  · rcases hrules t x hx with ⟨rfl, rfl⟩ | ⟨hne, hold⟩
    · obtain ⟨tree, kept, -, -, rfl, -⟩ := revised_eq_some hrevised
      have hversion := h.version t r hr
      simp only [Rule.changed, if_true]
      omega
    · rw [if_neg fun he => hne he.symm, Nat.add_zero]
      exact h.version t x hold

/-- What one request keeps. -/
theorem request (h : b.Counted writes w) {α : Type} {r : Request α} (hr : b.view.Parsed r) :
    b.Counted (fun s => writes s +
        if b.written? r ((b.storage.perform r).run w).1 = some s then 1 else 0)
      ((b.storage.perform r).run w).2 := by
  by_cases hchange : r.operation = .updateRule
  · cases r with
    | updateRule id change expected => exact h.updateRule id hr expected
    | _ => cases hchange
  simp only [written?_of_not_change hchange, reduceCtorEq, if_false, Nat.add_zero]
  cases hwrites : r.writesRules with
  | true =>
    cases r with
    | createRule d => exact h.createRule hr
    | updateRule => exact absurd rfl hchange
    | deleteRule id => exact h.deleteRule id
    | _ => cases hwrites
  | false =>
    refine Keeps.state (Keeps.of_triple (b.keeps_rules h.inOrder hwrites) ?_ ?_) <;>
      exact fun _ w' ht => h.fewer ht.2.1 ht.1 fun s r hr' => (ruleAt_of_beside ht.2 s).symm.trans hr'

end Counted

theorem Served.counted {writes : String → Nat} (h : b.Served writes w) : b.Counted writes w := by
  induction h with
  | empty clock issued idOf hinj hwhole =>
    have hrules : (b.view.records b.empty).rules = [] := congrArg Memory.rules b.records_empty
    have hnone (s : String) (r : Rule) : b.ruleAt ⟨b.empty, clock, issued, idOf⟩ s ≠ some r := by
      simp [ruleAt, hrules]
    exact ⟨b.rulesInOrder_empty clock issued idOf, hinj, fun n => b.plain_of_isWhole (hwhole n),
      fun s r hr => absurd hr (hnone s r), fun _ _ => rfl, fun s r hr => absurd hr (hnone s r)⟩
  | tick clock _ ih =>
    exact ⟨b.rulesInOrder_tick ih.inOrder clock, ih.injective, ih.plain, ih.issued, ih.fresh, ih.version⟩
  | request hr _ ih => exact ih.request hr

end Backing

end PropertyRisk
