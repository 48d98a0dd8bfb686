import PropertyRisk.Proofs.Fates
import PropertyRisk.Proofs.Reconciled

/-!
# Ledgers

A ledger has the rules and assessments of a store in the order in which they were
created, without their ids, and says which rule has found something on which
assessment. What calls enter in a ledger depends on whether duplicates are
avoided, so two ledgers of the same entries may come apart.

`Below.enter`: the ledger in which duplicates are avoided has nothing that the
other one lacks. `Level.enter`: it has as much on every property, as long as no
change of a rule removes part of what the rule has found on one.
-/

namespace PropertyRisk

open Engine.Assessments

def Rule.unnamed (r : Rule) : Rule := { r with id := .null }

def Assessment.unnamed (a : Assessment) : Assessment := { a with id := .null }

/-- The same value, as one in a set is: itself or an equal one. -/
def Value.Matches (x y : Value) : Prop := x = y ∨ x.equal y = true

/-- Rules that were deleted are `none`. -/
@[ext]
structure Ledger where
  rules : List (Option Rule)
  assessments : List Assessment
  found : Nat → Nat → Prop

namespace Ledger

/-- What a call does to a ledger; rules and assessments go by their numbers. -/
inductive Entry
  | created (rule : Rule)
  /-- A rule has changed, and what its new tree refutes has been removed. -/
  | revised (n : Nat) (rule : Rule) (tree : Criteria)
  | deleted (n : Nat)
  | recorded (a : Assessment)
  /-- An assessment was processed, at a time if one is given. -/
  | processed (k : Nat) (instant : Option String)

/-- Whether a rule has found something on an equal property. -/
def Pending (L : Ledger) (n : Nat) (propertyId : Value) : Prop :=
  ∃ k a, L.found n k ∧ L.assessments[k]? = some a ∧ a.propertyId.equal propertyId = true

/-- Whether a rule has found something on the same property. -/
def Covers (L : Ledger) (n : Nat) (propertyId : Value) : Prop :=
  ∃ k a, L.found n k ∧ L.assessments[k]? = some a ∧ a.propertyId.Matches propertyId

/-- Whether a rule takes part when an assessment is processed, and triggers. -/
def Strikes (L : Ledger) (k : Nat) (instant : Option String) (n : Nat) (a : Assessment) : Prop :=
  ∃ rule, L.rules[n]? = some (some rule) ∧ L.assessments[k]? = some a ∧
    isPresent instant rule = true ∧ holdsOn a rule = true

def enter (dedupe : Bool) (L : Ledger) : Entry → Ledger
  | .created rule => { L with rules := L.rules ++ [some rule] }
  | .revised n rule tree =>
    { L with
      rules := L.rules.set n (some rule)
      found := fun m k => L.found m k ∧ (m = n → ∀ a, L.assessments[k]? = some a →
        tree.refutes a.observations = false) }
  | .deleted n => { L with rules := L.rules.set n none }
  | .recorded a => { L with assessments := L.assessments ++ [a] }
  | .processed k instant =>
    { L with
      found := fun n j => L.found n j ∨ j = k ∧ ∃ a, L.Strikes k instant n a ∧
        ¬(dedupe = true ∧ L.Pending n a.propertyId) }

def Entry.isRevision : Entry → Bool
  | .revised .. => true
  | _ => false

/-- Whether of what a rule has found on one property something is removed on the
way to another ledger, and something is not. -/
def Splits (L L' : Ledger) : Prop :=
  ∃ n j k a c, L.found n j ∧ L.found n k ∧ L.assessments[j]? = some a ∧
    L.assessments[k]? = some c ∧ a.propertyId.Matches c.propertyId ∧
    ¬L'.found n j ∧ L'.found n k

/-- The same rules and assessments, and nothing found that the other ledger has not. -/
structure Below (K L : Ledger) : Prop where
  rules : K.rules = L.rules
  assessments : K.assessments = L.assessments
  found : ∀ n k, K.found n k → L.found n k

/-- What a rule has found in the second ledger, it has found on the same property in
the first one. -/
def Level (K L : Ledger) : Prop :=
  ∀ n k a, L.found n k → L.assessments[k]? = some a → K.Covers n a.propertyId

variable {K L : Ledger} {dedupe : Bool}

theorem Strikes.of_below (h : K.Below L) {k n : Nat} {instant : Option String} {a : Assessment}
    (hs : K.Strikes k instant n a) : L.Strikes k instant n a := by
  obtain ⟨rule, hrule, ha, hpresent, hholds⟩ := hs
  exact ⟨rule, h.rules ▸ hrule, h.assessments ▸ ha, hpresent, hholds⟩

theorem Below.symm_strikes (h : K.Below L) {k n : Nat} {instant : Option String} {a : Assessment}
    (hs : L.Strikes k instant n a) : K.Strikes k instant n a := by
  obtain ⟨rule, hrule, ha, hpresent, hholds⟩ := hs
  exact ⟨rule, h.rules.symm ▸ hrule, h.assessments.symm ▸ ha, hpresent, hholds⟩

theorem Below.enter (h : K.Below L) (e : Entry) : (K.enter true e).Below (L.enter false e) := by
  cases e with
  | created rule => exact ⟨congrArg (· ++ [some rule]) h.rules, h.assessments, h.found⟩
  | deleted n => exact ⟨congrArg (·.set n none) h.rules, h.assessments, h.found⟩
  | recorded a => exact ⟨h.rules, congrArg (· ++ [a]) h.assessments, h.found⟩
  | revised n rule tree =>
    refine ⟨congrArg (·.set n (some rule)) h.rules, h.assessments, ?_⟩
    rintro m k ⟨hfound, hkept⟩
    exact ⟨h.found m k hfound, fun hm a ha => hkept hm a (h.assessments.symm ▸ ha)⟩
  | processed k instant =>
    refine ⟨h.rules, h.assessments, ?_⟩
    rintro n j (hfound | ⟨rfl, a, hs, -⟩)
    · exact .inl (h.found n j hfound)
    · exact .inr ⟨rfl, a, hs.of_below h, by simp⟩

theorem Covers.mono {K' : Ledger} {n : Nat} {p : Value} (h : K.Covers n p)
    (hfound : ∀ k, K.found n k → K'.found n k)
    (ha : ∀ (k : Nat) (a : Assessment), K.assessments[k]? = some a →
      K'.assessments[k]? = some a) : K'.Covers n p := by
  obtain ⟨k, a, hk, hget, hp⟩ := h
  exact ⟨k, a, hfound k hk, ha k a hget, hp⟩

theorem Pending.covers {n : Nat} {p : Value} (h : K.Pending n p) : K.Covers n p := by
  obtain ⟨k, a, hk, hget, hp⟩ := h
  exact ⟨k, a, hk, hget, .inr hp⟩

/-- Everything was found on an assessment that is there. -/
def Known (L : Ledger) : Prop := ∀ n k, L.found n k → k < L.assessments.length

theorem Known.enter (h : L.Known) (dedupe : Bool) (e : Entry) : (L.enter dedupe e).Known := by
  cases e with
  | created rule => exact h
  | deleted n => exact h
  | recorded a =>
    intro n k hk
    have hlt := h n k hk
    simp only [Ledger.enter, List.length_append]
    omega
  | revised n rule tree => exact fun m k hk => h m k hk.1
  | processed k instant =>
    rintro n j (hj | ⟨rfl, a, hs, -⟩)
    · exact h n j hj
    · obtain ⟨-, -, ha, -, -⟩ := hs
      exact (List.getElem?_eq_some_iff.mp ha).1

theorem Level.enter (hb : K.Below L) (h : K.Level L) (hknown : L.Known) {e : Entry}
    (hs : e.isRevision = true → ¬L.Splits (L.enter false e)) :
    (K.enter true e).Level (L.enter false e) := by
  cases e with
  | created rule => exact fun n k a hk ha => h n k a hk ha
  | deleted n => exact fun n k a hk ha => h n k a hk ha
  | recorded c =>
    intro n k a hk ha
    have hold : L.assessments[k]? = some a := by
      simp only [Ledger.enter] at ha
      rwa [List.getElem?_append_left (hknown n k hk)] at ha
    refine Covers.mono (h n k a hk hold) (fun _ hj => hj) fun j b hj => ?_
    simp only [Ledger.enter]
    rw [List.getElem?_append_left (List.getElem?_eq_some_iff.mp hj).1, hj]
  | revised n rule tree =>
    rintro m k a ⟨hfound, hkept⟩ ha
    obtain ⟨j, c, hj, hc, hp⟩ := h m k a hfound ha
    refine ⟨j, c, ⟨hj, fun hm b hget => ?_⟩, hc, hp⟩
    -- otherwise it is removed from the second ledger, where the other one stays
    by_contra hrefuted
    refine hs rfl ⟨m, j, k, c, a, hb.found m j hj, hfound, hb.assessments ▸ hc, ha, hp,
      fun hstays => hrefuted (hstays.2 hm b (hb.assessments ▸ hget)), hfound, hkept⟩
  | processed k instant =>
    rintro n j a (hfound | ⟨rfl, c, hstrikes, -⟩) ha
    · exact Covers.mono (h n j a hfound ha) (fun _ hi => .inl hi) fun _ _ hi => hi
    · have hc : c = a := by
        obtain ⟨-, -, hc, -, -⟩ := hstrikes
        exact Option.some.inj (hc.symm.trans ha)
      subst hc
      by_cases hpending : K.Pending n c.propertyId
      · exact Covers.mono hpending.covers (fun _ hi => .inl hi) fun _ _ hi => hi
      · refine ⟨j, c, .inr ⟨rfl, c, hb.symm_strikes hstrikes, fun hd => hpending hd.2⟩, ?_, .inl rfl⟩
        exact hb.assessments.symm ▸ ha

/-! ## Several entries -/

theorem Below.enterAll (h : K.Below L) (es : List Entry) :
    (es.foldl (Ledger.enter true) K).Below (es.foldl (Ledger.enter false) L) := by
  induction es generalizing K L with
  | nil => exact h
  | cons e rest ih => exact ih (h.enter e)

theorem Level.enterAll (hb : K.Below L) (h : K.Level L) (hknown : L.Known) {es : List Entry}
    (hes : ∀ e ∈ es, e.isRevision = false) :
    (es.foldl (Ledger.enter true) K).Level (es.foldl (Ledger.enter false) L) := by
  induction es generalizing K L with
  | nil => exact h
  | cons e rest ih =>
    have he := hes e List.mem_cons_self
    refine ih (hb.enter e) (h.enter hb hknown fun hr => ?_) (hknown.enter false e)
      fun d hd => hes d (List.mem_cons_of_mem e hd)
    exact absurd (hr.symm.trans he) (by decide)

end Ledger

end PropertyRisk
