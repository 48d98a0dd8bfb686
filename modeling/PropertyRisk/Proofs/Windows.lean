import PropertyRisk.Engine.RuleChanges
import PropertyRisk.Proofs.Timestamps

/-!
# Windows in their written form

A checked window is made of written timestamps, and its end may be open. So a
patch of one end leaves the text of the other one as an earlier check wrote it.
-/

namespace PropertyRisk

open Engine

/-- A window as the checks of a rule leave it. -/
structure Window.Written (w : Window) : Prop where
  start : ∃ a : Time.Stamp, w.start = .text a.text
  stop : w.stop = .null ∨ ∃ b : Time.Stamp, w.stop = .text b.text

/-- What the end of a checked window comes from. -/
inductive Window.EndsAt (given : Value) : Value → Prop
  | never : given.holds = false → EndsAt given .null
  | closing {b : Time.Stamp} : given.holds = true → requireStampValue given = .ok b →
      EndsAt given (.text b.text)

/-- The text of a timestamp is not empty. -/
theorem holds_stamp (a : Time.Stamp) : (Value.text a.text).holds = true := by
  have hlen : a.text ≠ "" := by
    intro he
    have hchars : a.chars = [] := by simpa [Time.Stamp.text] using congrArg String.toList he
    simp [Time.Stamp.chars] at hchars
  simpa [Value.holds] using hlen

/-- A timestamp that is given stands. -/
theorem Value.orElse_stamp (a : Time.Stamp) (x : Value) :
    (Value.text a.text).orElse x = .text a.text :=
  if_pos (holds_stamp a)

/-- In place of a time that is not given stands that of the clock. -/
theorem Value.exists_orElse_stamp {given : Value} (clock : Time.Stamp)
    (h : given = .text "" ∨ ∃ stamp : Time.Stamp, given = .text stamp.text) :
    ∃ stamp : Time.Stamp, given.orElse (.text clock.text) = .text stamp.text := by
  rcases h with rfl | ⟨stamp, rfl⟩
  · exact ⟨clock, rfl⟩
  · exact ⟨stamp, orElse_stamp stamp _⟩

theorem Window.Written.holds_start {w : Window} (h : w.Written) : w.start.holds = true := by
  obtain ⟨a, ha⟩ := h.start
  exact ha ▸ holds_stamp a

/-- What keeps written timestamps keeps both ends of a window. -/
theorem Window.Written.kept {w : Window} (h : w.Written) {f : Value → Value}
    (hnull : f .null = .null) (htext : ∀ a : Time.Stamp, f (.text a.text) = .text a.text) :
    f w.start = w.start ∧ f w.stop = w.stop := by
  obtain ⟨a, ha⟩ := h.start
  refine ⟨ha ▸ htext a, ?_⟩
  rcases h.stop with hstop | ⟨b, hb⟩
  · exact hstop ▸ hnull
  · exact hb ▸ htext b

namespace Window.EndsAt

variable {given x : Value}

theorem written (h : EndsAt given x) : x = .null ∨ ∃ b : Time.Stamp, x = .text b.text := by
  cases h with
  | never => exact .inl rfl
  | closing => exact .inr ⟨_, rfl⟩

/-- An end that was written stays as it is. -/
theorem eq_of_written (h : EndsAt given x)
    (hw : given = .null ∨ ∃ b : Time.Stamp, given = .text b.text) : x = given := by
  rcases hw with rfl | ⟨b, rfl⟩
  · cases h with
    | never => rfl
    | closing hholds => cases hholds
  · cases h with
    | never hholds => simp [holds_stamp] at hholds
    | closing _ hb =>
      rw [requireStampValue_text] at hb
      cases hb
      rfl

end Window.EndsAt

namespace Engine.Rules

variable {start stop x : Value} {w : Window} {current : Rule} {patch : RulePatch}

theorem requireStampValue_of_stampOrProblem {stamp : Time.Stamp}
    (h : stampOrProblem x = .ok (.ok stamp)) : requireStampValue x = .ok stamp := by
  unfold stampOrProblem at h
  split at h
  · split at h
    · rename_i hs
      cases h
      simp [requireStampValue, requireStamp, hs]
    · cases h
  · cases h

theorem checkWindow_eq_ok (h : checkWindow start stop = .ok (.ok w)) :
    (∃ a, requireStampValue start = .ok a ∧ w.start = .text a.text) ∧
      Window.EndsAt stop w.stop := by
  unfold checkWindow at h
  split at h
  · cases h
  · cases h
  rename_i a ha
  have hstart := requireStampValue_of_stampOrProblem ha
  split at h
  · rename_i hholds
    split at h
    · cases h
    · cases h
    rename_i b hb
    split at h <;> cases h
    exact ⟨⟨a, hstart, rfl⟩, .closing hholds (requireStampValue_of_stampOrProblem hb)⟩
  · rename_i hholds
    cases h
    exact ⟨⟨a, hstart, rfl⟩, .never (by simpa using hholds)⟩

/-- A checked window is in its written form. -/
theorem written_of_checkWindow (h : checkWindow start stop = .ok (.ok w)) : w.Written := by
  obtain ⟨⟨a, -, ha⟩, hstop⟩ := checkWindow_eq_ok h
  exact ⟨⟨a, ha⟩, hstop.written⟩

/-- The window that a patch of an end of it leads to. -/
theorem patchedWindow_eq_some (h : patchedWindow current patch = .ok (some (.ok w))) :
    checkWindow ((patch.effectiveFrom.getD current.effectiveFrom).orElse current.effectiveFrom)
      (patch.effectiveTo.getD current.effectiveTo) = .ok (.ok w) := by
  unfold patchedWindow at h
  split at h
  · simp only at h
    split at h
    · cases h
    · rename_i hw
      cases h
      exact hw
  · cases h

theorem patchedWindow_eq_none (h : patchedWindow current patch = .ok none) :
    patch.effectiveFrom = none ∧ patch.effectiveTo = none := by
  unfold patchedWindow at h
  split at h
  · simp only at h
    split at h <;> cases h
  · rename_i hs
    simpa using hs

end Engine.Rules

/-! ## Windows of texts -/

/-- A patch of a rule that has no other ends of windows than texts, nor has the rule. -/
structure Engine.RulePatch.OnTexts (patch : RulePatch) (r : Rule) : Prop where
  ownStart : ∃ s, r.effectiveFrom = .text s
  ownStop : r.effectiveTo = .null ∨ ∃ s, r.effectiveTo = .text s
  start : ∀ x, patch.effectiveFrom = some x → x = .null ∨ ∃ s, x = .text s
  stop : ∀ x, patch.effectiveTo = some x → x = .null ∨ ∃ s, x = .text s

namespace Engine.Rules

theorem stampOrProblem_text (s : String) : ∃ p, stampOrProblem (.text s) = .ok p := by
  simp only [stampOrProblem]
  split <;> exact ⟨_, rfl⟩

theorem checkWindow_of_text (start : String) {stop : Value}
    (hstop : stop = .null ∨ ∃ s, stop = .text s) :
    ∃ window, checkWindow (.text start) stop = .ok window := by
  obtain ⟨first, hfirst⟩ := stampOrProblem_text start
  unfold checkWindow
  rw [hfirst]
  cases first with
  | error p => exact ⟨_, rfl⟩
  | ok first =>
    rcases hstop with rfl | ⟨s, rfl⟩
    · exact ⟨_, rfl⟩
    · obtain ⟨last, hlast⟩ := stampOrProblem_text s
      rw [hlast]
      rcases last with p | last <;> dsimp only <;> repeat' split
      all_goals exact ⟨_, rfl⟩

/-- Texts can always be checked. -/
theorem patchedWindow_of_onTexts {patch : RulePatch} {r : Rule} (h : patch.OnTexts r) :
    ∃ window, patchedWindow r patch = .ok window := by
  obtain ⟨own, hown⟩ := h.ownStart
  have hstart : ∃ s, (patch.effectiveFrom.getD r.effectiveFrom).orElse r.effectiveFrom = .text s := by
    rw [hown]
    cases hfrom : patch.effectiveFrom with
    | none => exact ⟨own, ite_self _⟩
    | some x =>
      rcases h.start x hfrom with rfl | ⟨s, rfl⟩
      · exact ⟨own, rfl⟩
      · by_cases hs : (Value.text s).holds = true <;> simp [Value.orElse, hs]
  have hstop : patch.effectiveTo.getD r.effectiveTo = .null ∨
      ∃ s, patch.effectiveTo.getD r.effectiveTo = .text s := by
    cases hto : patch.effectiveTo with
    | none => exact h.ownStop
    | some x => exact h.stop x hto
  obtain ⟨start, hstart⟩ := hstart
  unfold patchedWindow
  split
  · obtain ⟨window, hwindow⟩ := checkWindow_of_text start hstop
    simp only [hstart, hwindow]
    exact ⟨_, rfl⟩
  · exact ⟨_, rfl⟩

end Engine.Rules

/-! ## Readable windows -/

/-- A window whose ends can be read, where it has any. -/
structure Window.Readable (w : Window) : Prop where
  start : w.start.holds = true → ∃ a, requireStampValue w.start = .ok a
  stop : w.stop = .null ∨ ∃ b, requireStampValue w.stop = .ok b

theorem Window.Readable.contains {w : Window} (h : w.Readable) (t : Time.Stamp) :
    ∃ b, w.contains t = .ok b := by
  have hbegun : ∃ b, w.hasBegun t = .ok b := by
    unfold hasBegun
    cases hs : w.start.holds with
    | false => exact ⟨true, rfl⟩
    | true =>
      obtain ⟨a, ha⟩ := h.start hs
      exact ⟨_, by simp [ha]; rfl⟩
  have hended : ∃ b, w.hasEnded t = .ok b := by
    unfold hasEnded
    rcases h.stop with hn | ⟨b, hb⟩
    · exact ⟨false, by simp [hn]⟩
    · by_cases hn : w.stop = .null
      · exact ⟨false, by simp [hn]⟩
      · exact ⟨_, by simp [hn, hb]; rfl⟩
  obtain ⟨begun, hbegun⟩ := hbegun
  obtain ⟨ended, hended⟩ := hended
  cases begun
  · exact ⟨false, by simp [Window.contains, hbegun]⟩
  · exact ⟨!ended, by simp [Window.contains, hbegun, hended]⟩

/-- A written window is readable. -/
theorem Window.Written.readable {w : Window} (h : w.Written) : w.Readable where
  start _ := by
    obtain ⟨a, ha⟩ := h.start
    exact ⟨a, ha ▸ requireStampValue_text a⟩
  stop := h.stop.imp_right fun ⟨b, hb⟩ => ⟨b, hb ▸ requireStampValue_text b⟩

theorem holds_of_requireStampValue {x : Value} {a : Time.Stamp}
    (h : requireStampValue x = .ok a) : x.holds = true := by
  unfold requireStampValue at h
  split at h
  · rename_i s
    by_cases hs : s = ""
    · subst hs
      cases h
    · simpa [Value.holds] using hs
  · cases h

end PropertyRisk
