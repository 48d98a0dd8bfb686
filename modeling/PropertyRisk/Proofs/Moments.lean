import PropertyRisk.Proofs.Founded
import PropertyRisk.Proofs.Punctual
import PropertyRisk.Proofs.Reprocessed

/-!
# Processing at a point in time

A window is half-open: it has its start and all instants before its end. Processing an
assessment at a point in time triggers those rules that trigger at no particular time and whose
window has that instant, whichever text it was written in. Windows that follow on one another
leave no instant out and have none twice. `Backing.process_at_instant` has all three.
-/

namespace PropertyRisk

open Op (Triple Keeps)
open Engine
open Engine.Assessments

/-! ## Windows and instants -/

namespace Window

variable {w : Window} {s t : Time.Stamp}

/-- Whether an instant lies in a window: not before its start, and before its end if it has one. -/
def covers (w : Window) (t : Time.Stamp) : Bool :=
  (requireStampValue w.start).toOption.any (·.le t) &&
    (decide (w.stop = .null) || (requireStampValue w.stop).toOption.any t.lt)

theorem Written.contains_eq (h : w.Written) (t : Time.Stamp) : w.contains t = .ok (w.covers t) := by
  obtain ⟨first, hfirst⟩ := h.start
  have hread (stamp : Time.Stamp) :
      (requireStampValue (.text stamp.text)).toOption = some stamp := by
    rw [requireStampValue_text]
    rfl
  have hbegun : w.hasBegun t = .ok (first.le t) := by
    simp [hasBegun, hfirst, holds_stamp, requireStampValue_text]
  unfold contains covers
  rw [hbegun, hfirst, hread]
  cases hstart : first.le t with
  | false => simp [hstart]
  | true =>
    rcases h.stop with hstop | ⟨last, hstop⟩
    · simp [hasEnded, hstop, hstart]
    · simp [hasEnded, hstop, hstart, requireStampValue_text, Except.toOption,
        Time.Stamp.lt_eq_not_le]

/-- Only the instant counts. -/
theorem contains_congr (h : s.instant = t.instant) (w : Window) : w.contains s = w.contains t := by
  simp only [contains, hasBegun, hasEnded, Time.Stamp.le, h]

theorem containsValue_congr (h : s.instant = t.instant) (w : Window) :
    w.containsValue (.text s.text) = w.containsValue (.text t.text) := by
  simp only [containsValue, requireStampValue_text, contains_congr h]

end Window

/-- The instant that a time is at. -/
def instantOf (x : Value) : Except Error Int := Time.Stamp.instant <$> requireStampValue x

theorem instantOf_eq_ok {x : Value} {i : Int} :
    instantOf x = .ok i ↔ ∃ t, requireStampValue x = .ok t ∧ t.instant = i := by
  unfold instantOf
  cases requireStampValue x <;> simp

/-- Rules whose windows follow on one another from an instant on, up to `stop` if that is one: each
ends at the instant at which the next one starts. -/
inductive Successive : Int → Option Int → List Rule → Prop
  | done (i : Int) : Successive i (some i) []
  | last {r : Rule} {i : Int} (hstart : instantOf r.effectiveFrom = .ok i)
      (hend : r.effectiveTo = .null) : Successive i none [r]
  | next {r : Rule} {i j : Int} {stop : Option Int} {rest : List Rule}
      (hstart : instantOf r.effectiveFrom = .ok i) (hend : instantOf r.effectiveTo = .ok j)
      (hlt : i < j) (hrest : Successive j stop rest) : Successive i stop (r :: rest)

namespace Successive

variable {i j : Int} {stop : Option Int} {rules : List Rule} {r : Rule} {t : Time.Stamp}

theorem covers_last (hstart : instantOf r.effectiveFrom = .ok i) (hend : r.effectiveTo = .null) :
    r.window.covers t = decide (i ≤ t.instant) := by
  obtain ⟨first, hfirst, rfl⟩ := instantOf_eq_ok.mp hstart
  simp [Window.covers, Rule.window, hfirst, hend, Except.toOption, Time.Stamp.le]

theorem covers_next (hstart : instantOf r.effectiveFrom = .ok i)
    (hend : instantOf r.effectiveTo = .ok j) :
    r.window.covers t = decide (i ≤ t.instant ∧ t.instant < j) := by
  obtain ⟨first, hfirst, rfl⟩ := instantOf_eq_ok.mp hstart
  obtain ⟨last, hlast, rfl⟩ := instantOf_eq_ok.mp hend
  have hne : r.effectiveTo ≠ .null := by
    intro hnull
    rw [hnull] at hlast
    cases hlast
  simp [Window.covers, Rule.window, hfirst, hlast, hne, Except.toOption, Time.Stamp.le,
    Time.Stamp.lt]

/-- No window begins before the first one. -/
theorem le_of_covers (h : Successive i stop rules) (hr : r ∈ rules) (hc : r.window.covers t) :
    i ≤ t.instant := by
  induction h with
  | done => cases hr
  | last hstart hend =>
    cases List.mem_singleton.mp hr
    rw [covers_last hstart hend] at hc
    exact of_decide_eq_true hc
  | next hstart hend hlt hrest ih =>
    rcases List.mem_cons.mp hr with rfl | hr
    · rw [covers_next hstart hend] at hc
      exact (of_decide_eq_true hc).1
    · have := ih hr
      omega

/-- Every instant from the first start on, and before the last end, lies in one of the windows. -/
theorem existsUnique (h : Successive i stop rules) (hi : i ≤ t.instant)
    (hstop : ∀ e, stop = some e → t.instant < e) : ∃! r, r ∈ rules ∧ r.window.covers t = true := by
  induction h with
  | done i =>
    have := hstop i rfl
    omega
  | @last r i hstart hend =>
    refine ⟨r, ⟨List.mem_singleton_self r, ?_⟩, fun x hx => List.mem_singleton.mp hx.1⟩
    rw [covers_last hstart hend]
    exact decide_eq_true hi
  | @next r i j stop rest hstart hend hlt hrest ih =>
    by_cases hbefore : t.instant < j
    · refine ⟨r, ⟨List.mem_cons_self, ?_⟩, fun x ⟨hx, hc⟩ => ?_⟩
      · rw [covers_next hstart hend]
        exact decide_eq_true ⟨hi, hbefore⟩
      · rcases List.mem_cons.mp hx with rfl | hx
        · rfl
        · have := hrest.le_of_covers hx hc
          omega
    · -- the first window has ended, so it is one of the rest
      obtain ⟨x, ⟨hx, hc⟩, hunique⟩ := ih (by omega) hstop
      refine ⟨x, ⟨List.mem_cons_of_mem r hx, hc⟩, fun y ⟨hy, hcy⟩ => ?_⟩
      rcases List.mem_cons.mp hy with rfl | hy
      · rw [covers_next hstart hend] at hcy
        exact absurd (of_decide_eq_true hcy).2 hbefore
      · exact hunique y ⟨hy, hcy⟩

end Successive

/-! ## One instant, two texts -/

namespace Engine.Assessments

variable {σ : Type} {s t : Time.Stamp}

theorem takesPart_congr (h : s.instant = t.instant) :
    takesPart (some s.text) = takesPart (some t.text) := by
  funext rule
  simp only [takesPart, Window.containsValue_congr h]

theorem examineAll_congr (h : s.instant = t.instant) (g : Storage σ) (dedupe : Bool)
    (a : Assessment) :
    examineAll g dedupe a (some s.text) = examineAll g dedupe a (some t.text) := by
  funext rules
  induction rules with
  | nil => rfl
  | cons rule rest ih => simp only [examineAll, examine, takesPart_congr h, ih]

theorem effectiveAmong_congr (h : s.instant = t.instant) :
    effectiveAmong (.text s.text) = effectiveAmong (.text t.text) := by
  funext rules
  induction rules with
  | nil => rfl
  | cons rule rest ih => simp only [effectiveAmong, Window.containsValue_congr h, ih]

end Engine.Assessments

namespace Backing

variable {b : Backing} {w : World b.Store} {rules : Shelf Key Rule} {r : Rule} {a : Assessment}
  {dedupe : Bool}

/-- It does not matter in which text an instant is written. -/
theorem processAt_congr {x y : Value} {s t : Time.Stamp} (hx : requireStampValue x = .ok s)
    (hy : requireStampValue y = .ok t) (h : s.instant = t.instant) (dedupe : Bool)
    (source : AssessmentSource) :
    processAt b.storage dedupe source x = processAt b.storage dedupe source y := by
  have hlist : b.storage.perform (.listRulesEffectiveAt (.text s.text)) =
      b.storage.perform (.listRulesEffectiveAt (.text t.text)) := by
    rw [← b.view_storage, b.lawful.listRulesEffectiveAt, b.lawful.listRulesEffectiveAt,
      effectiveAmong_congr h]
  refine congrArg (resolve b.storage source >>= ·) (funext fun a => ?_)
  have hheldx := holds_of_requireStampValue hx
  have hheldy := holds_of_requireStampValue hy
  simp only [Value.orElse, hheldx, hheldy, if_true, Bool.not_true, Bool.false_eq_true, if_false, hx,
    hy]
  show (do
      let candidates ← b.storage.perform (.listRulesEffectiveAt (.text s.text))
      return report a.id (← examineAll b.storage dedupe a (some s.text) candidates)) = do
      let candidates ← b.storage.perform (.listRulesEffectiveAt (.text t.text))
      return report a.id (← examineAll b.storage dedupe a (some t.text) candidates)
  rw [hlist, examineAll_congr h]

/-! ## Which rules trigger -/

/-- A rule that is judged while others are triggers by what it says and what was observed. -/
theorem triple_examine (h : (b.opening rules).inv w) (hr : r ∈ rules.records)
    (ha : b.view.Text a.id) (hp : b.view.Settled a.propertyId) {time : Option String}
    (hpart : takesPart time r = .ok (isPresent time r))
    (hj : isPresent time r = true → r.tree.evaluate a.observations = .ok (holdsOn a r)) :
    Triple (examine b.storage dedupe a time r) w
      (fun verdict u => verdict.triggered? =
          (if isPresent time r && holdsOn a r then some r.id else none) ∧ (b.opening rules).inv u)
      (fun _ _ => False) := by
  have hanswer : b.Answers w r := h.1.answers_iff.mpr (h.2 ▸ hr)
  obtain ⟨s, hs, hid, -⟩ := h.1.rules.shelved.get?_of_mem (h.2 ▸ hr)
  refine Triple.bind_run (Op.run_attempt_ok hanswer) ?_
  simp only [hpart]
  refine Triple.bind_run (Op.run_ofExcept_ok _ _) ?_
  cases hpresent : isPresent time r with
  | false => exact Triple.pure ⟨rfl, h⟩
  | true =>
    simp only [if_true, judgeRule, judge, hj hpresent]
    refine Triple.bind_run (Op.run_orElse_ok _ _ _) ?_
    cases hholds : holdsOn a r with
    | false => exact Triple.pure ⟨rfl, h⟩
    | true =>
      -- whether a vulnerability is opened or not, the rule has triggered
      have hopen := opening_open h ⟨s, hs, hid⟩ ha hp dedupe
      have hattempt : Triple (open_ b.storage dedupe a r).attempt w
          (fun _ u => (b.opening rules).inv u) (fun _ _ => False) := by
        refine Triple.attempt_storage (hopen.mono (fun _ _ hu => hu) ?_)
        rintro e u ⟨⟨failure, he⟩, hu⟩
        exact ⟨failure, he, hu⟩
      refine hattempt.bind fun found u hu => ?_
      rcases found with _ | _ | _ <;> exact Triple.pure ⟨rfl, hu⟩

theorem triple_examineAll (ha : b.view.Text a.id) (hp : b.view.Settled a.propertyId)
    {time : Option String} {rs : List Rule} (hrs : ∀ r ∈ rs, r ∈ rules.records)
    (hpart : ∀ r ∈ rs, takesPart time r = .ok (isPresent time r))
    (hj : ∀ r ∈ rs, isPresent time r = true →
      r.tree.evaluate a.observations = .ok (holdsOn a r)) :
    ∀ {w : World b.Store}, (b.opening rules).inv w →
    Triple (examineAll b.storage dedupe a time rs) w
      (fun verdicts u => verdicts.filterMap (·.2.triggered?) =
          (rs.filter fun r => isPresent time r && holdsOn a r).map Rule.id ∧
        (b.opening rules).inv u) (fun _ _ => False) := by
  induction rs with
  | nil => exact fun h => Triple.pure ⟨rfl, h⟩
  | cons r rest ih =>
    intro w h
    obtain ⟨hr, hrs⟩ := List.forall_mem_cons.mp hrs
    obtain ⟨hpartr, hpart⟩ := List.forall_mem_cons.mp hpart
    obtain ⟨hjr, hj⟩ := List.forall_mem_cons.mp hj
    refine (triple_examine h hr ha hp hpartr hjr).bind fun verdict u ⟨hverdict, hu⟩ => ?_
    refine (ih hrs hpart hj hu).bind fun verdicts t ⟨hverdicts, ht⟩ => Triple.pure ⟨?_, ht⟩
    rw [List.filterMap_cons, hverdict, hverdicts, List.filter_cons]
    cases isPresent time r && holdsOn a r <;> rfl

theorem mem_listed : ∀ (b : Backing) {rules : List Rule} {r : Rule}, r ∈ b.listed rules ↔ r ∈ rules
  | memory, _, _ => Iff.rfl
  | tables, _, _ => List.mem_mergeSort

/-- Rules that are judged on an assessment and trigger, in the order in which they are listed. -/
def triggering (b : Backing) (w : World b.Store) (a : Assessment) (instant : Option String) :
    List Rule :=
  (b.listed (b.view.records w.store).rules.records).filter fun r =>
    isPresent instant r && holdsOn a r

/-- An assessment is processed, and just those rules trigger. -/
theorem triple_processWhen (h : b.Punctual w) {id : Value}
    (ha : (b.storage.perform (.getAssessment id)).run w = (.ok (some a), w))
    {source : AssessmentSource} (hs : source = .stored id ∨ source = .record a)
    {time : Option Value} {instant : Option String} (ht : JudgesAt a time instant)
    (hj : ∀ r, b.Answers w r → r.isActive.holds = true →
      ∃ holds, r.tree.evaluate a.observations = .ok holds) (dedupe : Bool) :
    Triple (processWhen b.storage dedupe source time) w
      (fun report _ => report.triggered = (b.triggering w a instant).map Rule.id)
      (fun _ _ => False) := by
  obtain ⟨hid, hp⟩ := b.of_getAssessment h.booked ha
  have hresolve : (resolve b.storage source).run w = (.ok a, w) := by
    rcases hs with rfl | rfl
    · exact (Op.run_bind_ok ha).trans rfl
    · rfl
  have hlist := b.run_listRules h.inOrder
  rw [b.view_storage] at hlist
  have hmem (r : Rule) (hr : r ∈ b.listed (b.view.records w.store).rules.records) :
      r ∈ (b.view.records w.store).rules.records := b.mem_listed.mp hr
  have hpart (r : Rule) (hr : r ∈ (b.view.records w.store).rules.records) :
      takesPart instant r = .ok (isPresent instant r) :=
    takesPart_eq ht (h.rules.windows r hr).readable
  have hjudged (r : Rule) (hr : r ∈ (b.view.records w.store).rules.records)
      (hpresent : isPresent instant r = true) :
      r.tree.evaluate a.observations = .ok (holdsOn a r) := by
    obtain ⟨holds, hholds⟩ := hj r (h.answers_iff.mpr hr) (Bool.and_eq_true_iff.mp hpresent).1
    simp [holdsOn, hholds]
  have hopening : (b.opening (b.view.records w.store).rules).inv w := ⟨h, rfl⟩
  -- the candidates are among the listed rules, and none of the others takes part
  have hexamined (rs : List Rule) (hrs : ∀ r ∈ rs, r ∈ (b.view.records w.store).rules.records)
      (hsame : rs.filter (fun r => isPresent instant r && holdsOn a r) = b.triggering w a instant) :
      Triple (do return report a.id (← examineAll b.storage dedupe a instant rs)) w
        (fun report _ => report.triggered = (b.triggering w a instant).map Rule.id)
        (fun _ _ => False) :=
    (triple_examineAll hid hp hrs (fun r hr => hpart r (hrs r hr))
      (fun r hr => hjudged r (hrs r hr)) hopening).bind
        fun verdicts u hverdicts => Triple.pure (hverdicts.1.trans (by rw [hsame]))
  cases ht with
  | ever =>
    exact Triple.bind_run hresolve (Triple.bind_run hlist (hexamined _ hmem rfl))
  | @moment time stamp hstamp =>
    have hwindows (r : Rule) (hr : r ∈ b.listed (b.view.records w.store).rules.records) :
        r.window.Readable := (h.rules.windows r (hmem r hr)).readable
    have hcandidates : (b.storage.perform (.listRulesEffectiveAt (.text stamp.text))).run w =
        (.ok ((b.listed (b.view.records w.store).rules.records).filter
          (isCandidate (some stamp.text))), w) := by
      rw [← b.view_storage, b.lawful.listRulesEffectiveAt, b.view_storage, Op.run_bind_ok hlist,
        effectiveAmong_eq hwindows]
      rfl
    refine Triple.bind_run hresolve ?_
    simp only [holds_of_requireStampValue hstamp, Bool.not_true, Bool.false_eq_true, if_false,
      hstamp]
    refine Triple.bind_run (Op.run_ofExcept_ok _ _) (Triple.bind_run hcandidates ?_)
    refine hexamined _ (fun r hr => hmem r (List.mem_filter.mp hr).1) ?_
    rw [List.filter_filter]
    refine List.filter_congr fun r _ => ?_
    cases hc : isCandidate (some stamp.text) r <;> simp [isPresent, hc]

/-! ## Processing at an instant -/

/-- The rules that triggered at an instant are those that triggered at no particular time and whose
window has that instant, in the same order. -/
def Restricts (b : Backing) (w : World b.Store) (t : Time.Stamp) (plain timed : ProcessReport) :
    Prop :=
  ∃ rules : List Rule, (∀ r ∈ rules, b.Answers w r) ∧ plain.triggered = rules.map Rule.id ∧
    timed.triggered = (rules.filter (·.window.covers t)).map Rule.id

theorem isCandidate_eq_covers (h : r.window.Written) (t : Time.Stamp) :
    isCandidate (some t.text) r = r.window.covers t := by
  simp [isCandidate, Window.containsValue, requireStampValue_text, h.contains_eq]

theorem mem_triggering (h : b.Punctual w) {instant : Option String} :
    r ∈ b.triggering w a instant ↔
      b.Answers w r ∧ isPresent instant r = true ∧ holdsOn a r = true := by
  rw [triggering, List.mem_filter, mem_listed, h.answers_iff, Bool.and_eq_true]

theorem triggering_at (h : b.Punctual w) (a : Assessment) (t : Time.Stamp) :
    b.triggering w a (some t.text) = (b.triggering w a none).filter (·.window.covers t) := by
  rw [triggering, triggering, List.filter_filter]
  refine List.filter_congr fun r hr => ?_
  have hwritten := h.rules.windows r (b.mem_listed.mp hr)
  simp only [isPresent, isCandidate_eq_covers hwritten]
  cases r.window.covers t <;> simp [isCandidate]

/-- Of rules whose windows follow on one another, and which trigger at no particular time, one
triggers at an instant. -/
theorem existsUnique_triggering (h : b.Punctual w) {rs : List Rule}
    (hrs : ∀ r ∈ rs, r ∈ b.triggering w a none) {i : Int} {stop : Option Int}
    (hsuccessive : Successive i stop rs) {t : Time.Stamp} (hi : i ≤ t.instant)
    (hstop : ∀ e, stop = some e → t.instant < e) :
    ∃! r, r ∈ rs ∧ r.id ∈ (b.triggering w a (some t.text)).map Rule.id := by
  obtain ⟨r, ⟨hr, hc⟩, hunique⟩ := hsuccessive.existsUnique hi hstop
  rw [triggering_at h]
  refine ⟨r, ⟨hr, List.mem_map_of_mem (List.mem_filter.mpr ⟨hrs r hr, hc⟩)⟩, fun x ⟨hx, hid⟩ => ?_⟩
  obtain ⟨y, hy, hyx⟩ := List.mem_map.mp hid
  obtain ⟨hy, hcy⟩ := List.mem_filter.mp hy
  -- the store answers one rule to an id
  have hx' := ((mem_triggering h).mp (hrs x hx)).1
  have hy' := ((mem_triggering h).mp hy).1
  rw [Answers, hyx] at hy'
  obtain rfl : y = x := Option.some.inj (Except.ok.inj (congrArg Prod.fst (hy'.symm.trans hx')))
  exact hunique y ⟨hx, hcy⟩

/-- An assessment that a store answers is processed whatever the time. At an instant just those
rules trigger that trigger anyway and whose window has it; in which text the instant is given
makes no difference; and of active rules of one tree whose windows follow on one another, one
triggers if the tree is true. -/
theorem process_at_instant (h : b.Visited (fun _ _ _ => True) w) {id : Value}
    (ha : (b.storage.perform (.getAssessment id)).run w = (.ok (some a), w))
    {source : AssessmentSource} (hs : source = .stored id ∨ source = .record a) (dedupe : Bool)
    (hfits : ∀ r, b.Answers w r → r.isActive.holds = true →
      ∃ holds, r.tree.evaluate a.observations = .ok holds)
    {time : Value} {t : Time.Stamp} (ht : requireStampValue time = .ok t) :
    ∃ plain timed u v,
      (process b.storage dedupe source).run w = (.ok plain, u) ∧
      (processAt b.storage dedupe source time).run w = (.ok timed, v) ∧
      b.Restricts w t plain timed ∧
      (∀ time' t', requireStampValue time' = .ok t' → t'.instant = t.instant →
        (processAt b.storage dedupe source time').run w = (.ok timed, v)) ∧
      ∀ rs i stop tree, Successive i stop rs →
        (∀ r ∈ rs, b.Answers w r ∧ r.isActive.holds = true ∧ r.tree = tree) →
        tree.evaluate a.observations = .ok true →
        i ≤ t.instant → (∀ e, stop = some e → t.instant < e) →
        ∃! r, r ∈ rs ∧ r.id ∈ timed.triggered := by
  have hp := h.punctual
  have hjudges : JudgesAt a (some time) (some t.text) := .moment <| by
    rwa [Value.orElse, if_pos (holds_of_requireStampValue ht)]
  obtain ⟨plain, u, hplain, hanyway⟩ :=
    (triple_processWhen hp ha hs .ever hfits dedupe).exists_ok
  obtain ⟨timed, v, htimed, hthen⟩ :=
    (triple_processWhen hp ha hs hjudges hfits dedupe).exists_ok
  refine ⟨plain, timed, u, v, hplain, htimed, ⟨b.triggering w a none, ?_, hanyway, ?_⟩, ?_, ?_⟩
  · exact fun r hr => ((mem_triggering hp).mp hr).1
  · rw [hthen, triggering_at hp]
  · intro time' t' ht' hsame
    rw [processAt_congr ht' ht hsame]
    exact htimed
  · intro rs i stop tree hsuccessive hrs htree hi hstop
    rw [hthen]
    refine existsUnique_triggering hp (fun r hr => ?_) hsuccessive hi hstop
    obtain ⟨hanswers, hactive, rfl⟩ := hrs r hr
    refine (mem_triggering hp).mpr ⟨hanswers, ?_, ?_⟩
    · simp [isPresent, hactive, isCandidate]
    · simp [holdsOn, htree]

/-! ## A rule that takes over from another -/

/-- A rule on leaks. -/
def trickling : RuleInput where
  name := .text "Trickling"
  description := .text "Water comes in."
  tree := .object [("join_operator", .text "AND"), ("conditions", .list
    [.object [("observation_type_id", .text "a"), ("value", .text "yes")]])]

/-- The rule is there twice: the second is effective when the first no longer is. -/
def renewed : World Tables :=
  [.createObservationType (.text "leak") (.text "ENUM") .null (.bool false),
    .createRule { trickling with effectiveTo := .text "2025-01-01" },
    .createRule { trickling with effectiveFrom := .text "2025-01-01T01:00+01:00" },
    .recordAssessment (.int 7)
      (.list [.object [("observation_type_id", .text "a"), ("value", .text "yes")]]) .null].foldl
    (fun w c => tables.after {} [] c w) (start .tables)

/-- One of the two, as it is stored. -/
def trickle (id : String) (effectiveFrom effectiveTo : Value) : Rule where
  id := .text id
  name := trickling.name
  description := trickling.description
  tree := ⟨.and, [.leaf { typeId := "a", value := .text "yes" }]⟩
  effectiveFrom := effectiveFrom
  effectiveTo := effectiveTo
  isActive := .bool true
  version := 1
  createdAt := .text "2024-01-01T00:00:00+00:00"
  updatedAt := "2024-01-01T00:00:00+00:00"

def trickles : List Rule :=
  [trickle "aa" (.text "2024-01-01T00:00:00+00:00") (.text "2025-01-01T00:00:00+00:00"),
    trickle "aaa" (.text "2025-01-01T01:00:00+01:00") .null]

def damp : Assessment where
  id := .text "aaaa"
  propertyId := .int 7
  observations := [{ typeId := "a", value := .text "yes" }]
  assessedAt := .text "2024-01-01T00:00:00+00:00"

/-- The instant of the change. -/
def newYear : Time.Stamp := ⟨⟨2025, 1, 1, by decide⟩, .midnight, .utc⟩

theorem successive_trickles : Successive (start tables).clock.instant none trickles :=
  .next (j := newYear.instant) (by decide +kernel) (by decide +kernel) (by decide +kernel) <|
    .last (by decide +kernel) rfl

/-- At that instant one of the two triggers, whatever the text. -/
theorem process_at_renewal : ∃ timed v,
    (processAt tables.storage true (.stored damp.id) (.text "2024-12-31T23:00-01:00")).run renewed =
      (.ok timed, v) ∧
    (processAt tables.storage true (.stored damp.id) (.text "2025-01-01")).run renewed =
      (.ok timed, v) ∧
    ∃! r, r ∈ trickles ∧ r.id ∈ timed.triggered := by
  have hvisited : tables.Visited (fun _ _ _ => True) renewed :=
    .call _ _ trivial <| .call _ _ trivial <| .call _ _ trivial <| .call _ _ trivial <|
      .empty _ 0 letters letters_injective isWhole_letters
  have hrecorded : (tables.storage.perform (.getAssessment damp.id)).run renewed =
      (.ok (some damp), renewed) :=
    Prod.ext (by decide +kernel) (Tables.quiet_getAssessment _ _)
  have hstored : (tables.view.records renewed.store).rules.records = trickles := by decide +kernel
  have hanswers (r : Rule) : tables.Answers renewed r ↔ r ∈ trickles := by
    rw [hvisited.punctual.answers_iff, hstored]
  have htree (r : Rule) (hr : r ∈ trickles) : r.isActive.holds = true ∧
      r.tree = ⟨.and, [.leaf { typeId := "a", value := .text "yes" }]⟩ ∧
      r.tree.evaluate damp.observations = .ok true := by
    revert r
    decide +kernel
  obtain ⟨t, ht, hinstant⟩ := instantOf_eq_ok.mp
    (show instantOf (.text "2024-12-31T23:00-01:00") = .ok newYear.instant by decide +kernel)
  obtain ⟨t', ht', hinstant'⟩ := instantOf_eq_ok.mp
    (show instantOf (.text "2025-01-01") = .ok newYear.instant by decide +kernel)
  obtain ⟨-, timed, -, v, -, htimed, -, hsame, hone⟩ := process_at_instant hvisited hrecorded
    (.inl rfl) true (fun r hr _ => ⟨true, (htree r ((hanswers r).mp hr)).2.2⟩) ht
  refine ⟨timed, v, htimed, hsame _ t' ht' (hinstant'.trans hinstant.symm), ?_⟩
  refine hone trickles _ none _ successive_trickles
    (fun r hr => ⟨(hanswers r).mpr hr, (htree r hr).1, (htree r hr).2.1⟩) (by decide) ?_ nofun
  rw [hinstant]
  decide +kernel

end Backing

end PropertyRisk
