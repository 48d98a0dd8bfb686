import PropertyRisk.Proofs.Batches
import PropertyRisk.Proofs.RuleWrites

/-!
# Processing again, and processing two assessments

Processing opens a vulnerability for every rule that triggers and has none pending, so
nothing is left to open when the same assessment is processed again. What it opens is of
the assessment's property, so it makes no difference to the assessments of others.
`Backing.processing_repeats_and_commutes` has both.
-/

namespace PropertyRisk

open Engine
open Engine.Assessments

/-! ## The order of the rules -/

namespace Tables

/-- Rules are listed by creation time, those of one time by id. -/
def listedBefore (r q : Rule) : Bool :=
  match r.createdAt, q.createdAt, r.id, q.id with
  | .text s, .text t, .text i, .text j => decide (s < t) || (decide (s = t) && decide (i ≤ j))
  | _, _, _, _ => true

theorem map_record_sorted (rows : List RuleRow) :
    (sortedByTexts RuleRow.createdAt RuleRow.id rows).map RuleRow.record =
      (rows.map RuleRow.record).mergeSort listedBefore :=
  List.map_mergeSort fun _ _ _ _ => rfl

end Tables

namespace Backing

/-- The rules in the order in which a store lists them. -/
def listed : Backing → List Rule → List Rule
  | memory => fun rules => rules
  | tables => fun rules => rules.mergeSort Tables.listedBefore

/-- The list of rules depends on nothing but the rules. -/
theorem run_listRules : ∀ (b : Backing) {w : World b.Store}, b.RulesInOrder w →
    (b.view.storage.perform .listRules).run w =
      (.ok (b.listed (b.view.records w.store).rules.records), w)
  | memory, _, _ => rfl
  | tables, w, h => by
    have hrecords : (tables.view.records w.store).rules.records =
        Shelf.records (Shelf.relabel Key.text RuleRow.record w.store.rules.rows) := rfl
    refine (Tables.run_listRules h.reads).trans ?_
    rw [Tables.map_record_sorted, hrecords, Shelf.records_relabel]
    rfl

end Backing

/-! ## What is pending after processing -/

namespace Engine.Assessments

variable {dedupe : Bool} {xs : List Vulnerability} {a : Assessment} {time : Option String}
  {rule : Rule}

theorem isEvaluated_fateOf : (fateOf [] dedupe xs a time rule).isEvaluated = isPresent time rule := by
  simp only [fateOf, show rereadFailure? [] rule = none from rfl,
    show openFailure? [] rule = none from rfl]
  cases isPresent time rule <;> cases holdsOn a rule <;>
    cases dedupe && isPending xs a.propertyId rule <;> rfl

theorem failure_fateOf_nil : (fateOf [] dedupe xs a time rule).failure? = none := by
  simp only [fateOf, show rereadFailure? [] rule = none from rfl,
    show openFailure? [] rule = none from rfl]
  cases isPresent time rule <;> cases holdsOn a rule <;>
    cases dedupe && isPending xs a.propertyId rule <;> rfl

end Engine.Assessments

/-- A vulnerability without its id and its times. -/
def Vulnerability.unmarked (x : Vulnerability) : Vulnerability :=
  { x with id := .null, detectedAt := .null, createdAt := .null, updatedAt := .null }

attribute [ext] Engine.ProcessReport

/-- A report without the ids and times of what was opened. -/
def Engine.ProcessReport.unmarked (r : ProcessReport) : ProcessReport :=
  { r with created := r.created.map Vulnerability.unmarked }

/-- What does not depend on a record's place can be read off the list itself. -/
theorem map_mapIdx_of_forall {f : Nat → α → β} {g : β → γ} {h : α → γ} (hf : ∀ n a, g (f n a) = h a)
    (as : List α) : (as.mapIdx f).map g = as.map h := by
  induction as generalizing f with
  | nil => rfl
  | cons a rest ih =>
    rw [List.mapIdx_cons, List.map_cons, List.map_cons, hf, ih fun n => hf (n + 1)]

/-- The report on an assessment, without the ids and times of what is opened. -/
def Engine.Assessments.unmarkedReport (dedupe : Bool) (xs : List Vulnerability) (a : Assessment)
    (time : Option String) (rules : List Rule) : ProcessReport where
  assessmentId := a.id
  evaluated := rules.countP (isPresent time)
  triggered := (rules.filter fun rule => isPresent time rule && holdsOn a rule).map Rule.id
  created := (rules.filter (fateOf [] dedupe xs a time · = .created)).map fun rule =>
    (Vulnerability.openedBy "" rule a "").unmarked
  skipped := rules.countP (fateOf [] dedupe xs a time · = .skipped)
  errors := []

/-- What is pending for others makes no difference to a report. -/
theorem Engine.Assessments.unmarkedReport_congr {dedupe : Bool} {xs ys : List Vulnerability}
    {a : Assessment} {time : Option String} {rules : List Rule}
    (h : ∀ q, isPending ys a.propertyId q = isPending xs a.propertyId q) :
    unmarkedReport dedupe ys a time rules = unmarkedReport dedupe xs a time rules := by
  simp only [unmarkedReport, fateOf_congr (h _)]

namespace Engine.Assessments.Accounts

variable {dedupe : Bool} {xs ys : List Vulnerability} {a : Assessment} {time : Option String}
  {opened other : Nat → Rule → Vulnerability} {rules : List Rule} {r s : ProcessReport}

/-- Nothing fails where no failure is injected. -/
theorem no_errors (h : Accounts [] dedupe xs a time opened rules r) : r.errors = [] := by
  rw [h.errors]
  simp [failure_fateOf_nil]

theorem evaluated_present (h : Accounts [] dedupe xs a time opened rules r) :
    r.evaluated = rules.countP (isPresent time) := by
  rw [h.evaluated]
  simp only [isEvaluated_fateOf]

/-- A report, up to what was opened when, is told by the fates of the rules. -/
theorem unmarked_eq (h : Accounts [] dedupe xs a time opened rules r)
    (hopened : ∀ n q, (opened n q).unmarked = (Vulnerability.openedBy "" q a "").unmarked) :
    r.unmarked = unmarkedReport dedupe xs a time rules :=
  have hcreated : r.created.map Vulnerability.unmarked =
      (unmarkedReport dedupe xs a time rules).created := by
    rw [h.created, map_mapIdx_of_forall hopened]
    rfl
  ProcessReport.ext h.assessmentId h.evaluated_present h.triggered hcreated h.skipped h.no_errors

/-- What a second report on the same rules says if every rule that opened something has it
pending. -/
theorem again (h : Accounts [] dedupe xs a time opened rules r)
    (k : Accounts [] true ys a time other rules s)
    (hfate : ∀ q ∈ rules, fateOf [] true ys a time q ≠ .created) :
    s = { r with created := [], skipped := r.triggered.length } := by
  have hnone : rules.filter (fateOf [] true ys a time · = .created) = [] := by
    simpa using hfate
  have hcreated : s.created = [] := by rw [k.created, hnone, List.mapIdx_nil]
  have htriggered : s.triggered = r.triggered := k.triggered.trans h.triggered.symm
  -- every rule that triggers is created, skipped or an error, and only skipping is left
  have hskipped : s.skipped = r.triggered.length := by
    have hbalanced := k.balanced
    rw [hcreated, k.no_errors, htriggered] at hbalanced
    simpa using hbalanced.symm
  exact ProcessReport.ext (k.assessmentId.trans h.assessmentId.symm)
    (k.evaluated_present.trans h.evaluated_present.symm) htriggered hcreated hskipped
    (k.no_errors.trans h.no_errors.symm)

end Engine.Assessments.Accounts

namespace View

variable {S : Type} {v : View S} {w u : World S} {a c : Assessment} {rule : Rule} {rules : List Rule}

theorem records_openings : (openings u a rules).records = rules.mapIdx (opening u a) :=
  List.ext_getElem (by simp [openings, Shelf.records]) (by simp [openings, Shelf.records])

/-- What rules have opened is pending for them, on the property of the assessment. -/
theorem isPending_openings (p : Value) : isPending (openings u a rules).records p rule =
    (rules.any fun q => decide (q.id = rule.id) && a.propertyId.equal p) := by
  -- ids and times do not tell whether something is pending, so a record's place does not matter
  have hany (ys : List Vulnerability) : isPending ys p rule =
      (ys.map fun x => decide (x.ruleId = rule.id) && x.propertyId.equal p &&
        (decide (x.status = .text Status.opened.name) ||
          decide (x.status = .text Status.inReview.name))).any id := by
    simp [isPending, List.any_map]
  rw [hany, records_openings, map_mapIdx_of_forall
    (h := fun q => decide (q.id = rule.id) && a.propertyId.equal p) fun _ _ => Bool.and_true _,
    List.any_map, Function.id_comp]

theorem isPending_adding {m : Memory} (p : Value) :
    isPending (m.adding (openings u a rules)).vulnerabilities.records p rule =
      (isPending m.vulnerabilities.records p rule ||
        rules.any fun q => decide (q.id = rule.id) && a.propertyId.equal p) := by
  rw [Memory.records_adding, isPending_append, isPending_openings]

/-- What was opened on one property is not pending on another. -/
theorem isPending_adding_apart {m : Memory} (h : a.propertyId.equal c.propertyId = false) :
    isPending (m.adding (openings u a rules)).vulnerabilities.records c.propertyId rule =
      isPending m.vulnerabilities.records c.propertyId rule := by
  simp [isPending_adding, h]

/-- A rule that has opened a vulnerability does not open another one, and one that has not
did not trigger or has one pending. -/
theorem fateOf_again {m : Memory} {dedupe : Bool} {instant : Option String}
    (hself : a.propertyId.equal a.propertyId = true) (hrule : rule ∈ rules) :
    fateOf [] true (m.adding (openings u a (rules.filter (fateOf [] dedupe
      m.vulnerabilities.records a instant · = .created)))).vulnerabilities.records a instant rule ≠
        .created := by
  intro hagain
  obtain ⟨hpresent, hholds, hpending⟩ := fateOf_eq_created.mp hagain
  rw [isPending_adding] at hpending
  -- nothing was pending before, so the rule opened one, and that one is pending now
  obtain ⟨hold, hnew⟩ := Bool.or_eq_false_iff.mp (Bool.eq_false_iff.mpr fun h => hpending ⟨rfl, h⟩)
  have hfirst : fateOf [] dedupe m.vulnerabilities.records a instant rule = .created :=
    fateOf_eq_created.mpr ⟨hpresent, hholds, fun h => nomatch hold.symm.trans h.2⟩
  have hopened := List.any_eq_false.mp hnew rule
    (List.mem_filter.mpr ⟨hrule, decide_eq_true hfirst⟩)
  simp [hself] at hopened

/-! ## One call -/

/-- An assessment of the store that is handed over, by its id or as it is, to be judged
at a time, while no rule that takes part comes to compare a huge number. -/
structure Submits (v : View S) (w : World S) (a : Assessment) (source : AssessmentSource)
    (time : Option Value) (instant : Option String) : Prop where
  recorded : (v.records w.store).Records a
  source : source = .stored a.id ∨ source = .record a
  judgesAt : JudgesAt a time instant
  evaluates : ∀ r ∈ (v.records w.store).rules.records, isPresent instant r = true →
    ∃ t, r.tree.evaluate a.observations = .ok t

variable {source : AssessmentSource} {time : Option Value} {instant : Option String}
  {dedupe : Bool} {report : ProcessReport} {w' : World S}

/-- What was opened is what the store has gained. -/
theorem Processed.gained (h : v.Processed w a dedupe instant rules report w') :
    ∃ opened, v.records w'.store = (v.records w.store).adding (openings w a opened) ∧
      (openings w a opened).records = report.created :=
  ⟨_, h.becomes.records, by rw [records_openings, h.accounts.created]⟩

/-- The clock may be set between two calls. -/
theorem Steady.tick (h : v.Steady w) (clock : Time.Stamp) : v.Steady { w with clock } :=
  ⟨⟨h.ready.whole, h.ready.kept⟩, ⟨h.supplied.injective, h.supplied.plain, h.supplied.unused⟩,
    h.stamped⟩

theorem Submits.congr (h : v.Submits w a source time instant)
    (ha : (v.records u.store).assessments = (v.records w.store).assessments)
    (hr : (v.records u.store).rules = (v.records w.store).rules) :
    v.Submits u a source time instant where
  recorded := by
    unfold Memory.Records
    rw [ha]
    exact h.recorded
  source := h.source
  judgesAt := h.judgesAt
  evaluates := hr ▸ h.evaluates

variable (law : v.Lawful)
include law

theorem run_submitted (hw : v.Steady w)
    (hwindows : ∀ r ∈ (v.records w.store).rules.records, r.window.Readable)
    (h : v.Submits w a source time instant) (dedupe : Bool)
    (hlist : (v.storage.perform .listRules).run w = (.ok rules, w)) :
    ∃ report w', (processWhen v.storage dedupe source time).run w = (.ok report, w') ∧
      v.Processed w a dedupe instant rules report w' := by
  obtain ⟨i, hid, hget⟩ := h.recorded
  exact run_processWhen_listed law ⟨hw, hid, hget⟩ dedupe (hid ▸ h.source) h.judgesAt hwindows
    h.evaluates hlist

/-- Two assessments are processed one after the other, and the second one is of another
property. -/
theorem run_both (hw : v.Steady w)
    (hwindows : ∀ r ∈ (v.records w.store).rules.records, r.window.Readable)
    {other : AssessmentSource} {when : Option Value} {moment : Option String}
    (ha : v.Submits w a source time instant) (hc : v.Submits w c other when moment)
    (hapart : a.propertyId.equal c.propertyId = false) (dedupe : Bool)
    (hlist : ∀ u : World S, v.Ready u → (v.records u.store).rules = (v.records w.store).rules →
      (v.storage.perform .listRules).run u = (.ok rules, u)) (clock later : Time.Stamp) :
    ∃ r s w₁ w₂,
      (processWhen v.storage dedupe source time).run { w with clock } = (.ok r, w₁) ∧
      (processWhen v.storage dedupe other when).run { w₁ with clock := later } = (.ok s, w₂) ∧
      r.unmarked = unmarkedReport dedupe (v.records w.store).vulnerabilities.records a instant
        rules ∧
      s.unmarked = unmarkedReport dedupe (v.records w.store).vulnerabilities.records c moment
        rules ∧
      v.Steady w₂ ∧ ∃ more : Shelf Key Vulnerability,
        v.records w₂.store = (v.records w.store).adding more ∧
        more.records = r.created ++ s.created := by
  obtain ⟨r, w₁, hrun, h⟩ := run_submitted law (hw.tick clock) hwindows (ha.congr rfl rfl) dedupe
    (hlist _ (hw.tick clock).ready rfl)
  obtain ⟨opened, hrecords, hcreated⟩ := h.gained
  have hrules : (v.records w₁.store).rules = (v.records w.store).rules := by rw [hrecords]; rfl
  obtain ⟨s, w₂, hrun₂, k⟩ := run_submitted law (h.steady.tick later)
    (by rw [show (v.records _).rules = _ from hrules]; exact hwindows)
    (hc.congr (by rw [show v.records _ = _ from hrecords]; rfl) hrules) dedupe
    (hlist _ (h.steady.tick later).ready hrules)
  obtain ⟨others, hrecords₂, hcreated₂⟩ := k.gained
  have hsecond := k.accounts.unmarked_eq fun _ _ => rfl
  simp only [hrecords] at hrecords₂ hsecond
  -- the second report is as if the first assessment had not been processed
  rw [unmarkedReport_congr fun q => isPending_adding_apart hapart] at hsecond
  exact ⟨r, s, w₁, w₂, hrun, hrun₂, h.accounts.unmarked_eq fun _ _ => rfl, hsecond, k.steady, _,
    hrecords₂.trans (Memory.adding_adding ..),
    List.map_append.trans (congrArg₂ _ hcreated hcreated₂)⟩

end View

/-- Two stores have come to hold the same, up to the ids and times of what they gained. -/
def Memory.GainAlike (m n n' : Memory) : Prop :=
  ∃ more more', n = m.adding more ∧ n' = m.adding more' ∧
    (more.records.map Vulnerability.unmarked).Perm (more'.records.map Vulnerability.unmarked)

namespace Backing

variable {b : Backing} {w : World b.Store} {a c : Assessment} {source other : AssessmentSource}
  {time : Option Value} {instant : Option String}

/-- An assessment that has been processed triggers the same rules again, and opens nothing. -/
theorem process_again (hw : b.view.Steady w)
    (hwindows : ∀ r ∈ (b.view.records w.store).rules.records, r.window.Readable)
    (ha : b.view.Submits w a source time instant) (hother : b.view.Submits w a other time instant)
    (hself : a.propertyId.equal a.propertyId = true) (dedupe : Bool) :
    ∃ report w', (processWhen b.storage dedupe source time).run w = (.ok report, w') ∧
      ∀ clock, (processWhen b.storage true other time).run { w' with clock } =
        (.ok { report with created := [], skipped := report.triggered.length },
          { w' with clock }) := by
  rw [← b.view_storage]
  obtain ⟨report, w', hrun, h⟩ :=
    View.run_submitted b.lawful hw hwindows ha dedupe (b.run_listRules (b.rulesInOrder_of_ready hw.ready))
  refine ⟨report, w', hrun, fun clock => ?_⟩
  have hrules : (b.view.records w'.store).rules = (b.view.records w.store).rules := by
    rw [h.becomes.records]
    rfl
  obtain ⟨again, w'', hrun', k⟩ := View.run_submitted b.lawful (h.steady.tick clock)
    (by rw [show (b.view.records _).rules = _ from hrules]; exact hwindows)
    (hother.congr (by rw [show b.view.records _ = _ from h.becomes.records]; rfl) hrules) true
    (hrules ▸ b.run_listRules (b.rulesInOrder_of_ready (h.steady.tick clock).ready))
  have hagain := h.accounts.again k.accounts fun q hq => by
    rw [show b.view.records _ = _ from h.becomes.records]
    exact View.fateOf_again hself hq
  have hstill := k.still (congrArg ProcessReport.created hagain)
  rw [hrun', hagain, hstill]

/-- Two calls come to the same in either order, whenever they are made: their reports, and
the store, agree up to the ids and times of what is opened. -/
def Commute (b : Backing) (w : World b.Store) (x y : Op (World b.Store) ProcessReport) : Prop :=
  ∀ t₁ t₂ t₃ t₄ : Time.Stamp, ∃ r s r' s' w₁ w₂ u₁ u₂,
    x.run { w with clock := t₁ } = (.ok r, w₁) ∧ y.run { w₁ with clock := t₂ } = (.ok s, w₂) ∧
    y.run { w with clock := t₃ } = (.ok s', u₁) ∧ x.run { u₁ with clock := t₄ } = (.ok r', u₂) ∧
    r.unmarked = r'.unmarked ∧ s.unmarked = s'.unmarked ∧
    b.view.Steady w₂ ∧ b.view.Steady u₂ ∧
    (b.view.records w.store).GainAlike (b.view.records w₂.store) (b.view.records u₂.store)

/-- Assessments of different properties do not meet in what they open. -/
theorem process_commute (hw : b.view.Steady w)
    (hwindows : ∀ r ∈ (b.view.records w.store).rules.records, r.window.Readable)
    {when : Option Value} {moment : Option String}
    (ha : b.view.Submits w a source time instant) (hc : b.view.Submits w c other when moment)
    (hac : a.propertyId.equal c.propertyId = false) (hca : c.propertyId.equal a.propertyId = false)
    (dedupe : Bool) :
    b.Commute w (processWhen b.storage dedupe source time)
      (processWhen b.storage dedupe other when) := by
  intro t₁ t₂ t₃ t₄
  rw [← b.view_storage]
  have hlist (u : World b.Store) (hu : b.view.Ready u)
      (hrules : (b.view.records u.store).rules = (b.view.records w.store).rules) :=
    hrules ▸ b.run_listRules (b.rulesInOrder_of_ready hu)
  obtain ⟨r, s, w₁, w₂, hr, hs, hrw, hsw, hw₂, more, hmore, hrecords⟩ :=
    View.run_both b.lawful hw hwindows ha hc hac dedupe hlist t₁ t₂
  obtain ⟨s', r', u₁, u₂, hs', hr', hsu, hru, hu₂, more', hmore', hrecords'⟩ :=
    View.run_both b.lawful hw hwindows hc ha hca dedupe hlist t₃ t₄
  have hrr : r.unmarked = r'.unmarked := hrw.trans hru.symm
  have hss : s.unmarked = s'.unmarked := hsw.trans hsu.symm
  refine ⟨r, s, r', s', w₁, w₂, u₁, u₂, hr, hs, hs', hr', hrr, hss, hw₂, hu₂, more, more', hmore,
    hmore', ?_⟩
  -- both orders have gained the same two lists, one after the other
  have hcreated : r.created.map Vulnerability.unmarked = r'.created.map Vulnerability.unmarked :=
    congrArg ProcessReport.created hrr
  have hcreated' : s.created.map Vulnerability.unmarked = s'.created.map Vulnerability.unmarked :=
    congrArg ProcessReport.created hss
  rw [hrecords, hrecords', List.map_append, List.map_append, hcreated, hcreated']
  exact List.perm_append_comm

/-- Processing an assessment once more finds everything done, and assessments of different
properties may be processed in either order. -/
theorem processing_repeats_and_commutes (hw : b.view.Steady w)
    (hwindows : ∀ r ∈ (b.view.records w.store).rules.records, r.window.Readable) :
    (∀ {a source other time instant}, b.view.Submits w a source time instant →
      b.view.Submits w a other time instant → a.propertyId.equal a.propertyId = true →
      ∀ dedupe, ∃ report w', (processWhen b.storage dedupe source time).run w = (.ok report, w') ∧
        ∀ clock, (processWhen b.storage true other time).run { w' with clock } =
          (.ok { report with created := [], skipped := report.triggered.length },
            { w' with clock })) ∧
    (∀ {a c source other time instant when moment}, b.view.Submits w a source time instant →
      b.view.Submits w c other when moment → a.propertyId.equal c.propertyId = false →
      c.propertyId.equal a.propertyId = false → ∀ dedupe,
      b.Commute w (processWhen b.storage dedupe source time)
        (processWhen b.storage dedupe other when)) :=
  ⟨fun ha hother hself dedupe => process_again hw hwindows ha hother hself dedupe,
    fun ha hc hac hca dedupe => process_commute hw hwindows ha hc hac hca dedupe⟩

/-! ## Two homes -/

/-- Water was observed in two homes, of which one has leaked before. -/
def homes : World Memory :=
  { leaks with
    store := { leaks.store with
      assessments := leaks.store.assessments.put (.text "x")
        ⟨.text "x", .int 8, [{ typeId := "water", value := .text "yes" }],
          .text "2024-01-02T00:00:00+00:00"⟩ }
    issued := 1 }

theorem steady_homes : memory.view.Steady homes :=
  steady_leaks.put_assessment rfl trivial rfl ⟨trivial, rfl, rfl, rfl, by decide⟩

theorem submits_homes {a : Assessment} {s : String}
    (ha : homes.store.assessments.get? (.text s) = some a) (hid : a.id = .text s)
    (hos : a.observations = [{ typeId := "water", value := .text "yes" }]) :
    memory.view.Submits homes a (.stored (.text s)) none none where
  recorded := ⟨s, hid, ha⟩
  source := .inl (congrArg _ hid.symm)
  judgesAt := .ever
  evaluates r hr _ := by
    have hmem : r ∈ [waterRule "leak", waterRule "flood"] := hr
    rw [hos]
    rcases List.mem_pair.mp hmem with rfl | rfl <;> exact ⟨true, by decide +kernel⟩

/-- Both rules trigger on the first home, once for a leak that is known and once for a new one,
and then for two that are known. The second home can be processed before or after it. -/
theorem process_homes :
    (∃ report w', (process Memory.storage true (.stored (.text "a"))).run homes =
        (.ok report, w') ∧
      report.triggered = [.text "leak", .text "flood"] ∧ report.created.length = 1 ∧
      report.skipped = 1 ∧
      (process Memory.storage true (.stored (.text "a"))).run w' =
        (.ok { report with created := [], skipped := 2 }, w')) ∧
    memory.Commute homes (process Memory.storage true (.stored (.text "a")))
      (process Memory.storage true (.stored (.text "x"))) := by
  have hwindows : ∀ r ∈ (memory.view.records homes.store).rules.records, r.window.Readable := by
    intro r hr
    have hmem : r ∈ [waterRule "leak", waterRule "flood"] := hr
    rcases List.mem_pair.mp hmem with rfl | rfl <;> exact readable_waterRule _
  obtain ⟨hrepeats, hcommutes⟩ := processing_repeats_and_commutes (b := .memory) steady_homes hwindows
  have hfirst := submits_homes (s := "a") rfl rfl rfl
  have hsecond := submits_homes (s := "x") rfl rfl rfl
  refine ⟨?_, hcommutes hfirst hsecond (by decide +kernel) (by decide +kernel) true⟩
  obtain ⟨report, w', hrun, hagain⟩ := hrepeats hfirst hfirst (by decide +kernel) true
  obtain ⟨_, _, hrun', h⟩ := View.run_submitted memory.lawful steady_homes hwindows hfirst true
    (memory.run_listRules (memory.rulesInOrder_of_ready steady_homes.ready))
  cases hrun.symm.trans hrun'
  have htriggered : report.triggered = [.text "leak", .text "flood"] := by
    rw [h.accounts.triggered]
    decide +kernel
  have hcreated : report.created.length = 1 := by
    rw [h.accounts.created]
    decide +kernel
  have hskipped : report.skipped = 1 := by
    rw [h.accounts.skipped]
    decide +kernel
  refine ⟨report, w', hrun, htriggered, hcreated, hskipped, (hagain w'.clock).trans ?_⟩
  rw [htriggered]
  rfl

end Backing

end PropertyRisk
