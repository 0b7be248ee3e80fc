import FilterQuery.Engine
import FilterQuery.Proofs.AnalyzerSteps

namespace FilterQuery

namespace Analyzer

variable {a : Analyzer} {q : CompiledQuery} {handle : Option Handle} {h : Handle}

-- The backend can plan the query: it is the query's own, and one whose plans are read.
def Plans (h : Handle) (q : CompiledQuery) : Prop :=
  h.adapter = q.adapter ∧ (q.adapter = .postgres ∨ q.adapter = .mySql)

theorem hasPlanner_iff (a : Adapter) : a.hasPlanner = true ↔ a = .postgres ∨ a = .mySql := by
  cases a <;> decide

theorem planner_iff : planner? q handle = some h ↔ handle = some h ∧ Plans h q := by
  unfold planner? Plans
  cases handle with
  | none => exact ⟨nofun, nofun⟩
  | some given =>
    dsimp only
    split
    case isTrue able =>
      rw [Bool.and_eq_true, beq_iff_eq, hasPlanner_iff] at able
      refine ⟨?_, And.left⟩
      rintro ⟨⟩
      exact ⟨rfl, able.2, able.1⟩
    case isFalse unable =>
      refine ⟨nofun, ?_⟩
      rintro ⟨⟨⟩, own, able⟩
      refine absurd ?_ unable
      rw [Bool.and_eq_true, beq_iff_eq, hasPlanner_iff]
      exact ⟨able, own⟩

-- From the plan, or from the shape where no plan is to be had.
inductive Computed (settings : ComplexitySettings) (q : CompiledQuery) (handle : Option Handle) : Analysis → Prop where
  | planned (h : Handle) (plan : Json) (summary : PlanSummary) : handle = some h → Plans h q →
      h.explain = .ok plan → PlanSummary.ofExplain q.adapter plan = .ok summary →
      Computed settings q handle (summary.analysis settings)
  | unplanned : (∀ h, handle = some h → ¬ Plans h q) → Computed settings q handle (q.heuristic settings)
  | unexplained (h : Handle) (e : ProbeError) : handle = some h → Plans h q → h.explain = .error e →
      Computed settings q handle (q.heuristic settings)
  | unparsed (h : Handle) (plan : Json) (e : ProbeError) : handle = some h → Plans h q → h.explain = .ok plan →
      PlanSummary.ofExplain q.adapter plan = .error e → Computed settings q handle (q.heuristic settings)

theorem compute_unplanned (unable : planner? q handle = none) : a.compute q handle = (q.heuristic a.settings, []) := by
  rw [compute, unable]

theorem compute_explained (able : planner? q handle = some h) {analysis : Analysis}
    (explained : a.explained q.adapter h = .ok analysis) : a.compute q handle = (analysis, [.explain]) := by
  simp only [compute, able, explained]

theorem compute_failed (able : planner? q handle = some h) {e : ProbeError}
    (failed : a.explained q.adapter h = .error e) : a.compute q handle = (q.heuristic a.settings, [.explain]) := by
  simp only [compute, able, failed]

theorem compute_computed (a : Analyzer) (q : CompiledQuery) (handle : Option Handle) :
    Computed a.settings q handle (a.compute q handle).1 := by
  cases able : planner? q handle with
  | none =>
    rw [compute_unplanned able]
    exact .unplanned fun h given plans => nomatch able.symm.trans (planner_iff.mpr ⟨given, plans⟩)
  | some h =>
    obtain ⟨given, plans⟩ := planner_iff.mp able
    cases asked : h.explain with
    | error e =>
      have failed : a.explained q.adapter h = .error e := by rw [explained, asked]; rfl
      rw [compute_failed able failed]
      exact .unexplained h e given plans asked
    | ok plan =>
      cases read : PlanSummary.ofExplain q.adapter plan with
      | error e =>
        have failed : a.explained q.adapter h = .error e := by
          simp only [explained, asked, bind, Except.bind, read]
        rw [compute_failed able failed]
        exact .unparsed h plan e given plans asked read
      | ok summary =>
        have told : a.explained q.adapter h = .ok (summary.analysis a.settings) := by
          simp only [explained, asked, bind, Except.bind, read]
          rfl
        rw [compute_explained able told]
        exact .planned h plan summary given plans asked read

theorem compute_calls (a : Analyzer) (q : CompiledQuery) (handle : Option Handle) :
    (a.compute q handle).2 = if (planner? q handle).isSome then [.explain] else [] := by
  cases able : planner? q handle with
  | none => rw [compute_unplanned able]; rfl
  | some h =>
    cases outcome : a.explained q.adapter h with
    | ok analysis => rw [compute_explained able outcome]; rfl
    | error e => rw [compute_failed able outcome]; rfl

theorem analyze_calls (a : Analyzer) (now : Nat) (q : CompiledQuery) (handle : Option Handle) :
    (a.analyze now q handle).calls =
      if (planner? q handle).isSome ∧ a.fresh? now (cacheKey q.adapter q.render) = none then [.explain] else [] := by
  have outcome := a.analyze_outcome now q handle
  generalize a.analyze now q handle = step at outcome
  cases outcome with
  | served analysis next fresh =>
    rw [if_neg]
    rintro ⟨-, missing⟩
    cases fresh.symm.trans missing
  | computed next missing =>
    rw [compute_calls]
    simp only [missing, and_true]

theorem planner_isSome_iff : (planner? q handle).isSome ↔ ∃ h, handle = some h ∧ Plans h q :=
  Option.isSome_iff_exists.trans (exists_congr fun _ => planner_iff)

end Analyzer

-- A step brings its backend with the answers that it has at that step.
inductive CheckStep where
  | detect (h : Handle)
  | check (q : CompiledQuery) (h : Handle)
  | checkUnder (q : CompiledQuery) (load : Load) (handle : Option Handle)
  | analyze (q : CompiledQuery) (handle : Option Handle)
  | wait (time : Nat)
  -- Which expired analysis makes room may change at any time.
  | recycle (r : Recycling)

-- The query that is analyzed, and the backend for it. Checks that are off analyze nothing.
def CheckStep.analyzes (enabled : Bool) : CheckStep → Option (CompiledQuery × Option Handle)
  | check q h => if enabled then some (q, some h) else none
  | checkUnder q _ handle => if enabled then some (q, handle) else none
  | analyze q handle => some (q, handle)
  | detect _ | wait _ | recycle _ => none

def CheckStep.asksLoad : CheckStep → Bool
  | check .. => true
  | _ => false

def CheckStep.time : CheckStep → Nat
  | wait time => time
  | _ => 0

def CheckStep.detected : CheckStep → List String
  | detect h => [h.key]
  | _ => []

inductive CheckAnswer where
  | capability (c : Capability)
  | checked (c : Check)
  | analyzed (a : Analysis)
  | done

def CheckAnswer.analysis? : CheckAnswer → Option Analysis
  | checked c => some c.analysis
  | analyzed a => some a
  | capability _ | done => none

def Analyzer.recycle (a : Analyzer) (r : Recycling) : Analyzer :=
  match a.cache with
  | some (.memory m) => { a with cache := some (.memory { m with recycling := r }) }
  | _ => a

theorem Analyzer.recycle_within (a : Analyzer) (r : Recycling) : a.Within (a.recycle r) fun _ _ => False := by
  obtain ⟨settings, _ | ⟨m⟩ | error⟩ := a
  · exact .refl ..
  · refine ⟨rfl, ?_, fun _ _ => .inr⟩
    intro timed next same
    cases same
    exact timed m rfl
  · exact .refl ..

namespace CapabilityCache

theorem detect_calls (c : CapabilityCache) (h : Handle) :
    (c.detect h).2.2 = if (c.get? h.key).isSome then [] else [.version] := by
  unfold detect
  cases c.get? h.key <;> rfl

theorem detect_known (c : CapabilityCache) (h : Handle) (key : String) :
    ((c.detect h).2.1.get? key).isSome ↔ key = h.key ∨ (c.get? key).isSome := by
  unfold detect
  cases found : c.get? h.key with
  | some capability =>
    refine ⟨.inr, ?_⟩
    rintro (rfl | there)
    · exact Option.isSome_of_eq_some found
    · exact there
  | none =>
    by_cases own : key = h.key
    · subst own
      exact iff_of_true (Option.isSome_of_eq_some (Table.get_insert_self ..)) (.inl rfl)
    · show ((c.entries.insert h.key _).get? key).isSome ↔ _
      rw [Table.get_insert_other _ own, or_iff_right own]
      rfl

end CapabilityCache

namespace Engine

-- The answer, the engine afterwards and what was asked of the backend.
def take (e : Engine) (now : Nat) : CheckStep → CheckAnswer × Engine × List Call
  | .detect h =>
    let (capability, next, calls) := e.detect h
    (.capability capability, next, calls)
  | .check q h =>
    let step := e.check now q h
    (.checked step.value, { e with analyzer := step.analyzer }, step.calls)
  | .checkUnder q load handle =>
    let step := e.checkUnder now q load handle
    (.checked step.value, { e with analyzer := step.analyzer }, step.calls)
  | .analyze q handle =>
    let step := e.analyzer.analyze now q handle
    (.analyzed step.value, { e with analyzer := step.analyzer }, step.calls)
  | .wait _ => (.done, e, [])
  | .recycle r => (.done, { e with analyzer := e.analyzer.recycle r }, [])

variable {e : Engine} (now : Nat) {t : CheckStep}

-- The steps that analyze do it alike; a check with a backend asks for the load first.
theorem take_analyzes {q : CompiledQuery} {handle : Option Handle}
    (analyzes : t.analyzes e.analyzer.settings.enabled = some (q, handle)) :
    let step := e.analyzer.analyze now q handle
    (e.take now t).1.analysis? = some step.value ∧
      (e.take now t).2.1 = { e with analyzer := step.analyzer } ∧
      (e.take now t).2.2 = if t.asksLoad then .load :: step.calls else step.calls := by
  cases t with
  | detect | wait | recycle => cases analyzes
  | check q h =>
    obtain ⟨enabled, same⟩ := Option.ite_none_right_eq_some.mp analyzes
    cases same
    simp [take, check, Analyzer.check, Analyzer.checkUnder, enabled, CheckAnswer.analysis?, ComplexitySettings.decide,
      CheckStep.asksLoad]
  | checkUnder q load h =>
    obtain ⟨enabled, same⟩ := Option.ite_none_right_eq_some.mp analyzes
    cases same
    simp [take, checkUnder, Analyzer.checkUnder, enabled, CheckAnswer.analysis?, ComplexitySettings.decide,
      CheckStep.asksLoad]
  | analyze q h =>
    cases analyzes
    exact ⟨rfl, rfl, rfl⟩

-- What a step asks of its backend for the sake of the capabilities.
def detecting (e : Engine) : CheckStep → List Call
  | .detect h => (e.capabilities.detect h).2.2
  | _ => []

-- The other steps leave what is kept of the analyses.
theorem take_rests (rests : t.analyzes e.analyzer.settings.enabled = none) :
    e.analyzer.Within (e.take now t).2.1.analyzer (fun _ _ => False) ∧ (e.take now t).2.2 = e.detecting t := by
  cases t with
  | detect | wait => exact ⟨.refl .., rfl⟩
  | recycle r => exact ⟨e.analyzer.recycle_within r, rfl⟩
  | check q h =>
    have disabled : e.analyzer.settings.enabled = false := by simpa [CheckStep.analyzes] using rests
    simp only [take, check, Analyzer.check, Analyzer.unchecked, disabled, Bool.false_eq_true, if_false]
    exact ⟨.refl .., rfl⟩
  | checkUnder q load h =>
    have disabled : e.analyzer.settings.enabled = false := by simpa [CheckStep.analyzes] using rests
    simp only [take, checkUnder, Analyzer.checkUnder, Analyzer.unchecked, disabled, Bool.false_eq_true, if_false]
    exact ⟨.refl .., rfl⟩
  | analyze => cases rests

theorem take_known (key : String) :
    ((e.take now t).2.1.capabilities.get? key).isSome ↔ key ∈ t.detected ∨ (e.capabilities.get? key).isSome := by
  cases t with
  | detect h =>
    rw [CheckStep.detected, List.mem_singleton]
    exact e.capabilities.detect_known h key
  | check | checkUnder | analyze | wait | recycle => exact (or_iff_right List.not_mem_nil).symm

end Engine

-- An analysis that was given, for which key and when.
structure GivenAnalysis where
  key : String
  analysis : Analysis
  givenAt : Nat

structure CheckRun where
  engine : Engine
  now : Nat
  given : List GivenAnalysis
  detected : List String

namespace CheckRun

def start (settings : Settings) (adapters : AdapterSet) : CheckRun := ⟨.new settings adapters, 0, [], []⟩

def answer (s : CheckRun) (t : CheckStep) : CheckAnswer := (s.engine.take s.now t).1

def calls (s : CheckRun) (t : CheckStep) : List Call := (s.engine.take s.now t).2.2

def fresh? (s : CheckRun) (q : CompiledQuery) : Option Analysis :=
  s.engine.analyzer.fresh? s.now (cacheKey q.adapter q.render)

-- What the step adds to the analyses given.
def gives (s : CheckRun) (t : CheckStep) : List GivenAnalysis :=
  match t.analyzes s.engine.analyzer.settings.enabled, (s.answer t).analysis? with
  | some (q, _), some analysis => [⟨cacheKey q.adapter q.render, analysis, s.now⟩]
  | _, _ => []

def step (s : CheckRun) (t : CheckStep) : CheckRun :=
  ⟨(s.engine.take s.now t).2.1, s.now + t.time, s.gives t ++ s.given, t.detected ++ s.detected⟩

def after (s : CheckRun) (steps : List CheckStep) : CheckRun := steps.foldl step s

-- Each analysis kept was given when it was stored, and each capability kept was detected.
structure Sound (s : CheckRun) (settings : ComplexitySettings) : Prop where
  settings : s.engine.analyzer.settings = settings
  timed : s.engine.analyzer.Timed
  vouched : ∀ key e, s.engine.analyzer.entry? key = some e →
    e.storedAt ≤ s.now ∧ ⟨key, e.analysis, e.storedAt⟩ ∈ s.given
  known : ∀ key, (s.engine.capabilities.get? key).isSome ↔ key ∈ s.detected

theorem start_sound (settings : Settings) (adapters : AdapterSet) :
    (start settings adapters).Sound settings.complexity := by
  have fresh : ∀ m, (Analyzer.new settings.complexity).cache = some (.memory m) → m = .ofSettings settings.complexity := by
    intro m cached
    obtain ⟨-, same⟩ := Option.ite_none_right_eq_some.mp cached
    cases same
    rfl
  refine ⟨rfl, fun m cached => fresh m cached ▸ rfl, ?_, fun _ => ⟨nofun, nofun⟩⟩
  intro key e found
  have empty : ∀ a : Analyzer, (∀ m, a.cache = some (.memory m) → m.entries = .empty) → a.entry? key = none := by
    rintro ⟨_, _ | ⟨m⟩ | _⟩ empty
    · rfl
    · exact congrArg (·.get? key) (empty m rfl)
    · rfl
  cases (empty (Analyzer.new settings.complexity) fun m cached => fresh m cached ▸ rfl).symm.trans found

variable {s : CheckRun} {settings : ComplexitySettings}

theorem step_sound (sound : s.Sound settings) (t : CheckStep) : (s.step t).Sound settings := by
  have known : ∀ key, ((s.step t).engine.capabilities.get? key).isSome ↔ key ∈ (s.step t).detected := by
    intro key
    rw [step, List.mem_append, ← sound.known key]
    exact Engine.take_known _ key
  cases analyzes : t.analyzes s.engine.analyzer.settings.enabled with
  | none =>
    obtain ⟨within, -⟩ := Engine.take_rests s.now analyzes
    refine ⟨within.settings.trans sound.settings, within.timed sound.timed, ?_, known⟩
    intro key e found
    obtain ⟨past, given⟩ := sound.vouched key e ((within.entries key e found).resolve_left id)
    exact ⟨Nat.le_trans past (Nat.le_add_right ..), List.mem_append_right _ given⟩
  | some analyzed =>
    obtain ⟨q, handle⟩ := analyzed
    obtain ⟨value, engine, -⟩ := Engine.take_analyzes s.now analyzes
    have within := s.engine.analyzer.analyze_within s.now q handle
    have gives : s.gives t = [⟨cacheKey q.adapter q.render, (s.engine.analyzer.analyze s.now q handle).value, s.now⟩] := by
      rw [CheckRun.gives, analyzes, answer, value]
    have analyzer : (s.step t).engine.analyzer = (s.engine.analyzer.analyze s.now q handle).analyzer := by
      rw [step, engine]
    refine ⟨analyzer ▸ within.settings.trans sound.settings, analyzer ▸ within.timed sound.timed, ?_, known⟩
    intro key e found
    rw [analyzer] at found
    rw [step, gives]
    rcases within.entries key e found with ⟨rfl, rfl⟩ | before
    · exact ⟨Nat.le_add_right .., List.mem_cons_self⟩
    · obtain ⟨past, given⟩ := sound.vouched key e before
      exact ⟨Nat.le_trans past (Nat.le_add_right ..), List.mem_cons_of_mem _ given⟩

theorem after_sound (sound : s.Sound settings) (steps : List CheckStep) : (s.after steps).Sound settings := by
  induction steps generalizing s with
  | nil => exact sound
  | cons t rest ih => exact ih (step_sound sound t)

-- The kind of answer that each step has.
def Answers : CheckStep → CheckAnswer → Prop
  | .detect _, answer => ∃ c, answer = .capability c
  | .check .., answer | .checkUnder .., answer => ∃ c, answer = .checked c
  | .analyze .., answer => ∃ a, answer = .analyzed a
  | .wait _, answer | .recycle _, answer => answer = .done

-- What one step does, whatever came before it and whatever fails at it.
structure Contract (s : CheckRun) (settings : ComplexitySettings) (t : CheckStep) : Prop where
  answered : Answers t (s.answer t)
  once : (s.calls t).Nodup
  loads : .load ∈ s.calls t ↔ settings.enabled = true ∧ ∃ q h, t = .check q h
  explains : .explain ∈ s.calls t ↔ ∃ q h, t.analyzes settings.enabled = some (q, some h) ∧ Analyzer.Plans h q ∧
    s.fresh? q = none
  versions : .version ∈ s.calls t ↔ ∃ h, t = .detect h ∧ h.key ∉ s.detected
  -- New, or given for the same key within the time that the cache keeps it.
  analyses : ∀ q handle, t.analyzes settings.enabled = some (q, handle) →
    ∃ analysis, (s.answer t).analysis? = some analysis ∧
      (s.fresh? q = none ∧ Analyzer.Computed settings q handle analysis ∨
        s.fresh? q = some analysis ∧ ∃ earlier ∈ s.given, earlier.key = cacheKey q.adapter q.render ∧
          earlier.analysis = analysis ∧ earlier.givenAt ≤ s.now ∧ s.now - earlier.givenAt < settings.cacheTtlMs)
  unchecked : settings.enabled = false → ∀ q, (∃ h, t = .check q h) ∨ (∃ load handle, t = .checkUnder q load handle) →
    (s.answer t).analysis? = some (q.heuristic settings)

theorem answers (s : CheckRun) (t : CheckStep) : Answers t (s.answer t) := by
  cases t with
  | detect | check | checkUnder | analyze => exact ⟨_, rfl⟩
  | wait | recycle => rfl

-- What a step that analyzes asks for, and what another step asks for.
theorem calls_of_analyzes (sound : s.Sound settings) {t : CheckStep} {q : CompiledQuery} {handle : Option Handle}
    (analyzes : t.analyzes settings.enabled = some (q, handle)) :
    s.calls t = (if t.asksLoad then [.load] else []) ++
      if (Analyzer.planner? q handle).isSome ∧ s.fresh? q = none then [.explain] else [] := by
  rw [← sound.settings] at analyzes
  obtain ⟨-, -, calls⟩ := Engine.take_analyzes s.now analyzes
  rw [CheckRun.calls, calls, Analyzer.analyze_calls]
  split <;> rfl

theorem calls_of_rests (sound : s.Sound settings) {t : CheckStep} (rests : t.analyzes settings.enabled = none) :
    s.calls t = s.engine.detecting t :=
  (Engine.take_rests s.now (sound.settings ▸ rests)).2

theorem mem_detecting_iff (sound : s.Sound settings) (t : CheckStep) (call : Call) :
    call ∈ s.engine.detecting t ↔ call = .version ∧ ∃ h, t = .detect h ∧ h.key ∉ s.detected := by
  cases t with
  | detect h =>
    have known := sound.known h.key
    rw [Engine.detecting, CapabilityCache.detect_calls]
    by_cases seen : h.key ∈ s.detected
    · simp [known.mpr seen, seen]
    · simp [mt known.mp seen, seen]
  | check | checkUnder | analyze | wait | recycle => simp [Engine.detecting]

theorem calls_once (sound : s.Sound settings) (t : CheckStep) : (s.calls t).Nodup := by
  cases analyzes : t.analyzes settings.enabled with
  | some analyzed =>
    rw [calls_of_analyzes sound analyzes]
    split <;> split <;> decide
  | none =>
    rw [calls_of_rests sound analyzes]
    cases t with
    | detect h =>
      rw [Engine.detecting, CapabilityCache.detect_calls]
      split <;> decide
    | check | checkUnder | analyze | wait | recycle => exact List.nodup_nil

theorem asksLoad_iff (t : CheckStep) : t.asksLoad = true ↔ ∃ q h, t = .check q h := by
  cases t with
  | check q h => exact iff_of_true rfl ⟨q, h, rfl⟩
  | detect | checkUnder | analyze | wait | recycle => simp [CheckStep.asksLoad]

theorem loads_iff (sound : s.Sound settings) (t : CheckStep) :
    .load ∈ s.calls t ↔ settings.enabled = true ∧ ∃ q h, t = .check q h := by
  cases analyzes : t.analyzes settings.enabled with
  | some analyzed =>
    obtain ⟨q, handle⟩ := analyzed
    have asked : .load ∈ s.calls t ↔ t.asksLoad = true := by
      rw [calls_of_analyzes sound analyzes]
      split <;> split <;> simp_all
    rw [asked, asksLoad_iff]
    refine ⟨?_, And.right⟩
    rintro ⟨q, h, rfl⟩
    exact ⟨(Option.ite_none_right_eq_some.mp analyzes).1, q, h, rfl⟩
  | none =>
    rw [calls_of_rests sound analyzes, mem_detecting_iff sound]
    refine iff_of_false (fun asked => nomatch asked.1) ?_
    rintro ⟨enabled, q, h, rfl⟩
    cases (if_pos enabled).symm.trans analyzes

theorem explains_iff (sound : s.Sound settings) (t : CheckStep) :
    .explain ∈ s.calls t ↔ ∃ q h, t.analyzes settings.enabled = some (q, some h) ∧ Analyzer.Plans h q ∧
      s.fresh? q = none := by
  cases analyzes : t.analyzes settings.enabled with
  | some analyzed =>
    obtain ⟨q, handle⟩ := analyzed
    have asked : .explain ∈ s.calls t ↔ (Analyzer.planner? q handle).isSome ∧ s.fresh? q = none := by
      rw [calls_of_analyzes sound analyzes]
      split <;> split <;> simp_all
    rw [asked, Analyzer.planner_isSome_iff]
    constructor
    · rintro ⟨⟨h, rfl, plans⟩, missing⟩
      exact ⟨q, h, rfl, plans, missing⟩
    · rintro ⟨_, h, same, plans, missing⟩
      cases same
      exact ⟨⟨h, rfl, plans⟩, missing⟩
  | none =>
    rw [calls_of_rests sound analyzes, mem_detecting_iff sound]
    refine iff_of_false (fun asked => nomatch asked.1) ?_
    rintro ⟨q, h, same, -⟩
    cases same

theorem versions_iff (sound : s.Sound settings) (t : CheckStep) :
    .version ∈ s.calls t ↔ ∃ h, t = .detect h ∧ h.key ∉ s.detected := by
  cases analyzes : t.analyzes settings.enabled with
  | some analyzed =>
    rw [calls_of_analyzes sound analyzes]
    refine iff_of_false ?_ ?_
    · split <;> split <;> decide
    · rintro ⟨h, rfl, -⟩
      cases analyzes
  | none => rw [calls_of_rests sound analyzes, mem_detecting_iff sound, and_iff_right rfl]

theorem analyzes_given (sound : s.Sound settings) {t : CheckStep} {q : CompiledQuery} {handle : Option Handle}
    (analyzes : t.analyzes settings.enabled = some (q, handle)) :
    ∃ analysis, (s.answer t).analysis? = some analysis ∧
      (s.fresh? q = none ∧ Analyzer.Computed settings q handle analysis ∨
        s.fresh? q = some analysis ∧ ∃ earlier ∈ s.given, earlier.key = cacheKey q.adapter q.render ∧
          earlier.analysis = analysis ∧ earlier.givenAt ≤ s.now ∧ s.now - earlier.givenAt < settings.cacheTtlMs) := by
  have stepped := Engine.take_analyzes s.now (sound.settings ▸ analyzes)
  refine ⟨_, stepped.1, ?_⟩
  have outcome := s.engine.analyzer.analyze_outcome s.now q handle
  generalize s.engine.analyzer.analyze s.now q handle = step at outcome
  cases outcome with
  | computed next missing =>
    exact .inl ⟨missing, sound.settings ▸ s.engine.analyzer.compute_computed q handle⟩
  | served analysis next fresh =>
    obtain ⟨e, kept, rfl, young⟩ := Analyzer.fresh_entry sound.timed fresh
    obtain ⟨past, given⟩ := sound.vouched _ e kept
    exact .inr ⟨fresh, _, given, rfl, rfl, past, sound.settings ▸ young⟩

theorem unchecked_given (sound : s.Sound settings) (disabled : settings.enabled = false) {t : CheckStep}
    {q : CompiledQuery} (checks : (∃ h, t = .check q h) ∨ ∃ load handle, t = .checkUnder q load handle) :
    (s.answer t).analysis? = some (q.heuristic settings) := by
  rw [← sound.settings] at disabled ⊢
  rcases checks with ⟨h, rfl⟩ | ⟨load, handle, rfl⟩
  · simp [answer, Engine.take, Engine.check, Analyzer.check, Analyzer.unchecked, disabled, CheckAnswer.analysis?]
  · simp [answer, Engine.take, Engine.checkUnder, Analyzer.checkUnder, Analyzer.unchecked, disabled,
      CheckAnswer.analysis?]

theorem checks_keep_contract (settings : Settings) (adapters : AdapterSet) (steps : List CheckStep) (t : CheckStep) :
    ((start settings adapters).after steps).Contract settings.complexity t := by
  have sound := after_sound (start_sound settings adapters) steps
  exact ⟨answers _ t, calls_once sound t, loads_iff sound t, explains_iff sound t, versions_iff sound t,
    fun _ _ => analyzes_given sound, fun disabled _ => unchecked_given sound disabled⟩

end CheckRun
end FilterQuery
