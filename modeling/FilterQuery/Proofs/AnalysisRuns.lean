import FilterQuery.Complexity.Shape
import FilterQuery.Proofs.AnalyzerSteps
import FilterQuery.Proofs.CountedQueries
import FilterQuery.Proofs.KeyBytes
import FilterQuery.Proofs.QueryKinds

namespace FilterQuery

theorem Select.values_build (d : Dialect) (s : Select) :
    (s.build d).values = (s.written d).filter fun v => !v.isNull := by
  let start : Draft := .empty
  have empty : start.Level := rfl
  have held : (s.build d).values = (start.putAll (Render.select d s)).values :=
    (Draft.putAll_numbered d.placeholder_tight (Render.select d s) empty rfl rfl).1
  rw [held, Draft.values_putAll, Render.values_select]
  rfl

theorem Dialect.pageValues_bound (d : Dialect) (limit offset : Option Nat) :
    (d.pageValues limit offset).filter (fun v => !v.isNull) = d.pageValues limit offset := by
  cases d <;> cases limit <;> cases offset <;> rfl

-- The counts of the page come last.
theorem Select.page_last (d : Dialect) (s : Select) :
    ∃ before, (s.build d).values = before ++ d.pageValues s.limit s.offset := by
  obtain ⟨table, binding, columns, joins, conditions, orders, limit, offset⟩ := s
  rw [values_build, written, Expr.selectWritten, List.filter_append, Dialect.pageValues_bound]
  exact ⟨_, rfl⟩

-- Parameters of one text have the same counts last, if they have as many.
theorem tails_of_paramsText {before before' counts counts' : List Value} (length : counts.length = counts'.length)
    (same : paramsText (before ++ counts) = paramsText (before' ++ counts')) :
    counts.map (fun v => v.serial.settled) = counts'.map fun v => v.serial.settled := by
  have serials : ∀ values, Value.listSerial values = values.map Value.serial := by
    intro values
    induction values with
    | nil => rfl
    | cons v rest ih => rw [Value.listSerial, ih, List.map_cons]
  injection Json.text_settled same with items
  rw [Json.settledItems_eq, Json.settledItems_eq, serials, serials, List.map_map, List.map_map, List.map_append,
    List.map_append] at items
  exact (List.append_inj' items (by simpa using length)).2

-- A count is told as far as its column goes.
theorem rowCount_settled {m n : Nat} (same : (rowCount m).serial.settled = (rowCount n).serial.settled) :
    min m greatestInt64.toNat = min n greatestInt64.toNat := by
  have kept : ∀ n, (Int64.ofNat (min n greatestInt64.toNat)).toInt = (min n greatestInt64.toNat : Nat) := by
    intro n
    refine Int64.toInt_ofNat_of_lt ?_
    have bound : greatestInt64.toNat < Nat.pow 2 63 := by decide
    exact Nat.lt_of_le_of_lt (Nat.min_le_right ..) bound
  injection same with members
  injection (List.cons.inj members).1 with _ number
  injection number with number
  injection number with number
  rw [kept, kept] at number
  exact Int.ofNat.inj number

namespace QueryShape

-- The offset counts as far as its column goes, and none counts as none.
theorem largeOffset_exact {threshold : Nat} (positive : 0 < threshold) (small : threshold ≤ greatestInt64.toNat)
    (s : QueryShape) : s.hasLargeOffset threshold = decide (threshold ≤ min (s.offset.getD 0) greatestInt64.toNat) := by
  unfold hasLargeOffset
  split
  · rename_i n given
    rw [given, Option.getD_some]
    simp [small]
  · rename_i missing
    rw [missing, Option.getD_none, Nat.zero_min]
    simp [Nat.pos_iff_ne_zero.mp positive]

-- What the heuristic looks at.
theorem analysis_eq {s t : QueryShape} {settings : ComplexitySettings} (predicates : s.predicates = t.predicates)
    (joins : s.joins = t.joins) (limit : s.limit.isSome = t.limit.isSome) (ordered : s.ordered = t.ordered)
    (offset : s.hasLargeOffset settings.largeOffset = t.hasLargeOffset settings.largeOffset) :
    s.analysis settings = t.analysis settings := by
  have points : s.points Float.ofNat settings.largeOffset = t.points Float.ofNat settings.largeOffset := by
    unfold QueryShape.points
    rw [predicates, joins, ordered, offset]
    cases given : s.limit <;> cases given' : t.limit <;> simp_all
  have advice : s.limitAdvice = t.limitAdvice := by
    unfold limitAdvice
    rw [ordered]
    cases given : s.limit <;> cases given' : t.limit <;> simp_all
  unfold analysis suggestions
  rw [points, advice, offset, joins]

end QueryShape

-- The counts of a page tell how far its offset goes; SQL Server writes no offset as one of zero.
theorem Dialect.offset_of_pageValues (d : Dialect) {limit limit' offset offset' : Option Nat}
    (same : limit.isSome = limit'.isSome)
    (values : (d.pageValues limit offset).map (fun v => v.serial.settled) =
      (d.pageValues limit' offset').map fun v => v.serial.settled) :
    min (offset.getD 0) greatestInt64.toNat = min (offset'.getD 0) greatestInt64.toNat := by
  cases d <;> cases limit <;> cases limit' <;> cases same <;> cases offset <;> cases offset' <;> first
    | rfl
    | exact rowCount_settled (List.cons.inj (List.cons.inj values).2).1
    | exact rowCount_settled (List.cons.inj values).1
    | cases congrArg List.length values

-- Queries of one backend, text and parameters have one analysis.
theorem CompiledQuery.heuristic_of_render {q r : CompiledQuery} {settings : ComplexitySettings}
    (countable : q.Countable) (countable' : r.Countable) (frank : ∀ request, q = .search request → request.Frank)
    (frank' : ∀ request, r = .search request → request.Frank) (positive : 0 < settings.largeOffset)
    (small : settings.largeOffset ≤ greatestInt64.toNat) (adapters : q.adapter = r.adapter)
    (texts : q.render.text = r.render.text) (params : paramsText q.render.params = paramsText r.render.params) :
    q.heuristic settings = r.heuristic settings := by
  cases q with
  | sql d s =>
    cases r with
    | search request => cases d <;> cases adapters
    | sql d' t =>
      obtain rfl : d = d' := by cases d <;> cases d' <;> first | rfl | cases adapters
      obtain ⟨predicates, joins, orders, limit, page⟩ := Select.Woven.counts_of_text countable countable' texts
      obtain ⟨before, values⟩ := s.page_last d
      obtain ⟨before', values'⟩ := t.page_last d
      have params : paramsText (s.build d).values = paramsText (t.build d).values := params
      rw [values, values'] at params
      have offsets := d.offset_of_pageValues limit (tails_of_paramsText page params)
      refine QueryShape.analysis_eq predicates joins limit ?_ ?_
      · show (!s.orders.isEmpty) = !t.orders.isEmpty
        cases first : s.orders <;> cases first' : t.orders <;> simp_all
      · rw [QueryShape.largeOffset_exact positive small, QueryShape.largeOffset_exact positive small]
        exact congrArg (fun n => decide (_ ≤ n)) offsets
  | search request =>
    cases r with
    | sql d t => cases d <;> cases adapters
    | search request' =>
      obtain ⟨leaves, nested, sorted, from_, size⟩ :=
        SearchRequest.counts_of_text countable countable' (frank _ rfl) (frank' _ rfl) texts
      refine QueryShape.analysis_eq leaves nested (congrArg Option.isSome size) (congrArg (!·) sorted) ?_
      exact congrArg (fun offset => QueryShape.hasLargeOffset settings.largeOffset ⟨0, 0, none, offset, false⟩) from_

-- Nothing that counts stands beside a condition that no document meets; SQL writes every condition.
def CompiledQuery.Frank : CompiledQuery → Prop
  | sql _ _ => True
  | search r => r.Frank

theorem CompiledQuery.Frank.request {q : CompiledQuery} (frank : q.Frank) :
    ∀ request, q = .search request → request.Frank := by
  rintro request rfl
  exact frank

namespace Analyzer

variable {a : Analyzer} {settings : ComplexitySettings}

-- Each query at its own time.
def analyses (a : Analyzer) : List (Nat × CompiledQuery) → List Analysis
  | [] => []
  | (now, q) :: rest =>
    let step := a.analyze now q none
    step.value :: step.analyzer.analyses rest

-- What is kept is what the shape of some good query with that key gives.
def Kept (settings : ComplexitySettings) (good : CompiledQuery → Prop) (a : Analyzer) : Prop :=
  ∀ key e, a.entry? key = some e → ∃ q, good q ∧ key = cacheKey q.adapter q.render ∧ e.analysis = q.heuristic settings

theorem entry_of_fresh {now : Nat} {key : String} {analysis : Analysis} (fresh : a.fresh? now key = some analysis) :
    ∃ e, a.entry? key = some e ∧ e.analysis = analysis := by
  obtain ⟨own, _ | ⟨m⟩ | error⟩ := a
  · cases fresh
  · obtain ⟨e, found, same, -⟩ := MemoryCache.fresh_entry fresh
    exact ⟨e, found, same⟩
  · cases fresh

-- One analysis gives what the shape of its query gives, and keeps no other.
theorem analyze_kept {good : CompiledQuery → Prop} (own : a.settings = settings)
    (alike : ∀ q r, good q → good r → cacheKey q.adapter q.render = cacheKey r.adapter r.render →
      q.heuristic settings = r.heuristic settings)
    (kept : a.Kept settings good) (now : Nat) {q : CompiledQuery} (known : good q) :
    (a.analyze now q none).value = q.heuristic settings ∧ (a.analyze now q none).analyzer.settings = settings ∧
      (a.analyze now q none).analyzer.Kept settings good := by
  have computed : (a.compute q none).1 = q.heuristic settings := by
    rw [← own]
    rfl
  have value : (a.analyze now q none).value = q.heuristic settings := by
    have outcome := a.analyze_outcome now q none
    generalize a.analyze now q none = step at outcome
    cases outcome with
    | served analysis next fresh within =>
      -- What was kept is of another query with this key, and that gives the same.
      obtain ⟨e, found, same⟩ := entry_of_fresh fresh
      obtain ⟨other, good', keys, judged⟩ := kept _ e found
      rw [← same, judged]
      exact (alike q other known good' keys).symm
    | computed next missing within => exact computed
  have within := a.analyze_within now q none
  refine ⟨value, within.settings.trans own, ?_⟩
  intro key e found
  rcases within.entries key e found with ⟨keys, stored⟩ | before
  · exact ⟨q, known, keys, by rw [stored]; exact value⟩
  · exact kept key e before

theorem analyses_kept (good : CompiledQuery → Prop) (own : a.settings = settings)
    (alike : ∀ q r, good q → good r → cacheKey q.adapter q.render = cacheKey r.adapter r.render →
      q.heuristic settings = r.heuristic settings)
    (kept : a.Kept settings good) (history : List (Nat × CompiledQuery)) (known : ∀ step ∈ history, good step.2) :
    a.analyses history = history.map fun step => step.2.heuristic settings := by
  induction history generalizing a with
  | nil => rfl
  | cons step rest ih =>
    obtain ⟨now, q⟩ := step
    rw [List.forall_mem_cons] at known
    obtain ⟨value, settings', kept'⟩ := analyze_kept own alike kept now known.1
    rw [analyses, List.map_cons, value, ih settings' kept' known.2]

-- What has the key of a query that was analyzed gets its analysis, for as long as the cache keeps it.
theorem analyses_shared {now later : Nat} {q r : CompiledQuery} (enabled : settings.cacheEnabled = true)
    (room : 0 < settings.cacheMaxEntries) (soon : later - now < settings.cacheTtlMs)
    (same : cacheKey q.adapter q.render = cacheKey r.adapter r.render) :
    (Analyzer.new settings).analyses [(now, q), (later, r)] = [q.heuristic settings, q.heuristic settings] := by
  let counted : MemoryCache := { MemoryCache.ofSettings settings with misses := 1 }
  let stored := counted.store now (cacheKey q.adapter q.render) (q.heuristic settings)
  have put : counted.put now (cacheKey q.adapter q.render) (q.heuristic settings) = stored := by
    have free : (counted.entries.contains (cacheKey q.adapter q.render) ||
        decide (counted.entries.size < counted.maxEntries)) = true :=
      Bool.or_eq_true_iff.mpr (.inr (decide_eq_true room))
    rw [MemoryCache.put, if_pos free]
  have first : (Analyzer.new settings).analyze now q none =
      ⟨q.heuristic settings, ⟨settings, some (.memory stored)⟩, [], []⟩ := by
    rw [Analyzer.new, if_pos enabled, ← put]
    rfl
  have kept : stored.fresh? later (cacheKey r.adapter r.render) = some (q.heuristic settings) := by
    have found : stored.entries.get? (cacheKey r.adapter r.render) = some ⟨q.heuristic settings, now⟩ := by
      rw [← same]
      exact Table.get_insert_self ..
    have fresh : stored.isExpired later ⟨q.heuristic settings, now⟩ = false := decide_eq_false (Nat.not_le.mpr soon)
    rw [MemoryCache.fresh?, found]
    simp only [fresh, Bool.false_eq_true, if_false]
  have second : (Analyzer.analyze ⟨settings, some (.memory stored)⟩ later r none).value = q.heuristic settings := by
    simp only [analyze, lookup, AnalysisCache.get, MemoryCache.get, kept]
  rw [analyses, first, analyses, second, analyses]

-- From an analyzer that keeps nothing, every analysis is that of its own query.
theorem analyses_exact (positive : 0 < settings.largeOffset) (small : settings.largeOffset ≤ greatestInt64.toNat) :
    (∀ q r : CompiledQuery, q.Composed → r.Composed → q.Frank → r.Frank → q.adapter = r.adapter →
      q.render.text = r.render.text → q.render.params = r.render.params →
      q.heuristic settings = r.heuristic settings) ∧
    ∀ (a : Analyzer) (history : List (Nat × CompiledQuery)), a.settings = settings → (∀ key, a.entry? key = none) →
      (∀ step ∈ history, step.2.Composed ∧ step.2.Frank) →
      (∀ step ∈ history, ∀ other ∈ history,
        cacheKey step.2.adapter step.2.render = cacheKey other.2.adapter other.2.render →
          keyBytes step.2.adapter step.2.render = keyBytes other.2.adapter other.2.render) →
      a.analyses history = history.map fun step => step.2.heuristic settings := by
  have alike : ∀ {q r : CompiledQuery}, q.Composed → r.Composed → q.Frank → r.Frank → q.adapter = r.adapter →
      q.render.text = r.render.text → paramsText q.render.params = paramsText r.render.params →
      q.heuristic settings = r.heuristic settings :=
    fun composed composed' frank frank' => CompiledQuery.heuristic_of_render composed.countable composed'.countable
      frank.request frank'.request positive small
  refine ⟨?_, ?_⟩
  · intro q r composed composed' frank frank' adapters texts params
    exact alike composed composed' frank frank' adapters texts (congrArg paramsText params)
  · intro a history own empty known apart
    refine analyses_kept (fun q => ∃ step ∈ history, step.2 = q) own ?_ ?_ history
      fun step member => ⟨step, member, rfl⟩
    · rintro _ _ ⟨step, member, rfl⟩ ⟨other, member', rfl⟩ keys
      obtain ⟨adapters, texts, params⟩ := keyBytes_parts (apart step member other member' keys)
      obtain ⟨composed, frank⟩ := known step member
      obtain ⟨composed', frank'⟩ := known other member'
      exact alike composed composed' frank frank' adapters texts params
    · intro key e found
      cases (empty key).symm.trans found

end Analyzer

namespace AnalysisExamples

-- The readers behind the first so many.
def skipping (n : Nat) : CompiledQuery := (CompiledQuery.forQueryable reader).setOffset (some n)

theorem skipping_composed (n : Nat) : (skipping n).Composed :=
  (CompiledQuery.Composed.compiled shelfResolver reader (.combine .and []) .standard rfl).skipped (some n)

-- Two offsets past the end of their column have one key, a small one has its own.
def offsets : List (Nat × CompiledQuery) :=
  [(0, skipping (greatestInt64.toNat + 1)), (1, skipping (greatestInt64.toNat + 2)), (2, skipping 5)]

theorem offsets_analyzed :
    (0 < ComplexitySettings.standard.largeOffset ∧ ComplexitySettings.standard.largeOffset ≤ greatestInt64.toNat) ∧
      (Analyzer.new .standard).settings = .standard ∧ (∀ key, Analyzer.entry? (.new .standard) key = none) ∧
      (∀ step ∈ offsets, step.2.Composed ∧ step.2.Frank) ∧
      (Analyzer.new .standard).analyses offsets = offsets.map fun step => step.2.heuristic .standard := by
  have positive : 0 < ComplexitySettings.standard.largeOffset := by decide
  have small : ComplexitySettings.standard.largeOffset ≤ greatestInt64.toNat := by decide
  have known : ∀ step ∈ offsets, step.2.Composed ∧ step.2.Frank := by
    simp only [offsets, List.forall_mem_cons, List.not_mem_nil, false_implies, implies_true, and_true]
    exact ⟨⟨skipping_composed _, trivial⟩, ⟨skipping_composed _, trivial⟩, skipping_composed _, trivial⟩
  have far : (skipping (greatestInt64.toNat + 1)).render = (skipping (greatestInt64.toNat + 2)).render := rfl
  have near : cacheKey .postgres (skipping (greatestInt64.toNat + 2)).render ≠
      cacheKey .postgres (skipping 5).render := by
    decide +kernel
  have apart : ∀ step ∈ offsets, ∀ other ∈ offsets,
      cacheKey step.2.adapter step.2.render = cacheKey other.2.adapter other.2.render →
        keyBytes step.2.adapter step.2.render = keyBytes other.2.adapter other.2.render := by
    have postgres : ∀ n, (skipping n).adapter = .postgres := fun n => rfl
    simp only [offsets, List.forall_mem_cons, List.not_mem_nil, false_implies, implies_true, and_true, postgres, far,
      true_and]
    exact ⟨fun keys => absurd keys near, fun keys => absurd keys near, fun keys => absurd keys.symm near,
      fun keys => absurd keys.symm near⟩
  exact ⟨⟨positive, small⟩, rfl, fun key => rfl, known,
    (Analyzer.analyses_exact positive small).2 (.new .standard) offsets rfl (fun key => rfl) known apart⟩

-- A filter that no article meets.
def excluded : FilterNode := .combine .and [.leaf ⟨⟨["title"]⟩, .isIn, .arr []⟩]

def noArticle : String := "articles \x7b\"query\":\x7b\"match_none\":\x7b\x7d\x7d\x7d"

-- A search for no article, with so many conditions counted.
def Futile (predicates : Nat) (q : CompiledQuery) : Bool :=
  q.adapter == .search && q.predicateCount == predicates && q.joinCount == 0 && q.limit.isNone && q.offset.isNone &&
    !q.hasOrder && q.render.text == noArticle

theorem futile_of_checked {predicates : Nat} {outcome : Except FilterError CompiledQuery}
    (checked : outcome.toOption.any (Futile predicates) = true) :
    ∃ q, outcome = .ok q ∧ Futile predicates q = true := by
  cases outcome with
  | error e => cases checked
  | ok q => exact ⟨q, rfl, checked⟩

theorem futile_parts {predicates : Nat} {q : CompiledQuery} (futile : Futile predicates q = true) :
    q.adapter = .search ∧ q.render = ⟨noArticle, []⟩ ∧ QueryShape.of q = ⟨predicates, 0, none, none, false⟩ := by
  simp only [Futile, Bool.and_eq_true, beq_iff_eq, Option.isNone_iff_eq_none, Bool.not_eq_true'] at futile
  obtain ⟨⟨⟨⟨⟨⟨adapter, counted⟩, joins⟩, limit⟩, offset⟩, unordered⟩, text⟩ := futile
  refine ⟨adapter, ?_, ?_⟩
  · cases q with
    | sql d s => cases d <;> cases adapter
    | search r => exact congrArg (RenderedQuery.mk · []) text
  · rw [QueryShape.of, counted, joins, limit, offset, unordered]

theorem titled_excluded : ∃ q, q.Composed ∧ Futile 1 q = true := by
  have checked : ((shelfResolver.compileFilter article titled .standard).bind fun q =>
      shelfResolver.applyFilter q article excluded .standard).toOption.any (Futile 1) = true := by
    decide +kernel
  obtain ⟨q, outcome, futile⟩ := futile_of_checked checked
  obtain ⟨base, compiled, applied⟩ := bind_exact.mp outcome
  have kind : base.kind = .search := Resolver.applyFilter_kind (Resolver.compileFilter_parts.mp compiled).2
  have own : article.adapter = base.adapter := by
    cases base with
    | sql d s => cases kind
    | search r => rfl
  have first : base.Composed := .compiled shelfResolver article titled .standard compiled
  exact ⟨q, .narrowed first shelfResolver article excluded .standard own applied, futile⟩

theorem all_excluded : ∃ q, q.Composed ∧ Futile 0 q = true := by
  have checked : (shelfResolver.compileFilter article excluded .standard).toOption.any (Futile 0) = true := by
    decide +kernel
  obtain ⟨q, outcome, futile⟩ := futile_of_checked checked
  exact ⟨q, .compiled shelfResolver article excluded .standard outcome, futile⟩

-- A condition that no document meets hides the title from the text, but not from the count: the second search is given
-- the analysis of the first.
theorem hidden_condition_shares : ¬ ∀ (settings : ComplexitySettings) (history : List (Nat × CompiledQuery)),
    settings.cacheEnabled = true → (∀ step ∈ history, step.2.Composed) →
      (∀ step ∈ history, ∀ other ∈ history, other.1 - step.1 < settings.cacheTtlMs) →
      (∀ step ∈ history, ∀ other ∈ history,
        cacheKey step.2.adapter step.2.render = cacheKey other.2.adapter other.2.render →
          keyBytes step.2.adapter step.2.render = keyBytes other.2.adapter other.2.render) →
      (Analyzer.new settings).analyses history = history.map fun step => step.2.heuristic settings := by
  intro always
  obtain ⟨q, composed, futile⟩ := titled_excluded
  obtain ⟨r, composed', futile'⟩ := all_excluded
  obtain ⟨adapter, render, shape⟩ := futile_parts futile
  obtain ⟨adapter', render', shape'⟩ := futile_parts futile'
  have keys : cacheKey q.adapter q.render = cacheKey r.adapter r.render := by
    rw [adapter, adapter', render, render']
  have shared : (Analyzer.new .standard).analyses [(0, q), (0, r)] =
      [q.heuristic .standard, q.heuristic .standard] := Analyzer.analyses_shared rfl (by decide) (by decide) keys
  have own := always .standard [(0, q), (0, r)] rfl (by simp [composed, composed']) (by simp; decide)
    (by simp [adapter, adapter', render, render'])
  have judged : q.heuristic .standard = r.heuristic .standard :=
    (List.cons.inj (List.cons.inj (shared.symm.trans own)).2).1
  rw [CompiledQuery.heuristic, CompiledQuery.heuristic, shape, shape'] at judged
  have bits := congrArg (fun analysis => analysis.cost.toBits) judged
  exact absurd bits (by decide +kernel)

end AnalysisExamples
end FilterQuery
