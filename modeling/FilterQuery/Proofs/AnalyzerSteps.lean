import FilterQuery.Complexity.Analyzer
import FilterQuery.Proofs.CacheHistory

namespace FilterQuery

namespace MemoryCache

theorem store_entry (c : MemoryCache) (now : Nat) (key : String) (analysis : Analysis) {k : String}
    {e : StoredAnalysis} (found : (c.store now key analysis).entries.get? k = some e) :
    k = key ∧ e = ⟨analysis, now⟩ ∨ c.entries.get? k = some e := by
  by_cases own : k = key
  · subst own
    cases (Table.get_insert_self ..).symm.trans found
    exact .inl ⟨rfl, rfl⟩
  · exact .inr ((Table.get_insert_other _ own _).symm.trans found)

-- A put brings no entry but its own.
theorem put_entry (c : MemoryCache) (now : Nat) (key : String) (analysis : Analysis) {k : String}
    {e : StoredAnalysis} (found : (c.put now key analysis).entries.get? k = some e) :
    k = key ∧ e = ⟨analysis, now⟩ ∨ c.entries.get? k = some e := by
  unfold put at found
  split at found
  · exact c.store_entry now key analysis found
  · split at found
    case isTrue victims =>
      refine (store_entry _ now key analysis found).imp_right ?_
      intro kept
      by_cases chosen : k = c.recycling.pick (c.expiredKeys now) victims
      · subst chosen
        cases (Table.get_erase_self ..).symm.trans kept
      · exact (Table.get_erase_other _ chosen).symm.trans kept
    · exact .inr found

theorem put_ttl (c : MemoryCache) (now : Nat) (key : String) (analysis : Analysis) :
    (c.put now key analysis).ttl = c.ttl := by
  unfold put
  split
  · rfl
  · split <;> rfl

theorem fresh_entry {c : MemoryCache} {now : Nat} {key : String} {analysis : Analysis}
    (fresh : c.fresh? now key = some analysis) :
    ∃ e, c.entries.get? key = some e ∧ e.analysis = analysis ∧ now - e.storedAt < c.ttl := by
  refine (c.get_exact now key analysis).mp ?_
  rw [get, fresh]

end MemoryCache

namespace Analyzer

variable {a : Analyzer} {now : Nat} {key : String} {q : CompiledQuery} {handle : Option Handle}

def entry? (a : Analyzer) (key : String) : Option StoredAnalysis :=
  match a.cache with
  | some (.memory m) => m.entries.get? key
  | _ => none

def fresh? (a : Analyzer) (now : Nat) (key : String) : Option Analysis :=
  match a.cache with
  | some (.memory m) => m.fresh? now key
  | _ => none

-- The cache, if it is one in memory, keeps what it has for the time that the settings say.
def Timed (a : Analyzer) : Prop := ∀ m, a.cache = some (.memory m) → m.ttl = a.settings.cacheTtlMs

theorem fresh_entry (timed : a.Timed) {analysis : Analysis} (fresh : a.fresh? now key = some analysis) :
    ∃ e, a.entry? key = some e ∧ e.analysis = analysis ∧ now - e.storedAt < a.settings.cacheTtlMs := by
  obtain ⟨settings, _ | ⟨m⟩ | error⟩ := a
  · cases fresh
  · rw [← timed m rfl]
    exact MemoryCache.fresh_entry fresh
  · cases fresh

-- Nothing but the counts of a cache may change, and what it has may only become less.
structure Within (a next : Analyzer) (Added : String → StoredAnalysis → Prop) : Prop where
  settings : next.settings = a.settings
  timed : a.Timed → next.Timed
  entries : ∀ k e, next.entry? k = some e → Added k e ∨ a.entry? k = some e

theorem Within.refl (a : Analyzer) (Added : String → StoredAnalysis → Prop) : a.Within a Added :=
  ⟨rfl, id, fun _ _ => .inr⟩

theorem lookup_exact (a : Analyzer) (now : Nat) (key : String) :
    (a.lookup now key).1 = a.fresh? now key ∧ a.Within (a.lookup now key).2 fun _ _ => False := by
  obtain ⟨settings, _ | ⟨m⟩ | error⟩ := a
  · exact ⟨rfl, .refl ..⟩
  · obtain ⟨hits, misses, counted, -⟩ := m.get_counts now key
    refine ⟨?_, rfl, ?_, ?_⟩
    · show (m.get now key).1 = m.fresh? now key
      unfold MemoryCache.get
      cases m.fresh? now key <;> rfl
    · intro timed next same
      cases same
      show (m.get now key).2.ttl = _
      rw [counted]
      exact timed m rfl
    · intro k e found
      have kept : (m.get now key).2.entries.get? k = some e := found
      rw [counted] at kept
      exact .inr kept
  · exact ⟨rfl, .refl ..⟩

theorem remember_within (a : Analyzer) (now : Nat) (key : String) (analysis : Analysis) :
    a.Within (a.remember now key analysis) fun k e => k = key ∧ e = ⟨analysis, now⟩ := by
  obtain ⟨settings, _ | ⟨m⟩ | error⟩ := a
  · exact .refl ..
  · refine ⟨rfl, ?_, fun k e => m.put_entry now key analysis⟩
    intro timed next same
    cases same
    exact (m.put_ttl ..).trans (timed m rfl)
  · exact .refl ..

theorem compute_settings {other : Analyzer} (same : other.settings = a.settings) (q : CompiledQuery)
    (handle : Option Handle) : other.compute q handle = a.compute q handle := by
  unfold compute explained
  rw [same]

-- A fresh entry answers without the backend; otherwise the analysis is computed, given and put.
inductive AnalyzeOutcome (a : Analyzer) (now : Nat) (q : CompiledQuery) (handle : Option Handle) :
    Analyzed Analysis → Prop where
  | served (analysis : Analysis) (next : Analyzer) :
      a.fresh? now (cacheKey q.adapter q.render) = some analysis →
      a.Within next (fun _ _ => False) →
      AnalyzeOutcome a now q handle ⟨analysis, next, [], []⟩
  | computed (next : Analyzer) :
      a.fresh? now (cacheKey q.adapter q.render) = none →
      a.Within next (fun k e => k = cacheKey q.adapter q.render ∧ e = ⟨(a.compute q handle).1, now⟩) →
      AnalyzeOutcome a now q handle ⟨(a.compute q handle).1, next, (a.compute q handle).2, []⟩

theorem analyze_outcome (a : Analyzer) (now : Nat) (q : CompiledQuery) (handle : Option Handle) :
    a.AnalyzeOutcome now q handle (a.analyze now q handle) := by
  obtain ⟨looked, within⟩ := a.lookup_exact now (cacheKey q.adapter q.render)
  dsimp only [analyze]
  generalize a.lookup now (cacheKey q.adapter q.render) = found at looked within ⊢
  obtain ⟨answer, counted⟩ := found
  cases answer with
  | some analysis => exact .served analysis counted looked.symm within
  | none =>
    have computed : counted.compute q handle = a.compute q handle := compute_settings within.settings q handle
    have stored := counted.remember_within now (cacheKey q.adapter q.render) (counted.compute q handle).1
    dsimp only
    rw [computed] at stored ⊢
    refine .computed _ looked.symm ⟨stored.settings.trans within.settings, stored.timed ∘ within.timed, ?_⟩
    intro k e kept
    exact (stored.entries k e kept).imp_right fun there => (within.entries k e there).resolve_left id

-- All that is kept of an analysis is what it gave.
theorem analyze_within (a : Analyzer) (now : Nat) (q : CompiledQuery) (handle : Option Handle) :
    a.Within (a.analyze now q handle).analyzer fun k e =>
      k = cacheKey q.adapter q.render ∧ e = ⟨(a.analyze now q handle).value, now⟩ := by
  have outcome := a.analyze_outcome now q handle
  generalize a.analyze now q handle = step at outcome
  cases outcome with
  | served analysis next fresh within =>
    exact ⟨within.settings, within.timed, fun k e found => .inr ((within.entries k e found).resolve_left id)⟩
  | computed next missing within => exact within

end Analyzer
end FilterQuery
