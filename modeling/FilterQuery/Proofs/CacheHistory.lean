import FilterQuery.Complexity.Cache
import FilterQuery.Proofs.Tables

namespace FilterQuery

inductive CacheStep where
  | get (key : String)
  -- Each put may have its own way to choose among the expired entries.
  | put (key : String) (analysis : Analysis) (recycling : Recycling)
  | clear
  | wait (time : Nat)

def CacheStep.asks : CacheStep → Bool
  | get _ => true
  | _ => false

inductive CacheEvent where
  | got (key : String)
  | stored (key : String) (analysis : Analysis)
  | dropped (key : String)
  | cleared
  | waited (time : Nat)

-- What was last stored under the key since the last clear, and how long ago. The newest event comes first.
def lastStored (key : String) : List CacheEvent → Option (Analysis × Nat)
  | [] => none
  | .stored k analysis :: earlier => if k = key then some (analysis, 0) else lastStored key earlier
  | .cleared :: _ => none
  | .waited time :: earlier => (lastStored key earlier).map fun (analysis, age) => (analysis, age + time)
  | .got _ :: earlier | .dropped _ :: earlier => lastStored key earlier

structure CacheRun where
  cache : MemoryCache
  now : Nat
  log : List CacheEvent

namespace MemoryCache

variable {c : MemoryCache} {now : Nat} {key : String} {analysis : Analysis}

def putBy (c : MemoryCache) (r : Recycling) (now : Nat) (key : String) (analysis : Analysis) : MemoryCache :=
  { c with recycling := r }.put now key analysis

-- Nothing in the cache can make room for a new key.
def Filled (c : MemoryCache) (now : Nat) : Prop :=
  c.maxEntries ≤ c.size ∧ ∀ k e, c.entries.get? k = some e → c.isExpired now e = false

theorem expired_of_mem {k : String} (distinct : c.entries.keys.Nodup) (listed : k ∈ c.expiredKeys now) :
    ∃ e, c.entries.get? k = some e ∧ c.isExpired now e = true := by
  obtain ⟨⟨_, e⟩, kept, rfl⟩ := List.mem_map.mp listed
  obtain ⟨there, expired⟩ := List.mem_filter.mp kept
  exact ⟨e, Table.get_of_mem distinct there, expired⟩

theorem mem_expiredKeys {k : String} {e : StoredAnalysis} (found : c.entries.get? k = some e)
    (expired : c.isExpired now e = true) : k ∈ c.expiredKeys now :=
  List.mem_map.mpr ⟨(k, e), List.mem_filter.mpr ⟨Table.mem_of_get found, expired⟩, rfl⟩

-- All that a put can do: store, store in the place of an expired entry, or nothing.
inductive PutOutcome (c : MemoryCache) (now : Nat) (key : String) (analysis : Analysis) : MemoryCache → Prop where
  | kept : c.entries.get? key ≠ none ∨ c.size < c.maxEntries →
      PutOutcome c now key analysis (c.store now key analysis)
  | recycled (victim : String) (e : StoredAnalysis) : c.entries.get? key = none → c.maxEntries ≤ c.size →
      c.entries.get? victim = some e → c.isExpired now e = true →
      PutOutcome c now key analysis ({ c with entries := c.entries.erase victim }.store now key analysis)
  | dropped : c.entries.get? key = none → c.Filled now → PutOutcome c now key analysis c

theorem put_outcome (distinct : c.entries.keys.Nodup) (now : Nat) (key : String) (analysis : Analysis) :
    c.PutOutcome now key analysis (c.put now key analysis) := by
  unfold put
  split
  case isTrue room =>
    refine .kept ?_
    rw [Bool.or_eq_true, decide_eq_true_iff] at room
    exact room.imp (fun there absent => by simp [Table.contains, absent] at there) id
  case isFalse noRoom =>
    rw [Bool.or_eq_true, decide_eq_true_iff, not_or, Nat.not_lt, Table.contains,
      Option.not_isSome_iff_eq_none] at noRoom
    obtain ⟨absent, full⟩ := noRoom
    split
    case isTrue victims =>
      obtain ⟨e, found, expired⟩ := expired_of_mem distinct (c.recycling.pick_mem _ victims)
      exact .recycled _ e absent full found expired
    case isFalse noVictims =>
      refine .dropped absent ⟨full, ?_⟩
      intro k e found
      rw [← Bool.not_eq_true]
      intro expired
      rw [not_not] at noVictims
      exact List.not_mem_nil (noVictims ▸ mem_expiredKeys found expired)

theorem putBy_outcome (distinct : c.entries.keys.Nodup) (r : Recycling) (now : Nat) (key : String)
    (analysis : Analysis) :
    ∃ next, c.PutOutcome now key analysis next ∧ c.putBy r now key analysis = { next with recycling := r } := by
  have outcome := put_outcome (c := { c with recycling := r }) distinct now key analysis
  unfold putBy
  generalize ({ c with recycling := r } : MemoryCache).put now key analysis = next at outcome
  cases outcome with
  | kept room => exact ⟨_, .kept room, rfl⟩
  | recycled victim e absent full found expired => exact ⟨_, .recycled victim e absent full found expired, rfl⟩
  | dropped absent filled => exact ⟨_, .dropped absent filled, rfl⟩

namespace PutOutcome

variable {next : MemoryCache}

theorem get_self (outcome : c.PutOutcome now key analysis next) :
    next.entries.get? key = some ⟨analysis, now⟩ ∨
      next.entries = c.entries ∧ c.entries.get? key = none ∧ c.Filled now := by
  cases outcome with
  | kept => exact .inl (Table.get_insert_self ..)
  | recycled => exact .inl (Table.get_insert_self ..)
  | dropped absent filled => exact .inr ⟨rfl, absent, filled⟩

theorem get_other {other : String} (outcome : c.PutOutcome now key analysis next) (apart : other ≠ key) :
    next.entries.get? other = c.entries.get? other ∨ next.entries.get? other = none ∧
      ∃ e, c.entries.get? other = some e ∧ c.isExpired now e = true := by
  cases outcome with
  | kept => exact .inl (Table.get_insert_other _ apart _)
  | dropped => exact .inl rfl
  | recycled victim e _ _ found expired =>
    have same := Table.get_insert_other (c.entries.erase victim) apart (⟨analysis, now⟩ : StoredAnalysis)
    by_cases chosen : other = victim
    · rw [chosen] at same
      exact .inr ⟨chosen ▸ same.trans (Table.get_erase_self ..), e, chosen ▸ found, expired⟩
    · exact .inl (same.trans (Table.get_erase_other _ chosen))

theorem limits (outcome : c.PutOutcome now key analysis next) :
    next.ttl = c.ttl ∧ next.maxEntries = c.maxEntries ∧ next.hits = c.hits ∧ next.misses = c.misses := by
  cases outcome <;> exact ⟨rfl, rfl, rfl, rfl⟩

theorem distinct (outcome : c.PutOutcome now key analysis next) (before : c.entries.keys.Nodup) :
    next.entries.keys.Nodup := by
  cases outcome with
  | kept => exact Table.nodup_insert before ..
  | recycled victim => exact Table.nodup_insert (Table.nodup_erase before victim) ..
  | dropped => exact before

theorem bounded (outcome : c.PutOutcome now key analysis next) (before : c.size ≤ c.maxEntries) :
    next.size ≤ c.maxEntries := by
  cases outcome with
  | kept room =>
    by_cases there : key ∈ c.entries.keys
    · rw [size, store, Table.size_insert_of_mem there]
      exact before
    · have below := room.resolve_left (not_not_intro ((Table.get_none_iff ..).mpr there))
      exact Nat.le_trans (Table.size_insert_le ..) below
  | recycled victim e absent full found =>
    have smaller := Table.size_erase_lt ((Table.get_isSome_iff ..).mp (Option.isSome_of_eq_some found))
    exact Nat.le_trans (Table.size_insert_le ..) (Nat.lt_of_lt_of_le smaller before)
  | dropped => exact before

end PutOutcome

theorem get_exact (c : MemoryCache) (now : Nat) (key : String) (analysis : Analysis) :
    (c.get now key).1 = some analysis ↔
      ∃ e, c.entries.get? key = some e ∧ e.analysis = analysis ∧ now - e.storedAt < c.ttl := by
  unfold get fresh?
  cases found : c.entries.get? key with
  | none => simp
  | some e =>
    by_cases old : c.ttl ≤ now - e.storedAt
    · simp [isExpired, old, Nat.not_lt.mpr old]
    · simp [isExpired, old, Nat.not_le.mp old]

theorem get_counts (c : MemoryCache) (now : Nat) (key : String) :
    ∃ hits misses, (c.get now key).2 = { c with hits, misses } ∧ hits + misses = c.hits + c.misses + 1 := by
  unfold get
  cases c.fresh? now key with
  | none => exact ⟨_, _, rfl, rfl⟩
  | some a => exact ⟨_, _, rfl, Nat.add_right_comm ..⟩

end MemoryCache

namespace CacheRun

def start (ttl maxEntries : Nat) : CacheRun := ⟨.new ttl maxEntries, 0, []⟩

def step (s : CacheRun) : CacheStep → CacheRun
  | .get key => { s with cache := (s.cache.get s.now key).2, log := .got key :: s.log }
  | .put key analysis recycling =>
    let next := s.cache.putBy recycling s.now key analysis
    { s with cache := next, log := (if next.entries.contains key then .stored key analysis else .dropped key) :: s.log }
  | .clear => { s with cache := s.cache.clear, log := .cleared :: s.log }
  | .wait time => { s with now := s.now + time, log := .waited time :: s.log }

def after (s : CacheRun) (steps : List CacheStep) : CacheRun := steps.foldl step s

-- What the cache has under a key against what was last stored there. Only what expired may be missing.
def Agrees (ttl now : Nat) : Option StoredAnalysis → Option (Analysis × Nat) → Prop
  | some e, stored => e.storedAt ≤ now ∧ stored = some (e.analysis, now - e.storedAt)
  | none, stored => ∀ analysis age, stored = some (analysis, age) → ttl ≤ age

structure Faithful (s : CacheRun) : Prop where
  distinct : s.cache.entries.keys.Nodup
  bounded : s.cache.size ≤ s.cache.maxEntries
  agrees : ∀ key, Agrees s.cache.ttl s.now (s.cache.entries.get? key) (lastStored key s.log)

variable {ttl now : Nat} {stored : Option (Analysis × Nat)} {s : CacheRun}

theorem Agrees.nothing : Agrees ttl now none none := nofun

theorem Agrees.later {entry : Option StoredAnalysis} (agrees : Agrees ttl now entry stored) (time : Nat) :
    Agrees ttl (now + time) entry (stored.map fun (analysis, age) => (analysis, age + time)) := by
  cases entry with
  | none =>
    intro analysis age aged
    obtain ⟨⟨_, young⟩, before, same⟩ := Option.map_eq_some_iff.mp aged
    cases same
    exact Nat.le_trans (agrees _ young before) (Nat.le_add_right ..)
  | some e =>
    obtain ⟨past, rfl⟩ := agrees
    refine ⟨Nat.le_trans past (Nat.le_add_right ..), ?_⟩
    rw [Nat.sub_add_comm past]
    rfl

theorem Agrees.recycled {e : StoredAnalysis} (agrees : Agrees ttl now (some e) stored)
    (expired : ttl ≤ now - e.storedAt) : Agrees ttl now none stored := by
  intro analysis age same
  cases agrees.2.symm.trans same
  exact expired

theorem start_faithful (ttl maxEntries : Nat) : (start ttl maxEntries).Faithful :=
  ⟨List.nodup_nil, Nat.zero_le _, fun _ => .nothing⟩

theorem Faithful.get (faithful : s.Faithful) (key : String) : (s.step (.get key)).Faithful := by
  obtain ⟨hits, misses, counted, -⟩ := s.cache.get_counts s.now key
  rw [step, counted]
  exact ⟨faithful.distinct, faithful.bounded, faithful.agrees⟩

theorem Faithful.put (faithful : s.Faithful) (key : String) (analysis : Analysis) (r : Recycling) :
    (s.step (.put key analysis r)).Faithful := by
  obtain ⟨next, outcome, made⟩ := MemoryCache.putBy_outcome faithful.distinct r s.now key analysis
  obtain ⟨sameTtl, sameMax, -⟩ := outcome.limits
  rw [step, made]
  refine ⟨outcome.distinct faithful.distinct, ?_, ?_⟩
  · exact sameMax ▸ outcome.bounded faithful.bounded
  intro other
  show Agrees next.ttl s.now (next.entries.get? other) _
  rw [sameTtl]
  by_cases own : other = key
  · subst own
    rcases outcome.get_self with kept | ⟨same, absent, -⟩
    · simp [Table.contains, kept, lastStored, Agrees]
    · simpa [Table.contains, same, absent, lastStored] using absent ▸ faithful.agrees other
  · have unlogged : lastStored other ((if next.entries.contains key then CacheEvent.stored key analysis
        else .dropped key) :: s.log) = lastStored other s.log := by
      split
      · exact if_neg (Ne.symm own)
      · rfl
    rw [unlogged]
    rcases outcome.get_other own with same | ⟨missing, e, found, expired⟩
    · rw [same]
      exact faithful.agrees other
    · rw [missing]
      exact (found ▸ faithful.agrees other).recycled (of_decide_eq_true expired)

theorem Faithful.step (faithful : s.Faithful) (next : CacheStep) : (s.step next).Faithful := by
  cases next with
  | get key => exact faithful.get key
  | put key analysis r => exact faithful.put key analysis r
  | clear => exact ⟨List.nodup_nil, Nat.zero_le _, fun _ => .nothing⟩
  | wait time => exact ⟨faithful.distinct, faithful.bounded, fun key => (faithful.agrees key).later time⟩

theorem Faithful.after (faithful : s.Faithful) (steps : List CacheStep) : (s.after steps).Faithful := by
  induction steps generalizing s with
  | nil => exact faithful
  | cons next rest ih => exact ih (faithful.step next)

theorem step_limits (faithful : s.Faithful) (next : CacheStep) :
    (s.step next).cache.ttl = s.cache.ttl ∧ (s.step next).cache.maxEntries = s.cache.maxEntries := by
  cases next with
  | get key =>
    obtain ⟨hits, misses, counted, -⟩ := s.cache.get_counts s.now key
    rw [step, counted]
    exact ⟨rfl, rfl⟩
  | put key analysis r =>
    obtain ⟨next, outcome, made⟩ := MemoryCache.putBy_outcome faithful.distinct r s.now key analysis
    obtain ⟨sameTtl, sameMax, -⟩ := outcome.limits
    rw [step, made]
    exact ⟨sameTtl, sameMax⟩
  | clear | wait => exact ⟨rfl, rfl⟩

theorem after_limits (faithful : s.Faithful) (steps : List CacheStep) :
    (s.after steps).cache.ttl = s.cache.ttl ∧ (s.after steps).cache.maxEntries = s.cache.maxEntries := by
  induction steps generalizing s with
  | nil => exact ⟨rfl, rfl⟩
  | cons next rest ih =>
    obtain ⟨sameTtl, sameMax⟩ := step_limits faithful next
    obtain ⟨restTtl, restMax⟩ := ih (faithful.step next)
    exact ⟨restTtl.trans sameTtl, restMax.trans sameMax⟩

theorem step_counts (faithful : s.Faithful) (next : CacheStep) :
    (s.step next).cache.hits + (s.step next).cache.misses =
      s.cache.hits + s.cache.misses + if next.asks then 1 else 0 := by
  cases next with
  | get key =>
    obtain ⟨hits, misses, counted, total⟩ := s.cache.get_counts s.now key
    rw [step, counted]
    exact total
  | put key analysis r =>
    obtain ⟨next, outcome, made⟩ := MemoryCache.putBy_outcome faithful.distinct r s.now key analysis
    obtain ⟨-, -, sameHits, sameMisses⟩ := outcome.limits
    rw [step, made]
    show next.hits + next.misses = _
    rw [sameHits, sameMisses]
    rfl
  | clear | wait => rfl

theorem after_counts (faithful : s.Faithful) (steps : List CacheStep) :
    (s.after steps).cache.hits + (s.after steps).cache.misses =
      s.cache.hits + s.cache.misses + steps.countP CacheStep.asks := by
  induction steps generalizing s with
  | nil => rfl
  | cons next rest ih =>
    rw [after, List.foldl_cons, ← after, ih (faithful.step next), step_counts faithful, List.countP_cons]
    omega

-- An entry that is not expired stays until a clear or a put of its own key.
theorem step_keeps (faithful : s.Faithful) {key : String} {e : StoredAnalysis}
    (found : s.cache.entries.get? key = some e) (fresh : s.cache.isExpired s.now e = false) (next : CacheStep) :
    (s.step next).cache.entries.get? key = some e ∨ next = .clear ∨
      ∃ analysis recycling, next = .put key analysis recycling := by
  cases next with
  | get asked =>
    obtain ⟨hits, misses, counted, -⟩ := s.cache.get_counts s.now asked
    rw [step, counted]
    exact .inl found
  | put other analysis r =>
    by_cases own : key = other
    · subst own
      exact .inr (.inr ⟨analysis, r, rfl⟩)
    · obtain ⟨next, outcome, made⟩ := MemoryCache.putBy_outcome faithful.distinct r s.now other analysis
      rw [step, made]
      rcases outcome.get_other own with same | ⟨-, e', found', expired⟩
      · exact .inl (same.trans found)
      · cases found.symm.trans found'
        exact absurd expired (Bool.eq_false_iff.mp fresh)
  | clear => exact .inr (.inl rfl)
  | wait => exact .inl found

-- All that can be relied on after the steps, of a cache that was new before them.
structure Contract (s : CacheRun) (ttl maxEntries : Nat) (steps : List CacheStep) : Prop where
  bounded : s.cache.size ≤ maxEntries
  found : ∀ key analysis, (s.cache.get s.now key).1 = some analysis ↔
    ∃ age, lastStored key s.log = some (analysis, age) ∧ age < ttl
  stored : ∀ key analysis recycling, let next := s.step (.put key analysis recycling)
    next.cache.entries.get? key = some ⟨analysis, s.now⟩ ∧ next.log = .stored key analysis :: s.log ∨
      next.cache.entries = s.cache.entries ∧ next.log = .dropped key :: s.log ∧ s.cache.entries.get? key = none ∧
        s.cache.size = maxEntries ∧ ∀ k e, s.cache.entries.get? k = some e → s.now - e.storedAt < ttl
  lasting : ∀ key e next, s.cache.entries.get? key = some e → s.now - e.storedAt < ttl →
    (s.step next).cache.entries.get? key = some e ∨ next = .clear ∨
      ∃ analysis recycling, next = .put key analysis recycling
  counted : s.cache.hits + s.cache.misses = steps.countP CacheStep.asks

theorem get_lastStored (faithful : s.Faithful) (key : String) (analysis : Analysis) :
    (s.cache.get s.now key).1 = some analysis ↔
      ∃ age, lastStored key s.log = some (analysis, age) ∧ age < s.cache.ttl := by
  have agrees := faithful.agrees key
  rw [MemoryCache.get_exact]
  cases found : s.cache.entries.get? key with
  | none =>
    rw [found] at agrees
    refine ⟨nofun, ?_⟩
    rintro ⟨age, stored, young⟩
    exact absurd young (Nat.not_lt.mpr (agrees analysis age stored))
  | some e =>
    rw [found] at agrees
    rw [agrees.2]
    constructor
    · rintro ⟨_, same, rfl, young⟩
      cases same
      exact ⟨_, rfl, young⟩
    · rintro ⟨age, same, young⟩
      cases same
      exact ⟨e, rfl, rfl, young⟩

theorem put_stored (faithful : s.Faithful) (key : String) (analysis : Analysis) (recycling : Recycling) :
    let next := s.step (.put key analysis recycling)
    next.cache.entries.get? key = some ⟨analysis, s.now⟩ ∧ next.log = .stored key analysis :: s.log ∨
      next.cache.entries = s.cache.entries ∧ next.log = .dropped key :: s.log ∧ s.cache.entries.get? key = none ∧
        s.cache.Filled s.now := by
  obtain ⟨next, outcome, made⟩ := MemoryCache.putBy_outcome faithful.distinct recycling s.now key analysis
  rw [step, made]
  rcases outcome.get_self with kept | ⟨same, absent, filled⟩
  · exact .inl ⟨kept, by simp [Table.contains, kept]⟩
  · exact .inr ⟨same, by simp [Table.contains, same, absent], absent, filled⟩

theorem cache_keeps_contract (ttl maxEntries : Nat) (steps : List CacheStep) :
    ((start ttl maxEntries).after steps).Contract ttl maxEntries steps := by
  have begun := start_faithful ttl maxEntries
  have faithful := begun.after steps
  have counts := after_counts begun steps
  obtain ⟨sameTtl, sameMax⟩ := after_limits begun steps
  generalize (start ttl maxEntries).after steps = s at faithful counts sameTtl sameMax
  have ttlEq : s.cache.ttl = ttl := sameTtl
  have maxEq : s.cache.maxEntries = maxEntries := sameMax
  have freshIff : ∀ e, s.cache.isExpired s.now e = false ↔ s.now - e.storedAt < ttl := by
    intro e
    rw [MemoryCache.isExpired, decide_eq_false_iff_not, Nat.not_le, ttlEq]
  refine ⟨maxEq ▸ faithful.bounded, ?_, ?_, ?_, counts.trans (Nat.zero_add _)⟩
  · exact ttlEq ▸ get_lastStored faithful
  · intro key analysis recycling
    refine (put_stored faithful key analysis recycling).imp_right ?_
    rintro ⟨same, logged, absent, full, fresh⟩
    refine ⟨same, logged, absent, ?_, fun k e there => (freshIff e).mp (fresh k e there)⟩
    exact maxEq ▸ Nat.le_antisymm faithful.bounded full
  · intro key e next there young
    exact step_keeps faithful there ((freshIff e).mpr young) next

end CacheRun
end FilterQuery
