import FilterQuery.Engine
import FilterQuery.Proofs.Backends

namespace FilterQuery

-- Nothing of the field lists that an engine keeps shows in what it answers to these.
inductive EngineCall where
  | register (q : Queryable)
  -- A change to the registry that the engine is not told of.
  | amend (change : Registry → Registry)
  -- The fields of a definition are asked for.
  | consult (a : Adapter) (q : Queryable)
  | invalidate (id : String)
  | clear
  | detect (h : Handle)
  | compile (q : Queryable) (filter : FilterSource) (options : CompileOptions)
  | compileId (id : String) (filter : FilterSource) (options : CompileOptions)
  | apply (query : CompiledQuery) (q : Queryable) (filter : FilterSource) (options : CompileOptions)
  | order (query : CompiledQuery) (q : Queryable) (terms : List OrderTerm) (options : CompileOptions)
  | orderPayload (query : CompiledQuery) (q : Queryable) (payload : Json) (options : CompileOptions)

namespace Engine

def setCatalog (e : Engine) (catalog : Catalog) : Engine := { e with resolver := { e.resolver with catalog } }

def answering (outcome : Except FilterError CompiledQuery × Engine) :
    Option (Except FilterError CompiledQuery) × Engine :=
  (some outcome.1, outcome.2)

-- The answer, for the calls that have one, and the engine afterwards.
def call (e : Engine) : EngineCall → Option (Except FilterError CompiledQuery) × Engine
  | .register q => (none, e.register q)
  | .amend change => (none, e.updateRegistry change)
  | .consult a q => (none, e.setCatalog (e.resolver.catalog.consult a q))
  | .invalidate id => (none, e.setCatalog (e.resolver.catalog.invalidate id))
  | .clear => (none, e.setCatalog .empty)
  | .detect h => (none, (e.detect h).2.1)
  | .compile q filter options => answering (e.compileSource q filter options)
  | .compileId id filter options => answering (e.compileId id filter options)
  | .apply query q filter options => answering (e.applySource query q filter options)
  | .order query q terms options => answering (e.order query q terms options)
  | .orderPayload query q payload options => answering (e.orderPayload query q payload options)

def callAll (e : Engine) (calls : List EngineCall) : Engine := calls.foldl (fun e c => (e.call c).2) e

-- A new engine that knows the definitions.
def knowing (settings : Settings) (adapters : AdapterSet) (registry : Registry) : Engine :=
  (new settings adapters).updateRegistry fun _ => registry

end Engine

-- The definitions known after the call.
def EngineCall.registered (g : Registry) : EngineCall → Registry
  | register q => g.register q
  | amend change => change g
  | _ => g

-- All that an answer can depend on.
structure Engine.SameSetup (e other : Engine) : Prop where
  adapters : other.resolver.adapters = e.resolver.adapters
  settings : other.resolver.settings = e.resolver.settings
  definitions : ∀ id, other.resolver.registry.get? id = e.resolver.registry.get? id

namespace Engine

variable {e other : Engine}

theorem SameSetup.akin (same : e.SameSetup other) : e.resolver.Akin other.resolver := by
  refine ⟨same.adapters, same.settings, ?_⟩
  intro id
  rw [same.definitions]
  cases e.resolver.registry.get? id with
  | none => exact .none
  | some q => exact .some (.refl q)

theorem compileSource_same (same : e.SameSetup other) (q : Queryable) (filter : FilterSource)
    (options : CompileOptions) : (other.compileSource q filter options).1 = (e.compileSource q filter options).1 := by
  unfold compileSource
  cases filter.node with
  | error fault => rfl
  | ok node => exact Resolver.compileFilter_akin same.akin q node options

theorem compileId_same (same : e.SameSetup other) (id : String) (filter : FilterSource) (options : CompileOptions) :
    (other.compileId id filter options).1 = (e.compileId id filter options).1 := by
  have found : other.queryable id = e.queryable id := by
    unfold queryable Registry.find
    rw [same.definitions]
  unfold compileId
  rw [found]
  cases e.queryable id with
  | error fault => rfl
  | ok q => exact compileSource_same same q filter options

theorem applySource_same (same : e.SameSetup other) (query : CompiledQuery) (q : Queryable) (filter : FilterSource)
    (options : CompileOptions) :
    (other.applySource query q filter options).1 = (e.applySource query q filter options).1 := by
  unfold applySource
  cases filter.node with
  | error fault => rfl
  | ok node => exact Resolver.applyFilter_akin same.akin query q node options

theorem order_same (same : e.SameSetup other) (query : CompiledQuery) (q : Queryable) (terms : List OrderTerm)
    (options : CompileOptions) : (other.order query q terms options).1 = (e.order query q terms options).1 :=
  Resolver.applyOrder_akin same.akin query q terms options

theorem orderPayload_same (same : e.SameSetup other) (query : CompiledQuery) (q : Queryable) (payload : Json)
    (options : CompileOptions) :
    (other.orderPayload query q payload options).1 = (e.orderPayload query q payload options).1 := by
  unfold orderPayload
  cases OrderTerm.ofPayload payload with
  | error fault => rfl
  | ok terms => exact order_same same query q terms options

theorem call_same (same : e.SameSetup other) (c : EngineCall) : (other.call c).1 = (e.call c).1 := by
  cases c with
  | register | amend | consult | invalidate | clear | detect => rfl
  | compile q filter options => exact congrArg some (compileSource_same same q filter options)
  | compileId id filter options => exact congrArg some (compileId_same same id filter options)
  | apply query q filter options => exact congrArg some (applySource_same same query q filter options)
  | order query q terms options => exact congrArg some (order_same same query q terms options)
  | orderPayload query q payload options => exact congrArg some (orderPayload_same same query q payload options)

end Engine

-- Following a path only adds to the catalog.
theorem Resolver.follow_catalog (r : Resolver) (a : Adapter) (q : Queryable) (names : List String) :
    ∃ catalog, r.follow a q names = { r with catalog } := by
  induction names generalizing r q with
  | nil => exact ⟨r.catalog, rfl⟩
  | cons name rest ih =>
    rw [follow]
    split
    · exact ⟨_, rfl⟩
    · split
      · exact ⟨_, rfl⟩
      · obtain ⟨catalog, followed⟩ := ih { r with catalog := r.catalog.consult a q } _
        exact ⟨catalog, followed⟩

namespace Engine

-- Calls that answer leave an engine that differs in its catalog only.
def Consulted (e next : Engine) : Prop := ∃ catalog, next = e.setCatalog catalog

theorem Consulted.refl (e : Engine) : e.Consulted e := ⟨e.resolver.catalog, rfl⟩

theorem follow_consulted (e : Engine) (q : Queryable) (paths : List FieldPath) : e.Consulted (e.follow q paths) := by
  unfold follow
  split
  · exact .refl e
  · rename_i a _
    have folded : ∀ r : Resolver, ∃ catalog, paths.foldl (fun r path => r.follow a q path.segments) r =
        { r with catalog } := by
      induction paths with
      | nil => exact fun r => ⟨r.catalog, rfl⟩
      | cons path rest ih =>
        intro r
        obtain ⟨catalog, followed⟩ := r.follow_catalog a q path.segments
        obtain ⟨last, further⟩ := ih { r with catalog }
        exact ⟨last, by rw [List.foldl_cons, followed, further]⟩
    obtain ⟨catalog, followed⟩ := folded e.resolver
    exact ⟨catalog, by rw [followed]; rfl⟩

theorem compileSource_consulted (e : Engine) (q : Queryable) (filter : FilterSource) (options : CompileOptions) :
    e.Consulted (e.compileSource q filter options).2 := by
  unfold compileSource
  split
  · exact .refl e
  · exact e.follow_consulted ..

theorem compileId_consulted (e : Engine) (id : String) (filter : FilterSource) (options : CompileOptions) :
    e.Consulted (e.compileId id filter options).2 := by
  unfold compileId
  split
  · exact .refl e
  · exact e.compileSource_consulted ..

theorem applySource_consulted (e : Engine) (query : CompiledQuery) (q : Queryable) (filter : FilterSource)
    (options : CompileOptions) : e.Consulted (e.applySource query q filter options).2 := by
  unfold applySource
  split
  · exact .refl e
  · exact e.follow_consulted ..

theorem orderPayload_consulted (e : Engine) (query : CompiledQuery) (q : Queryable) (payload : Json)
    (options : CompileOptions) : e.Consulted (e.orderPayload query q payload options).2 := by
  unfold orderPayload
  split
  · exact .refl e
  · exact e.follow_consulted ..

-- The set-up after a call, by the definitions that are known then.
structure Becomes (e next : Engine) (registry : Registry) : Prop where
  adapters : next.resolver.adapters = e.resolver.adapters
  settings : next.resolver.settings = e.resolver.settings
  registry : next.resolver.registry = registry

theorem Consulted.becomes {e next : Engine} (consulted : e.Consulted next) : e.Becomes next e.resolver.registry := by
  obtain ⟨catalog, rfl⟩ := consulted
  exact ⟨rfl, rfl, rfl⟩

theorem call_becomes (e : Engine) (c : EngineCall) : e.Becomes (e.call c).2 (c.registered e.resolver.registry) := by
  cases c with
  | register | amend | consult | invalidate | clear | detect => exact ⟨rfl, rfl, rfl⟩
  | compile q filter options => exact (e.compileSource_consulted q filter options).becomes
  | compileId id filter options => exact (e.compileId_consulted id filter options).becomes
  | apply query q filter options => exact (e.applySource_consulted query q filter options).becomes
  | order query q terms options => exact (e.follow_consulted q (terms.map OrderTerm.path)).becomes
  | orderPayload query q payload options => exact (e.orderPayload_consulted query q payload options).becomes

theorem callAll_becomes (e : Engine) (calls : List EngineCall) :
    e.Becomes (e.callAll calls) (calls.foldl EngineCall.registered e.resolver.registry) := by
  induction calls generalizing e with
  | nil => exact ⟨rfl, rfl, rfl⟩
  | cons c rest ih =>
    have here := e.call_becomes c
    have later := ih (e.call c).2
    rw [here.registry] at later
    exact ⟨later.adapters.trans here.adapters, later.settings.trans here.settings, later.registry⟩

-- The engine with the history and the new one know the same, in whatever order it was registered.
theorem call_knowing (settings : Settings) (adapters : AdapterSet) (before : List EngineCall) (registry : Registry)
    (current : ∀ id, registry.get? id = (before.foldl EngineCall.registered .empty).get? id) (c : EngineCall) :
    (((new settings adapters).callAll before).call c).1 = ((knowing settings adapters registry).call c).1 := by
  have became := (new settings adapters).callAll_becomes before
  refine (call_same ⟨?_, ?_, ?_⟩ c).symm
  · exact became.adapters.symm
  · exact became.settings.symm
  · intro id
    rw [became.registry]
    exact current id

end Engine

def shop : Queryable := (Queryable.new "Shop" "shops" .sqlite).withColumn "city" "text" false

def clerkOfShop : Queryable := (Queryable.new "Clerk" "clerks" .sqlite).belongsTo "shop" "Shop" "shop_id"

-- The same id with another type, held by a caller.
def numberedShop : Queryable := (Queryable.new "Shop" "shops" .sqlite).withColumn "city" "integer" false

def inCity : FilterNode := .leaf ⟨⟨["city"]⟩, .eq, .str "a"⟩

def shopHistory : List EngineCall :=
  [.register numberedShop, .register clerkOfShop, .compileId "Shop" (.tree inCity) .standard,
    .amend (·.register shop), .compile numberedShop (.tree inCity) .standard, .invalidate "Clerk"]

-- The catalog has the fields of the definition that is no more, and they are not used.
theorem shopHistory_fresh :
    (((Engine.new .standard .standard).callAll shopHistory).resolver.catalog.get? .sqlite "Shop").map
        CatalogEntry.definition = some numberedShop ∧
      (∀ id, ((Registry.empty.register clerkOfShop).register shop).get? id =
        (shopHistory.foldl EngineCall.registered .empty).get? id) ∧
      (((Engine.new .standard .standard).callAll shopHistory).call (.compileId "Shop" (.tree inCity) .standard)).1 =
        ((Engine.knowing .standard .standard ((Registry.empty.register clerkOfShop).register shop)).call
          (.compileId "Shop" (.tree inCity) .standard)).1 := by
  have current : ∀ id, ((Registry.empty.register clerkOfShop).register shop).get? id =
      (shopHistory.foldl EngineCall.registered .empty).get? id := by
    intro id
    have one : ((Registry.empty.register clerkOfShop).register shop).definitions.entries =
        [("Clerk", clerkOfShop), ("Shop", shop)] := by decide +kernel
    have other : (shopHistory.foldl EngineCall.registered .empty).definitions.entries =
        [("Shop", shop), ("Clerk", clerkOfShop)] := by decide +kernel
    rw [Registry.get?, Registry.get?, Table.get?, Table.get?, one, other]
    simp only [List.lookup_cons, List.lookup_nil]
    by_cases named : id = "Shop"
    · simp [named]
    · rw [beq_false_of_ne named]
  refine ⟨by decide +kernel, current, ?_⟩
  exact Engine.call_knowing _ _ _ _ current _

end FilterQuery
