import FilterQuery.Compile.Order
import FilterQuery.Proofs.RouteParts
import FilterQuery.Proofs.Tables

namespace FilterQuery

-- The definition that a query starts from decides which adapter serves it. What the associations lead to is read by
-- that adapter as well, whatever backend it is registered for.
def Queryable.rehome (q : Queryable) (home : Adapter) : Queryable := { q with adapter := home }

-- Nothing but the backend may differ.
def Queryable.Akin (q other : Queryable) : Prop := ∃ home, other = q.rehome home

theorem Queryable.Akin.refl (q : Queryable) : q.Akin q := ⟨q.adapter, rfl⟩

theorem Adapter.fields_akin (a : Adapter) {q other : Queryable} (akin : q.Akin other) : a.fields other = a.fields q := by
  obtain ⟨home, rfl⟩ := akin
  rfl

-- Each definition moved to the backend given for it.
def Registry.rehome (g : Registry) (homeOf : Queryable → Adapter) : Registry :=
  { g with definitions := g.definitions.map fun q => q.rehome (homeOf q) }

theorem Registry.get_rehome (g : Registry) (homeOf : Queryable → Adapter) (id : String) :
    (g.rehome homeOf).get? id = (g.get? id).map fun q => q.rehome (homeOf q) :=
  Table.get_map ..

def Scope.Akin (scope other : Scope) : Prop :=
  scope.queryable.Akin other.queryable ∧ other.path = scope.path ∧ other.binding = scope.binding

theorem Scope.Akin.refl (scope : Scope) : scope.Akin scope := ⟨.refl _, rfl, rfl⟩

namespace Resolver

-- The catalogs may differ, and so may the backends of what is registered.
structure Akin (r other : Resolver) : Prop where
  adapters : other.adapters = r.adapters
  settings : other.settings = r.settings
  related : ∀ id, Option.Rel Queryable.Akin (r.registry.get? id) (other.registry.get? id)

def rehome (r : Resolver) (homeOf : Queryable → Adapter) : Resolver :=
  { r with registry := r.registry.rehome homeOf }

theorem akin_rehome (r : Resolver) (homeOf : Queryable → Adapter) : r.Akin (r.rehome homeOf) := by
  refine ⟨rfl, rfl, ?_⟩
  intro id
  rw [rehome, Registry.get_rehome]
  cases r.registry.get? id with
  | none => exact .none
  | some q => exact .some ⟨homeOf q, rfl⟩

variable {r other : Resolver} {q q' : Queryable}

theorem field_akin (akin : q.Akin q') (a : Adapter) (name : String) (path : FieldPath) :
    other.field a q' name path = r.field a q name path := by
  unfold field
  rw [Catalog.fields_eq, Catalog.fields_eq, a.fields_akin akin]
  obtain ⟨home, rfl⟩ := akin
  rfl

-- The same fault, or the same link to definitions akin.
theorem hop_akin (akin : r.Akin other) (f : Field) (path : FieldPath) :
    (∃ fault, r.hop f path = .error fault ∧ other.hop f path = .error fault) ∨
      ∃ link related related', r.hop f path = .ok ⟨link, related⟩ ∧ other.hop f path = .ok ⟨link, related'⟩ ∧
        related.Akin related' := by
  unfold hop
  cases f.link? with
  | none => exact .inl ⟨_, rfl, rfl⟩
  | some link =>
    have same := akin.related link.target
    dsimp only
    cases known : r.registry.get? link.target <;> cases known' : other.registry.get? link.target <;>
      rw [known, known'] at same <;> cases same
    · exact .inl ⟨_, rfl, rfl⟩
    · rename_i related
      exact .inr ⟨link, _, _, rfl, rfl, related⟩

end Resolver

variable {scope scope' : Scope} {other : Resolver}

namespace CompiledQuery

theorem bindToOne_akin {related related' : Queryable} (akin : related.Akin related') (q : CompiledQuery)
    (parent binding : String) (link : Link) :
    q.bindToOne parent binding link related' = q.bindToOne parent binding link related := by
  obtain ⟨home, rfl⟩ := akin
  rfl

theorem openScope_akin {related related' : Queryable} (akin : related.Akin related') (q : CompiledQuery)
    (binding : String) : q.openScope related' binding = q.openScope related binding := by
  obtain ⟨home, rfl⟩ := akin
  rfl

end CompiledQuery

namespace FilterContext

theorem mode_akin (c : FilterContext) (known : c.resolver.Akin other) :
    FilterContext.mode { c with resolver := other } = c.mode := by
  unfold mode
  rw [known.settings]

theorem test_akin (c : FilterContext) (akin : scope.Akin scope') (l : Leaf) :
    FilterContext.test { c with resolver := other } scope' l = c.test scope l := by
  obtain ⟨same, path, binding⟩ := akin
  unfold test
  rw [path]
  cases l.field.head? with
  | none => rfl
  | some name =>
    dsimp only
    rw [Resolver.field_akin (r := c.resolver) same]
    refine bind_congr ?_
    intro f
    cases f.type? with
    | none => rfl
    | some ty =>
      dsimp only [typed]
      rw [binding]
      rfl

end FilterContext

namespace Route

mutual
theorem compile_akin (c : FilterContext) {scope scope' : Scope} (known : c.resolver.Akin other)
    (akin : scope.Akin scope') (route : Route) (q : CompiledQuery) :
    route.compile { c with resolver := other } scope' q = route.compile c scope q := by
  cases route with
  | test l => rw [compile, compile, c.test_akin akin]
  | negate inner => rw [compile, compile, inner.compile_akin c known akin q]
  | join op parts => rw [compile, compile, compileAll_akin c known akin parts q]
  | through head inner =>
    obtain ⟨same, path, binding⟩ := akin
    rw [compile, compile, Resolver.field_akin (r := c.resolver) same, path]
    refine bind_congr ?_
    intro f
    rcases Resolver.hop_akin known f (scope.path.child head) with ⟨fault, first, second⟩ |
      ⟨link, related, related', first, second, akin⟩
    · rw [first, second]
      rfl
    · rw [first, second]
      dsimp only [bind, Except.bind]
      cases link.cardinality with
      | one =>
        dsimp only
        rw [CompiledQuery.bindToOne_akin akin, binding]
        refine inner.compile_akin c known ?_ _
        exact ⟨akin, rfl, rfl⟩
      | many =>
        dsimp only
        have next : Scope.Akin ⟨related, scope.path.child head, q.bindingFor (scope.path.child head)⟩
            ⟨related', scope.path.child head, q.bindingFor (scope.path.child head)⟩ := ⟨akin, rfl, rfl⟩
        rw [CompiledQuery.openScope_akin akin, binding, inner.compile_akin c known next]
        simp only [c.mode_akin known]

theorem compileAll_akin (c : FilterContext) {scope scope' : Scope} (known : c.resolver.Akin other)
    (akin : scope.Akin scope') (parts : List Route) (q : CompiledQuery) :
    compileAll { c with resolver := other } scope' parts q = compileAll c scope parts q := by
  cases parts with
  | nil => rfl
  | cons part rest =>
    rw [compileAll, compileAll, part.compile_akin c known akin q]
    refine bind_congr ?_
    intro outcome
    obtain ⟨p, mid⟩ := outcome
    dsimp only
    rw [compileAll_akin c known akin rest mid]
end

end Route

namespace OrderContext

theorem sortable_akin {q q' : Queryable} (c : OrderContext) (akin : q.Akin q') (name : String) :
    OrderContext.sortable { c with resolver := other } q' name = c.sortable q name := by
  unfold sortable field
  rw [Resolver.field_akin (r := c.resolver) akin]

theorem aggregate_akin {related related' : Queryable} (c : OrderContext) (same : scope'.binding = scope.binding)
    (akin : related.Akin related') (path : FieldPath) (link : Link) (rest : List String) (query : CompiledQuery) :
    OrderContext.aggregate { c with resolver := other } scope' path ⟨link, related'⟩ rest query =
      c.aggregate scope path ⟨link, related⟩ rest query := by
  unfold aggregate
  rcases rest with _ | ⟨name, _ | ⟨next, rest⟩⟩
  · rfl
  · dsimp only
    rw [c.sortable_akin akin, same]
    obtain ⟨home, rfl⟩ := akin
    rfl
  · rfl

theorem walk_akin (c : OrderContext) (known : c.resolver.Akin other) (akin : scope.Akin scope') (query : CompiledQuery)
    (names : List String) :
    OrderContext.walk { c with resolver := other } scope' query names = c.walk scope query names := by
  induction names generalizing scope scope' query with
  | nil => rfl
  | cons name later ih =>
    obtain ⟨same, path, binding⟩ := akin
    cases later with
    | nil =>
      rw [walk, walk, c.sortable_akin same, binding]
    | cons next rest =>
      rw [walk, walk, path]
      · dsimp only [field]
        rw [Resolver.field_akin (r := c.resolver) same]
        refine bind_congr ?_
        intro f
        rcases Resolver.hop_akin known f c.term.path with ⟨fault, first, second⟩ |
          ⟨link, related, related', first, second, akin⟩
        · rw [first, second]
          rfl
        · rw [first, second]
          dsimp only [bind, Except.bind]
          cases link.cardinality with
          | one =>
            dsimp only
            rw [CompiledQuery.bindToOne_akin akin, binding]
            refine ih ?_ _
            exact ⟨akin, rfl, rfl⟩
          | many => exact c.aggregate_akin binding akin ..
      · simp
      · simp

end OrderContext

namespace Resolver

variable {r : Resolver}

theorem checkDepths_akin (known : r.Akin other) (paths : List FieldPath) :
    other.checkDepths paths = r.checkDepths paths := by
  induction paths with
  | nil => rfl
  | cons path rest ih =>
    rw [checkDepths, checkDepths, ih]
    unfold checkDepth
    rw [known.settings]

theorem adapterFor_akin (known : r.Akin other) (q : Queryable) : other.adapterFor q = r.adapterFor q := by
  unfold adapterFor
  rw [known.adapters]

theorem applyFilter_akin (known : r.Akin other) (query : CompiledQuery) (q : Queryable) (filter : FilterNode)
    (options : CompileOptions) : other.applyFilter query q filter options = r.applyFilter query q filter options := by
  unfold applyFilter
  rw [checkDepths_akin known, adapterFor_akin known, known.settings]
  have same : ∀ a route, Route.compile ⟨other, a, options⟩ (.root q query.rootBinding) route query =
      Route.compile ⟨r, a, options⟩ (.root q query.rootBinding) route query :=
    fun a route => route.compile_akin ⟨r, a, options⟩ known (.refl _) query
  simp only [same]

theorem compileFilter_akin (known : r.Akin other) (q : Queryable) (filter : FilterNode) (options : CompileOptions) :
    other.compileFilter q filter options = r.compileFilter q filter options := by
  unfold compileFilter
  rw [adapterFor_akin known, applyFilter_akin known]

theorem orderBy_akin (known : r.Akin other) (a : Adapter) (q : Queryable) (options : CompileOptions)
    (query : CompiledQuery) (terms : List OrderTerm) :
    other.orderBy a q options query terms = r.orderBy a q options query terms := by
  induction terms generalizing query with
  | nil => rfl
  | cons term rest ih =>
    rw [orderBy, orderBy]
    have walked := OrderContext.walk_akin ⟨r, a, options, term⟩ known (.refl (.root q query.rootBinding)) query
      term.path.segments
    rw [walked]
    simp only [ih]
    unfold checkDepth
    rw [known.settings]

theorem applyOrder_akin (known : r.Akin other) (query : CompiledQuery) (q : Queryable) (terms : List OrderTerm)
    (options : CompileOptions) : other.applyOrder query q terms options = r.applyOrder query q terms options := by
  unfold applyOrder
  rw [adapterFor_akin known]
  simp only [orderBy_akin known]

theorem cross_rehome (r : Resolver) (homeOf : Queryable → Adapter) (a : Adapter) {q q' : Queryable} (akin : q.Akin q')
    (name : String) : (r.rehome homeOf).cross? a q' name =
      (r.cross? a q name).map fun hop => ⟨hop.link, hop.related.rehome (homeOf hop.related)⟩ := by
  unfold cross?
  rw [a.fields_akin akin]
  cases (a.fields q).find? (·.name == name) with
  | none => rfl
  | some f =>
    simp only [Option.bind_eq_bind, Option.bind_some]
    cases f.link? with
    | none => rfl
    | some link =>
      rw [Option.bind_some, Option.bind_some, rehome, Registry.get_rehome]
      cases r.registry.get? link.target <;> rfl

theorem reach_rehome (r : Resolver) (homeOf : Queryable → Adapter) (a : Adapter) {q q' : Queryable} (akin : q.Akin q')
    (name : String) (rest : List String) : (r.rehome homeOf).reach? a q' (name :: rest) =
      (r.reach? a q (name :: rest)).map fun related => related.rehome (homeOf related) := by
  induction rest generalizing name q q' with
  | nil =>
    rw [reach?, reach?, cross_rehome r homeOf a akin]
    cases r.cross? a q name <;> rfl
  | cons next later ih =>
    rw [reach?, reach?, cross_rehome r homeOf a akin]
    cases r.cross? a q name with
    | none => rfl
    | some hop => exact ih ⟨homeOf hop.related, rfl⟩ next

-- What the associations on the way along the paths lead to.
def LedTo (r : Resolver) (a : Adapter) (q : Queryable) (paths : List FieldPath) (related : Queryable) : Prop :=
  ∃ path ∈ paths, ∃ name above below, below ≠ [] ∧ path.segments = name :: above ++ below ∧
    r.reach? a q (name :: above) = some related

-- Every answer is the one that related definitions of any other backends would have given.
theorem related_backends (r : Resolver) (homeOf : Queryable → Adapter) (q : Queryable) (options : CompileOptions) :
    (∀ filter, (r.rehome homeOf).compileFilter q filter options = r.compileFilter q filter options) ∧
    (∀ base filter, (r.rehome homeOf).applyFilter base q filter options = r.applyFilter base q filter options) ∧
    (∀ base terms, (r.rehome homeOf).applyOrder base q terms options = r.applyOrder base q terms options) ∧
    ∀ a paths home, (r.rehome homeOf).LedTo a q paths home ↔
      ∃ related, r.LedTo a q paths related ∧ home = related.rehome (homeOf related) := by
  have known := r.akin_rehome homeOf
  refine ⟨fun filter => compileFilter_akin known q filter options,
    fun base filter => applyFilter_akin known base q filter options,
    fun base terms => applyOrder_akin known base q terms options, ?_⟩
  intro a paths home
  simp only [LedTo, reach_rehome r homeOf a (.refl q), Option.map_eq_some_iff]
  constructor
  · rintro ⟨path, member, name, above, below, left, shape, related, reached, rfl⟩
    exact ⟨related, ⟨path, member, name, above, below, left, shape, reached⟩, rfl⟩
  · rintro ⟨related, ⟨path, member, name, above, below, left, shape, reached⟩, rfl⟩
    exact ⟨path, member, name, above, below, left, shape, related, reached, rfl⟩

end Resolver

def note : Queryable := (Queryable.new "Note" "notes" .search).withColumn "body" "text" false

def ticket : Queryable := (Queryable.new "Ticket" "tickets" .postgres).belongsTo "note" "Note" "note_id"

-- No adapter is there for the notes.
def ticketResolver : Resolver :=
  { Resolver.ofAdapters (.ofList [.postgres]) .standard with registry := (Registry.empty.register note).register ticket }

def noteBody : FieldPath := ⟨["note", "body"]⟩

theorem note_led : ticketResolver.LedTo .postgres ticket [noteBody] note :=
  ⟨noteBody, List.mem_singleton.mpr rfl, "note", [], ["body"], by simp, rfl, rfl⟩

-- The notes of a search engine are joined as if they were a table.
theorem foreign_joined :
    (¬∀ (r : Resolver) (q : Queryable) (filter : FilterNode) (options : CompileOptions) (query : CompiledQuery),
      r.compileFilter q filter options = .ok query →
        ∀ related, r.LedTo query.adapter q filter.referencedPaths related → query.adapter.handles related = true) ∧
    ¬∀ (r : Resolver) (base : CompiledQuery) (q : Queryable) (terms : List OrderTerm) (options : CompileOptions)
      (query : CompiledQuery), r.applyOrder base q terms options = .ok query →
        ∀ a, r.adapterFor q = .ok a →
          ∀ related, r.LedTo a q (terms.map OrderTerm.path) related → a.handles related = true := by
  have unserved : Adapter.postgres.handles note = false := rfl
  constructor
  · intro all
    let outcome := ticketResolver.compileFilter ticket (.leaf ⟨noteBody, .eq, .str "a"⟩) .standard
    have accepted : outcome.toOption.map CompiledQuery.adapter = some .postgres := by decide +kernel
    cases compiled : outcome with
    | error fault =>
      rw [compiled] at accepted
      cases accepted
    | ok query =>
      rw [compiled] at accepted
      have served : query.adapter = .postgres := Option.some.inj accepted
      have handled := all _ _ _ _ query compiled note (served ▸ note_led)
      rw [served, unserved] at handled
      cases handled
  · intro all
    have accepted : (ticketResolver.applyOrder (.forQueryable ticket) ticket [⟨noteBody, .asc, .default⟩]
        .standard).isOk = true := by decide +kernel
    obtain ⟨query, sorted⟩ := ok_of_isOk accepted
    have handled := all _ _ _ _ _ query sorted .postgres rfl note note_led
    rw [unserved] at handled
    cases handled

end FilterQuery
