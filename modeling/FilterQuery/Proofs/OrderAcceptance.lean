import FilterQuery.Proofs.SortKeys

namespace FilterQuery

namespace FieldPath

theorem append_nil (path : FieldPath) : path.append ⟨[]⟩ = path := by simp [append]

theorem append_cons (path : FieldPath) (name : String) (rest : List String) :
    path.append ⟨name :: rest⟩ = (path.child name).append ⟨rest⟩ := by
  simp [append, child]

end FieldPath

-- The field of that name, when its values have an order.
def Adapter.Sortable (a : Adapter) (q : Queryable) (name : String) (f : Field) : Prop :=
  (a.fields q).find? (·.name == name) = some f ∧ ∃ ty, f.type? = some ty ∧ ty.isOrderable = true

theorem OrderContext.sortable_exact {c : OrderContext} {q : Queryable} :
    c.sortable q name = .ok f ↔ c.adapter.Sortable q name f := by
  unfold sortable Adapter.Sortable
  rw [bind_exact]
  constructor
  · rintro ⟨own, found, kept⟩
    split at kept
    · cases kept
    · rename_i ty scalar
      split at kept
      · rename_i ordered
        cases kept
        exact ⟨Resolver.field_exact.mp found, ty, scalar, ordered⟩
      · cases kept
  · rintro ⟨found, ty, scalar, ordered⟩
    refine ⟨f, Resolver.field_exact.mpr found, ?_⟩
    rw [scalar]
    exact if_pos ordered

namespace Resolver

variable {r : Resolver} {a : Adapter} {options : CompileOptions} {base : CompiledQuery} {path : FieldPath}
  {q : Queryable}

-- A to-many association is crossed last, and only where the caller opened its path. The path given is that to the
-- definition that the names start at.
def OpensMany (r : Resolver) (a : Adapter) (options : CompileOptions) (path : FieldPath) (q : Queryable)
    (hops : List String) : Prop :=
  ∀ above name below mid hop, hops = above ++ name :: below → r.reach? a q above = some mid →
    r.cross? a mid name = some hop → hop.link.cardinality = .many →
      below = [] ∧ ((path.append ⟨above⟩).child name).dotted ∈ options.orderThrough

-- All names but the last cross associations, and the last is a field whose values have an order.
def Orderable (r : Resolver) (a : Adapter) (options : CompileOptions) (path : FieldPath) (q : Queryable)
    (names : List String) : Prop :=
  ∃ hops last owner f, names = hops ++ [last] ∧ r.reach? a q hops = some owner ∧ r.OpensMany a options path q hops ∧
    a.Sortable owner last f

-- Where the values are found: in a column of what to-one associations lead to, or in the rows that a to-many
-- association leads to from there.
def Addresses (r : Resolver) (a : Adapter) (base : CompiledQuery) (path : FieldPath) (q : Queryable)
    (names : List String) (target : SortTarget) : Prop :=
  ∃ hops last owner f, names = hops ++ [last] ∧ r.reach? a q hops = some owner ∧ a.Sortable owner last f ∧
    (r.ToOne a q hops ∧ target = .column (base.bindingAt (path.append ⟨hops⟩)) f.column ∨
      ∃ above name mid hop, hops = above ++ [name] ∧ r.ToOne a q above ∧ r.reach? a q above = some mid ∧
        r.cross? a mid name = some hop ∧ hop.link.cardinality = .many ∧
        target = .related (base.bindingAt (path.append ⟨above⟩)) (base.bindingFor (path.append ⟨hops⟩)) hop f.column)

theorem opensMany_nil : r.OpensMany a options path q [] := by
  intro above name below mid hop shape
  simp at shape

theorem opensMany_cons {hop : Hop} (crossed : r.cross? a q name = some hop) :
    r.OpensMany a options path q (name :: rest) ↔
      (hop.link.cardinality = .many → rest = [] ∧ (path.child name).dotted ∈ options.orderThrough) ∧
        r.OpensMany a options (path.child name) hop.related rest := by
  constructor
  · intro opens
    refine ⟨?_, ?_⟩
    · intro many
      have opened := opens [] name rest q hop rfl rfl crossed many
      rwa [FieldPath.append_nil] at opened
    · intro above next below mid further shape reached crossed' many
      rw [← FieldPath.append_cons]
      refine opens (name :: above) next below mid further (by rw [shape]; rfl) ?_ crossed' many
      rw [reach?, crossed, Option.bind_some, reached]
  · rintro ⟨first, opens⟩ above next below mid further shape reached crossed' many
    cases above with
    | nil =>
      cases shape
      cases Option.some.inj reached
      cases Option.some.inj (crossed.symm.trans crossed')
      rw [FieldPath.append_nil]
      exact first many
    | cons head above =>
      cases shape
      rw [reach?, crossed, Option.bind_some] at reached
      rw [FieldPath.append_cons]
      exact opens above next below mid further rfl reached crossed' many

theorem orderable_one {names : List String} {hop : Hop} (crossed : r.cross? a q name = some hop)
    (one : hop.link.cardinality = .one) (leads : r.Orderable a options (path.child name) hop.related names) :
    r.Orderable a options path q (name :: names) := by
  obtain ⟨hops, last, owner, f, rfl, reached, opens, sortable⟩ := leads
  refine ⟨name :: hops, last, owner, f, rfl, ?_, (opensMany_cons crossed).mpr ⟨?_, opens⟩, sortable⟩
  · rw [reach?, crossed, Option.bind_some, reached]
  · intro many
    rw [one] at many
    cases many

theorem addresses_one {names : List String} {target : SortTarget} {hop : Hop} (crossed : r.cross? a q name = some hop)
    (one : hop.link.cardinality = .one) (found : r.Addresses a base (path.child name) hop.related names target) :
    r.Addresses a base path q (name :: names) target := by
  obtain ⟨hops, last, owner, f, rfl, reached, sortable, way⟩ := found
  have onward : ∀ {hops owner}, r.reach? a hop.related hops = some owner → r.reach? a q (name :: hops) = some owner := by
    intro hops owner reached
    rw [reach?, crossed, Option.bind_some, reached]
  refine ⟨name :: hops, last, owner, f, rfl, onward reached, sortable, ?_⟩
  rcases way with ⟨along, rfl⟩ | ⟨above, far, mid, further, rfl, along, midway, crossed', many, rfl⟩
  · exact .inl ⟨⟨hop, crossed, one, along⟩, by rw [FieldPath.append_cons]⟩
  · refine .inr ⟨name :: above, far, mid, further, rfl, ⟨hop, crossed, one, along⟩, onward midway, crossed', many, ?_⟩
    rw [FieldPath.append_cons, FieldPath.append_cons]

end Resolver

namespace OrderContext

variable {c : OrderContext} {base : CompiledQuery} {root : Queryable} {scope : Scope}

theorem sortsBy_orderable {names : List String} {target : SortTarget} (sorts : c.SortsBy base scope names target) :
    c.resolver.Orderable c.adapter c.options scope.path scope.queryable names := by
  induction sorts with
  | here found => exact ⟨[], _, _, _, rfl, rfl, Resolver.opensMany_nil, sortable_exact.mp found⟩
  | one crossed one _ ih => exact Resolver.orderable_one crossed one ih
  | many crossed _ opened found =>
    rename_i name hop last f scope _
    refine ⟨[name], last, hop.related, f, rfl, ?_, ?_, sortable_exact.mp found⟩
    · rw [Resolver.reach?, crossed]
      rfl
    · refine (Resolver.opensMany_cons crossed).mpr ⟨fun _ => ⟨rfl, ?_⟩, Resolver.opensMany_nil⟩
      exact List.contains_iff_mem.mp opened

theorem sortsBy_addresses {names : List String} {target : SortTarget} (served : c.adapter = root.adapter)
    (placed : scope.Placed c.resolver root.adapter root base) (sorts : c.SortsBy base scope names target) :
    c.resolver.Addresses c.adapter base scope.path scope.queryable names target := by
  induction sorts with
  | here found =>
    refine ⟨[], _, _, _, rfl, rfl, sortable_exact.mp found, .inl ⟨trivial, ?_⟩⟩
    rw [FieldPath.append_nil, placed.bound]
  | one crossed one _ ih =>
    exact Resolver.addresses_one crossed one (ih (placed.enter_placed (served ▸ crossed) rfl))
  | many crossed many _ found =>
    rename_i name hop last f scope _
    refine ⟨[name], last, hop.related, f, rfl, ?_, sortable_exact.mp found, .inr ⟨[], name, scope.queryable, hop, rfl,
      trivial, rfl, crossed, many, ?_⟩⟩
    · rw [Resolver.reach?, crossed]
      rfl
    · rw [FieldPath.append_nil, placed.bound]
      rfl

theorem sortsBy_exists {names : List String}
    (leads : c.resolver.Orderable c.adapter c.options scope.path scope.queryable names) :
    ∃ target, c.SortsBy base scope names target := by
  obtain ⟨hops, last, owner, f, rfl, reached, opens, sortable⟩ := leads
  induction hops generalizing scope with
  | nil =>
    cases Option.some.inj reached
    exact ⟨_, .here (sortable_exact.mpr sortable)⟩
  | cons name rest ih =>
    obtain ⟨hop, crossed, further⟩ := Option.bind_eq_some_iff.mp reached
    obtain ⟨opened, deeper⟩ := (Resolver.opensMany_cons crossed).mp opens
    cases cardinality : hop.link.cardinality with
    | one =>
      have onward : ∃ target, c.SortsBy base (scope.enter base name hop) (rest ++ [last]) target := ih further deeper
      obtain ⟨target, sorts⟩ := onward
      refine ⟨target, ?_⟩
      cases rest with
      | nil => exact .one crossed cardinality sorts
      | cons next rest => exact .one crossed cardinality sorts
    | many =>
      obtain ⟨rfl, open'⟩ := opened cardinality
      cases Option.some.inj further
      exact ⟨_, .many crossed cardinality (List.contains_iff_mem.mpr open') (sortable_exact.mpr sortable)⟩

end OrderContext

theorem exists_forall₂ {R : α → β → Prop} {xs : List α} : (∃ ys, List.Forall₂ R xs ys) ↔ ∀ x ∈ xs, ∃ y, R x y := by
  induction xs with
  | nil => simp
  | cons x rest ih =>
    rw [List.forall_mem_cons, ← ih]
    constructor
    · rintro ⟨_, all⟩
      cases all with
      | cons here later => exact ⟨⟨_, here⟩, _, later⟩
    · rintro ⟨⟨y, here⟩, ys, later⟩
      exact ⟨y :: ys, .cons here later⟩

namespace Resolver

variable {r : Resolver} {a : Adapter} {options : CompileOptions} {base : CompiledQuery} {q : Queryable}

theorem checkDepth_exact {path : FieldPath} : r.checkDepth path = .ok () ↔ path.length - 1 ≤ r.settings.maxDepth := by
  unfold checkDepth
  dsimp only
  split
  · rename_i deep
    simpa only [reduceCtorEq, false_iff, Nat.not_le] using deep
  · rename_i shallow
    simpa only [true_iff, Nat.not_lt] using shallow

-- What the term sorts by, told from its path.
structure KeyOf (r : Resolver) (a : Adapter) (q : Queryable) (base : CompiledQuery) (term : OrderTerm) (key : Sorting) :
    Prop where
  target : r.Addresses a base .empty q term.path.segments key.target
  direction : key.direction = term.direction
  nulls : key.nulls = term.nulls

theorem orderable_exact (base : CompiledQuery) (term : OrderTerm) :
    r.Orderable a options .empty q term.path.segments ↔ ∃ key, r.SortsBy a q options base term key := by
  constructor
  · intro leads
    have found : ∃ target, OrderContext.SortsBy ⟨r, a, options, term⟩ base (.root q base.rootBinding) term.path.segments
        target := OrderContext.sortsBy_exists leads
    obtain ⟨target, sorts⟩ := found
    exact ⟨⟨target, term.direction, term.nulls⟩, sorts, rfl, rfl⟩
  · rintro ⟨key, sorts, _, _⟩
    exact OrderContext.sortsBy_orderable sorts

theorem keyOf_sortsBy {term : OrderTerm} {key : Sorting} (own : a = q.adapter)
    (sorts : r.SortsBy a q options base term key) : r.KeyOf a q base term key :=
  ⟨OrderContext.sortsBy_addresses own Scope.Placed.root_placed sorts.target, sorts.direction, sorts.nulls⟩

-- An order is accepted if every term may be sorted by, and then adds one key for each term, in their order.
theorem applyOrder_exact {terms : List OrderTerm} (served : r.adapterFor q = .ok a) (nonempty : terms ≠ []) :
    ((∃ sorted, r.applyOrder base q terms options = .ok sorted) ↔
      ∀ term ∈ terms, term.path.isEmpty = false ∧ options.access.allows term.path = true ∧
        term.path.length - 1 ≤ r.settings.maxDepth ∧ r.Orderable a options .empty q term.path.segments) ∧
    ∀ sorted, r.applyOrder base q terms options = .ok sorted →
      ∃ js keys, sorted = (base.joining js).sortedBy keys ∧ List.Forall₂ (r.KeyOf a q base) terms keys := by
  have own := (AdapterSet.forQueryable_exact served).symm
  have accepted_exact : ∀ sorted, r.applyOrder base q terms options = .ok sorted ↔
      (∀ term ∈ terms, options.access.allows term.path = true) ∧ r.orderBy a q options base terms = .ok sorted := by
    intro sorted
    simp [applyOrder_parts, nonempty, served]
  simp only [accepted_exact, orderBy_exact base rfl rfl]
  refine ⟨?_, ?_⟩
  · constructor
    · rintro ⟨sorted, permitted, shallow, keys, sorts, _⟩ term member
      have leads := (orderable_exact base term).mpr (exists_forall₂.mp ⟨keys, sorts⟩ term member)
      refine ⟨?_, permitted term member, checkDepth_exact.mp (shallow term member), leads⟩
      obtain ⟨hops, last, _, _, shape, _⟩ := leads
      simp [FieldPath.isEmpty, shape]
    · intro each
      obtain ⟨keys, sorts⟩ := exists_forall₂.mpr fun term member =>
        (orderable_exact base term).mp (each term member).2.2.2
      exact ⟨_, fun term member => (each term member).2.1,
        fun term member => checkDepth_exact.mpr (each term member).2.2.1, keys, sorts, rfl⟩
  · rintro sorted ⟨_, _, keys, sorts, rfl⟩
    rw [CompiledQuery.foldl_addJoin_joining]
    exact ⟨_, keys, rfl, sorts.imp fun _ _ => keyOf_sortsBy own⟩

end Resolver

-- Novels by their author, then by their longest chapter.
def byAuthorThenLength : List OrderTerm :=
  [⟨⟨["author", "name"]⟩, .asc, .first⟩, ⟨⟨["chapters", "pages"]⟩, .desc, .default⟩]

def chaptersOpened : CompileOptions := { CompileOptions.standard with orderThrough := ["chapters"] }

theorem byAuthorThenLength_order : novelResolver.adapterFor novel = .ok .postgres ∧ byAuthorThenLength ≠ [] ∧
    (∃ sorted js keys,
      novelResolver.applyOrder (.forQueryable novel) novel byAuthorThenLength chaptersOpened = .ok sorted ∧
        sorted = ((CompiledQuery.forQueryable novel).joining js).sortedBy keys ∧
        List.Forall₂ (novelResolver.KeyOf .postgres novel (.forQueryable novel)) byAuthorThenLength keys) ∧
    ¬∀ term ∈ byAuthorThenLength, novelResolver.Orderable .postgres .standard .empty novel term.path.segments := by
  have served : novelResolver.adapterFor novel = .ok .postgres := by rfl
  have nonempty : byAuthorThenLength ≠ [] := by decide
  have accepted : (novelResolver.applyOrder (.forQueryable novel) novel byAuthorThenLength chaptersOpened).isOk = true := by
    decide +kernel
  have refused : (novelResolver.applyOrder (.forQueryable novel) novel byAuthorThenLength .standard).isOk = false := by
    decide +kernel
  refine ⟨served, nonempty, ?_, ?_⟩
  · obtain ⟨sorted, sorts⟩ := ok_of_isOk accepted
    obtain ⟨js, keys, shape, all⟩ := (Resolver.applyOrder_exact served nonempty).2 sorted sorts
    exact ⟨sorted, js, keys, sorts, shape, all⟩
  · intro leads
    have checked : ∀ term ∈ byAuthorThenLength, term.path.isEmpty = false ∧
        CompileOptions.standard.access.allows term.path = true ∧
          term.path.length - 1 ≤ novelResolver.settings.maxDepth := by decide
    have taken : ∃ sorted, novelResolver.applyOrder (.forQueryable novel) novel byAuthorThenLength .standard = .ok sorted := by
      refine (Resolver.applyOrder_exact served nonempty).1.mpr ?_
      intro term member
      obtain ⟨long, permitted, shallow⟩ := checked term member
      exact ⟨long, permitted, shallow, leads term member⟩
    obtain ⟨sorted, sorts⟩ := taken
    rw [sorts] at refused
    cases refused

end FilterQuery
