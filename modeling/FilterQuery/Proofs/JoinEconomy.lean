import FilterQuery.Proofs.JoinUse

namespace FilterQuery

namespace Route

variable {c : FilterContext} {root : Queryable} {base : CompiledQuery}

theorem left_below (route : Route) {scope : Scope} (served : c.adapter = root.adapter)
    (placed : scope.Placed c.resolver root.adapter root base) (kept : path ∈ route.left c scope base) :
    path.Below scope.path := by
  rcases route.left_wanted root kept with rfl | ⟨b, wanted, rfl⟩
  · exact FieldPath.below_refl _
  · exact below_of_hops route ((route.wants_strung served placed).leads b wanted).1

mutual
-- Where no part is dropped, something is left at the end of each way.
theorem compile_remains (route : Route) {scope : Scope} {q joined : CompiledQuery} {p : Predicate}
    (own : c.adapter.kind = base.kind) (served : c.adapter = root.adapter)
    (placed : scope.Placed c.resolver c.adapter root base)
    (same : q.dialect? = base.dialect?) (flat : route.Flat) (filled : route.Filled)
    (undecided : ∀ l ∈ route.leaves scope.path, ∀ built ∈ c.leafPredicate? root base l, built.Undecided)
    (compiled : route.compile c scope q = .ok (p, joined)) :
    route.left c scope base ≠ [] ∧ route.Covers c root base scope ∧
      ∀ part ∈ route.opened c scope base, part.2.Covers c root base part.1 := by
  have kind := CompiledQuery.kind_of_dialect same
  have live := (lasts_exact same compiled).mpr (compile_contents route own placed kind flat filled undecided compiled).1
  cases route with
  | test l =>
    rw [left, if_pos live]
    exact ⟨by simp, by simp [Covers, wants], by simp [opened]⟩
  | negate inner =>
    obtain ⟨plain, inside, rfl⟩ := negate_parts.mp compiled
    exact compile_remains inner own served placed same flat filled undecided inside
  | join op parts =>
    obtain ⟨ps, inside, rfl⟩ := join_parts.mp compiled
    rw [Covers, left, opened, if_pos live, if_pos live]
    obtain ⟨kept, covers, deeper⟩ := compileAll_remains parts own served placed same flat filled.2 undecided inside
    exact ⟨kept filled.1, covers, deeper⟩
  | through head inner =>
    obtain ⟨hop, crossed, way⟩ := through_way same compiled
    have placed' := placed.enter_placed (q := base) crossed rfl
    rcases way with ⟨one, mid, same', inside⟩ | ⟨many, plain, below, inside, closed⟩
    · obtain ⟨kept, covers, deeper⟩ := compile_remains inner own served placed' same' flat filled undecided inside
      rw [Covers, left_one inner crossed one, opened_one inner crossed one, wants_one inner crossed one]
      refine ⟨kept, List.forall_mem_cons.mpr ⟨?_, covers⟩, deeper⟩
      obtain ⟨path, member⟩ := List.exists_mem_of_ne_nil _ kept
      exact ⟨path, member, left_below inner served (served ▸ placed') member⟩
    · obtain ⟨_, covers, deeper⟩ := compile_remains inner own served placed'
        ((CompiledQuery.dialect_openScope ..).trans same) flat filled undecided inside
      rw [Covers, left_many inner crossed many, opened_many inner crossed many, wants_many inner crossed many]
      exact ⟨by simp, by simp, List.forall_mem_cons.mpr ⟨covers, deeper⟩⟩

theorem compileAll_remains (parts : List Route) {scope : Scope} {q joined : CompiledQuery} {ps : List Predicate}
    (own : c.adapter.kind = base.kind) (served : c.adapter = root.adapter)
    (placed : scope.Placed c.resolver c.adapter root base)
    (same : q.dialect? = base.dialect?) (flat : AllFlat parts) (filled : AllFilled parts)
    (undecided : ∀ l ∈ listLeaves scope.path parts, ∀ built ∈ c.leafPredicate? root base l, built.Undecided)
    (compiled : compileAll c scope parts q = .ok (ps, joined)) :
    (parts ≠ [] → allLeft c scope base parts ≠ []) ∧
      (∀ b ∈ allWants c root scope base parts, ∃ path ∈ allLeft c scope base parts, path.Below b.path) ∧
      ∀ part ∈ allOpened c scope base parts, part.2.Covers c root base part.1 := by
  cases parts with
  | nil => simp [allWants, allOpened]
  | cons part rest =>
    obtain ⟨p, mid, others, here, later, rfl⟩ := cons_parts.mp compiled
    rw [listLeaves, List.forall_mem_append] at undecided
    have kept := (CompiledQuery.dialect_of_unjoined (compile_joins part here)).trans same
    obtain ⟨first, covers, deeper⟩ := compile_remains part own served placed same flat.1 filled.1 undecided.1 here
    obtain ⟨_, covers', deeper'⟩ := compileAll_remains rest own served placed kept flat.2 filled.2 undecided.2 later
    rw [allLeft, allWants, allOpened]
    refine ⟨fun _ => by simp [first], List.forall_mem_append.mpr ⟨?_, ?_⟩, List.forall_mem_append.mpr ⟨deeper, deeper'⟩⟩
    · intro b wanted
      obtain ⟨path, member, below⟩ := covers b wanted
      exact ⟨path, List.mem_append_left _ member, below⟩
    · intro b wanted
      obtain ⟨path, member, below⟩ := covers' b wanted
      exact ⟨path, List.mem_append_right _ member, below⟩
end

end Route

namespace FilterNode

-- No association has the alias that the table itself has.
def AliasesOwn (q : Queryable) (n : FilterNode) : Prop :=
  ∀ path ∈ n.crossed, (CompiledQuery.forQueryable q).bindingFor path ≠ q.source

theorem tellsPaths {q : Queryable} {n : FilterNode} (apart : n.AliasesApart q) (own : n.AliasesOwn q)
    (rooted : (CompiledQuery.forQueryable q).rootBinding = q.source) :
    (CompiledQuery.forQueryable q).TellsPaths fun path => path = .empty ∨ path ∈ n.crossed := by
  have root : ∀ path : FieldPath, path.isEmpty = true → path = .empty :=
    fun path empty => congrArg FieldPath.mk (List.isEmpty_iff.mp empty)
  have further : ∀ path : FieldPath, path.isEmpty = false → (path = .empty ∨ path ∈ n.crossed) → path ∈ n.crossed := by
    rintro path named (rfl | crossed)
    · cases named
    · exact crossed
  intro path known other known' same
  rw [CompiledQuery.bindingAt, CompiledQuery.bindingAt, rooted] at same
  cases empty : path.isEmpty <;> cases empty' : other.isEmpty <;> rw [empty, empty'] at same
  · exact apart path (further path empty known) other (further other empty' known') same
  · exact absurd same (own path (further path empty known))
  · exact absurd same.symm (own other (further other empty' known'))
  · rw [root path empty, root other empty']

end FilterNode

namespace Resolver

variable {r : Resolver} {q : Queryable} {filter : FilterNode} {options : CompileOptions} {d : Dialect} {s : Select}

theorem compileFilter_select (accepted : r.compileFilter q filter options = .ok (.sql d s)) : ∃ e js,
    filter.validate = .ok () ∧ CompiledQuery.forQueryable q = .sql d (.new q.source) ∧
    (Route.ofNode r.settings.reorder filter).compile ⟨r, q.adapter, options⟩ (.root q q.source) (.forQueryable q) =
      .ok (.sql e, .sql d { Select.new q.source with joins := js }) ∧
    s = { Select.new q.source with joins := js, conditions := e.conjuncts } := by
  obtain ⟨a, served⟩ := (compileFilter_parts.mp accepted).1
  obtain ⟨valid, _, _, p, joined, compiled, narrows⟩ := (compileFilter_route served).mp accepted
  obtain rfl := AdapterSet.forQueryable_exact served
  have frame := Route.compile_joins _ compiled
  cases joined with
  | search _ => cases p <;> cases narrows
  | sql d' t =>
    cases p with
    | search _ => cases narrows
    | sql e =>
      cases narrows
      obtain ⟨table, name, columns, joins, conditions, orders, limit, offset⟩ := t
      cases dialect : q.adapter.dialect? with
      | none =>
        rw [CompiledQuery.forQueryable, dialect] at frame
        cases frame
      | some d' =>
        have fresh : CompiledQuery.forQueryable q = .sql d' (.new q.source) := by
          rw [CompiledQuery.forQueryable, dialect]
        rw [fresh] at frame compiled ⊢
        cases frame
        exact ⟨e, joins, valid, rfl, compiled, rfl⟩

theorem placed_fresh (fresh : CompiledQuery.forQueryable q = .sql d (.new q.source)) :
    (Scope.root q q.source).Placed r q.adapter q (.forQueryable q) := ⟨rfl, by rw [fresh]; rfl⟩

-- Everything that is joined, around the filter and in each subquery of it, leads to something that is left.
def JoinsCovered (r : Resolver) (q : Queryable) (filter : FilterNode) (options : CompileOptions) : Prop :=
  let c : FilterContext := ⟨r, q.adapter, options⟩
  let route := Route.ofNode r.settings.reorder filter
  route.Covers c q (.forQueryable q) (.root q q.source) ∧
    ∀ part ∈ route.opened c (.root q q.source) (.forQueryable q), part.2.Covers c q (.forQueryable q) part.1

theorem mem_crossed (valid : filter.validate = .ok ()) (reorder : Bool) (path : FieldPath) :
    path ∈ (Route.ofNode reorder filter).hops .empty ↔ path ∈ filter.crossed := by
  rw [Route.layout_hops _ path filter .empty (filter.negatesOne_of_valid valid), FilterNode.crossed, List.mem_flatMap]

theorem economical_exact (accepted : r.compileFilter q filter options = .ok (.sql d s)) (apart : filter.AliasesApart q)
    (own : filter.AliasesOwn q) : s.Economical ↔ r.JoinsCovered q filter options := by
  obtain ⟨e, js, valid, fresh, compiled, shape⟩ := compileFilter_select accepted
  let c : FilterContext := ⟨r, q.adapter, options⟩
  let route := Route.ofNode r.settings.reorder filter
  have sql : (CompiledQuery.forQueryable q).kind = .sql := by rw [fresh]; rfl
  have kind : c.adapter.kind = .sql := (CompiledQuery.kind_forQueryable q).symm.trans sql
  have tells := filter.tellsPaths apart own (by rw [fresh]; rfl)
  have placed := placed_fresh (r := r) fresh
  have within : ∀ path ∈ route.hops .empty, path = .empty ∨ path ∈ filter.crossed :=
    fun path member => .inr ((mem_crossed valid _ path).mp member)
  have strung := route.wants_strung (c := c) rfl placed
  have gains : Gains (route.wants c q (.root q q.source) (.forQueryable q)) (.forQueryable q) _ :=
    Route.compile_gains sql rfl compiled
  have joins : ∀ j, j ∈ s.joins ↔ ∃ b ∈ route.wants c q (.root q q.source) (.forQueryable q), b.join = j := by
    rw [shape]
    exact gains.joins_exact (CompiledQuery.joins_forQueryable q) strung tells fun b member =>
      within _ (strung.leads b member).1
  have columns : s.columns = [] := by rw [shape]; rfl
  have tests : s.tests = e.conjuncts := by rw [shape]; exact List.append_nil _
  have names := route.compile_names sql kind rfl placed rfl compiled
  have inner := route.compile_economical sql kind rfl tells placed (.inl rfl) within rfl compiled
  refine (Route.economical_select rfl names strung tells (.inl rfl) within joins (by simp [columns]) [] ?_
    (by simp)).trans (and_congr_right fun _ => inner)
  intro x
  rw [tests, Expr.mem_conjuncts_reads]
  simp [Predicate.reads]

theorem covered_of_undecided (accepted : r.compileFilter q filter options = .ok (.sql d s)) (occupied : filter.Occupied)
    (undecided : ∀ l ∈ filter.leaves,
      ∀ p ∈ FilterContext.leafPredicate? ⟨r, q.adapter, options⟩ q (.forQueryable q) l, p.Undecided) :
    r.JoinsCovered q filter options := by
  obtain ⟨e, js, valid, fresh, compiled, _⟩ := compileFilter_select accepted
  have moved := Route.ofNode_leaves r.settings.reorder valid
  exact (Route.compile_remains _ (CompiledQuery.kind_forQueryable q).symm rfl (placed_fresh fresh) rfl
    (Route.layout_flat r.settings.reorder filter) (Route.layout_filled r.settings.reorder filter occupied)
    (fun l member => undecided l (moved.mem_iff.mp member)) compiled).2

-- A filter that constrains nothing leaves the query as it is, but for the joins that are made on the way.
theorem unchanged_exact (accepted : r.compileFilter q filter options = .ok (.sql d s)) (always : s.conditions = []) :
    .sql d s = CompiledQuery.forQueryable q ↔ ∀ path ∈ filter.crossed, ¬r.ToOne q.adapter q path.segments := by
  obtain ⟨e, js, valid, fresh, compiled, shape⟩ := compileFilter_select accepted
  let c : FilterContext := ⟨r, q.adapter, options⟩
  let route := Route.ofNode r.settings.reorder filter
  have sql : (CompiledQuery.forQueryable q).kind = .sql := by rw [fresh]; rfl
  have wanted : Wanted r (.forQueryable q) q (route.hops .empty)
      (route.wants c q (.root q q.source) (.forQueryable q)) :=
    route.wants_exact rfl (placed_fresh fresh) trivial compiled rfl
  have gains : Gains (route.wants c q (.root q q.source) (.forQueryable q)) (.forQueryable q) _ :=
    Route.compile_gains sql rfl compiled
  have unjoined : .sql d s = CompiledQuery.forQueryable q ↔ js = [] := by
    have dropped : e.conjuncts = [] := by rwa [shape] at always
    rw [fresh, shape, dropped, CompiledQuery.sql.injEq]
    simp [Select.new]
  refine (unjoined.trans (gains.joins_none (CompiledQuery.joins_forQueryable q))).trans ?_
  rw [List.eq_nil_iff_forall_not_mem]
  constructor
  · intro unwanted path crossed toOne
    obtain ⟨b, member, _⟩ := (wanted.exact path).mpr ⟨(mem_crossed valid _ path).mpr crossed, toOne⟩
    exact unwanted b member
  · intro unwanted b member
    obtain ⟨crossed, toOne⟩ := (wanted.exact b.path).mp ⟨b, member, rfl⟩
    exact unwanted b.path ((mem_crossed valid _ b.path).mp crossed) toOne

-- With different aliases for different tables, exactly what leads to something that is left is needed; so all is
-- where nothing comes to a constant. A filter that comes to true as a whole leaves behind whatever it has joined.
theorem compileFilter_joins (accepted : r.compileFilter q filter options = .ok (.sql d s)) :
    (filter.AliasesApart q → filter.AliasesOwn q →
      (s.Economical ↔ r.JoinsCovered q filter options) ∧
        (filter.Occupied → (∀ l ∈ filter.leaves,
            ∀ p ∈ FilterContext.leafPredicate? ⟨r, q.adapter, options⟩ q (.forQueryable q) l, p.Undecided) →
          s.Economical)) ∧
    (s.conditions = [] →
      (.sql d s = CompiledQuery.forQueryable q ↔ ∀ path ∈ filter.crossed, ¬r.ToOne q.adapter q path.segments)) := by
  refine ⟨fun apart own => ?_, unchanged_exact accepted⟩
  have needed := economical_exact accepted apart own
  exact ⟨needed, fun occupied undecided => needed.mpr (covered_of_undecided accepted occupied undecided)⟩

end Resolver

-- Novels whose author has a name that is not in the empty list: all of them.
def byAnyone : FilterNode := .leaf ⟨⟨["author", "name"]⟩, .notIn, .arr []⟩

-- The author is joined, and nothing names it.
theorem byAnyone_joined : ∃ d s, novelResolver.compileFilter novel byAnyone .standard = .ok (.sql d s) ∧
    byAnyone.AliasesApart novel ∧ byAnyone.AliasesOwn novel ∧ s.conditions = [] ∧
    s.joins.map Join.binding = ["author"] ∧ ¬s.Economical ∧ .sql d s ≠ CompiledQuery.forQueryable novel := by
  have apart : byAnyone.AliasesApart novel := by
    unfold FilterNode.AliasesApart
    decide +kernel
  have own : byAnyone.AliasesOwn novel := by
    unfold FilterNode.AliasesOwn
    decide +kernel
  have computed : ((novelResolver.compileFilter novel byAnyone .standard).toOption.bind CompiledQuery.select?).map
      (fun s => (s.tests.length, s.joins.map Join.binding)) = some (0, ["author"]) := by
    decide +kernel
  obtain ⟨d, s, compiled, shape⟩ := CompiledQuery.select_of_computed computed
  obtain ⟨untested, joined⟩ := Prod.mk.inj shape
  obtain ⟨j, joins, _⟩ := List.map_eq_singleton_iff.mp joined
  have testless : s.tests = [] := List.length_eq_zero_iff.mp untested
  refine ⟨d, s, compiled, apart, own, (List.append_eq_nil_iff.mp testless).1, joined, ?_, ?_⟩
  · intro economical
    exact (economical _ _ .self j (by simp [joins])).tested testless
  · intro unchanged
    have joins' := (congrArg CompiledQuery.joins unchanged).trans (CompiledQuery.joins_forQueryable novel)
    cases joins.symm.trans joins'

theorem annOrEmma_joins : ∃ d s, novelResolver.compileFilter novel annOrEmma .standard = .ok (.sql d s) ∧
    annOrEmma.AliasesApart novel ∧ annOrEmma.AliasesOwn novel ∧ annOrEmma.Occupied ∧
    (∀ l ∈ annOrEmma.leaves, ∀ p ∈ FilterContext.leafPredicate? ⟨novelResolver, novel.adapter, .standard⟩ novel
      (.forQueryable novel) l, p.Undecided) ∧
    s.joins.map Join.binding = ["author"] ∧ s.Economical := by
  have apart : annOrEmma.AliasesApart novel := by
    unfold FilterNode.AliasesApart
    decide +kernel
  have own : annOrEmma.AliasesOwn novel := by
    unfold FilterNode.AliasesOwn
    decide +kernel
  have occupied : annOrEmma.Occupied := by
    simp [annOrEmma, editedByBo, namedAnn, titledEmma, longChapter, FilterNode.Occupied, FilterNode.AllOccupied]
  have undecided : ∀ l ∈ annOrEmma.leaves, ∀ p ∈ FilterContext.leafPredicate?
      ⟨novelResolver, novel.adapter, .standard⟩ novel (.forQueryable novel) l, p.Undecided := by decide +kernel
  have computed : ((novelResolver.compileFilter novel annOrEmma .standard).toOption.bind CompiledQuery.select?).map
      (fun s => s.joins.map Join.binding) = some ["author"] := by
    decide +kernel
  obtain ⟨d, s, compiled, joined⟩ := CompiledQuery.select_of_computed computed
  obtain ⟨_, economical⟩ := (Resolver.compileFilter_joins compiled).1 apart own
  exact ⟨d, s, compiled, apart, own, occupied, undecided, joined, economical occupied undecided⟩

end FilterQuery
