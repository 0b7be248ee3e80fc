import FilterQuery.Proofs.Bindings
import FilterQuery.Proofs.FilterMeaning
import FilterQuery.Proofs.LeafReads

namespace FilterQuery

-- An association that is reached from the definition.
def Resolver.Links (r : Resolver) (a : Adapter) (root : Queryable) (hop : Hop) : Prop :=
  ∃ path owner name, r.reach? a root path = some owner ∧ r.cross? a owner name = some hop

-- The associations that can be reached from the definitions that the steps are told from.
def QueryStep.Links (r : Resolver) (steps : List QueryStep) (hop : Hop) : Prop :=
  ∃ step ∈ steps, r.Links step.root.adapter step.root hop

-- The associations that may be followed, and what may stand where the names are in scope: columns of fields and,
-- by their qualifier, keys of associations.
structure ScopeRules where
  link : Hop → Prop
  column : List String → Option String → String → Prop
  key : List String → String → Prop
  column_wider : names ⊆ wider → column names table name → column wider table name
  key_own : binding ∈ names → key names binding
  key_wider : names ⊆ wider → key names binding → key wider binding

-- A to-one association from a row that is named before.
def Join.Follows (rules : ScopeRules) (names : List String) (j : Join) : Prop :=
  ∃ parent hop, rules.link hop ∧ hop.link.cardinality = .one ∧ rules.key names parent ∧
    j = ⟨.left, hop.related.source, j.binding, correlation parent j.binding hop.link⟩

-- Each join follows from the names before it.
def Joined (rules : ScopeRules) : List String → List Join → Prop
  | _, [] => True
  | names, j :: rest => j.Follows rules names ∧ Joined rules (names ++ [j.binding]) rest

theorem joined_append {rules : ScopeRules} {names : List String} {joins added : List Join} :
    Joined rules names (joins ++ added) ↔
      Joined rules names joins ∧ Joined rules (names ++ joins.map Join.binding) added := by
  induction joins generalizing names with
  | nil => simp [Joined]
  | cons j rest ih => simp [Joined, ih, and_assoc]

-- The related rows of one parent row, narrowed further.
def Select.related (parent binding : String) (hop : Hop) (joins : List Join) (rest : List Expr) : Select :=
  { Select.new hop.related.source with
    binding
    columns := [.template ⟨"1", []⟩ []]
    joins
    conditions := correlation parent binding hop.link :: rest }

namespace Read

-- To-many associations are looked into or taken the least or greatest value of.
inductive Laid (rules : ScopeRules) : List String → Read → Prop
  | column (allowed : rules.column names table name) : Laid rules names (.column table name)
  | rows (linked : rules.link hop) (many : hop.link.cardinality = .many) (parent_known : rules.key names parent)
      (joined : Joined rules [binding] joins)
      (inner : ∀ e ∈ rest, ∀ x ∈ e.reads, Laid rules ((Select.related parent binding hop joins rest).names ++ names) x) :
      Laid rules names (.rows (.related parent binding hop joins rest))
  | scalar (linked : rules.link hop) (many : hop.link.cardinality = .many) (parent_known : rules.key names parent)
      (allowed : rules.column (binding :: names) (some binding) field) :
      Laid rules names (.scalar (CompiledQuery.aggregateSelect parent binding hop.link hop.related field direction))

theorem Laid.wider {rules : ScopeRules} {x : Read} {names more : List String}
    (laid : x.Laid rules names) (within : names ⊆ more) : x.Laid rules more := by
  induction laid generalizing more with
  | column allowed => exact .column (rules.column_wider within allowed)
  | rows linked many known joined _ ih =>
    refine .rows linked many (rules.key_wider within known) joined ?_
    intro e member x read
    refine ih e member x read (List.append_subset.mpr ⟨List.subset_append_left .., ?_⟩)
    exact List.subset_append_of_subset_right _ within
  | scalar linked many known allowed =>
    exact .scalar linked many (rules.key_wider within known) (rules.column_wider (List.cons_subset_cons _ within) allowed)

end Read

namespace Select

-- What is written in a SELECT, the conditions of its joins aside.
def clauses (s : Select) : List Expr := s.columns ++ s.conditions ++ s.orders.map SortKey.expr

structure Laid (rules : ScopeRules) (s : Select) : Prop where
  joins : Joined rules [s.binding] s.joins
  reads : ∀ e ∈ s.clauses, ∀ x ∈ e.reads, x.Laid rules s.names

variable {rules : ScopeRules} {s : Select}

-- With joins added at the end.
def withJoins (s : Select) (added : List Join) : Select := { s with joins := s.joins ++ added }

theorem names_withJoins (s : Select) (added : List Join) :
    (s.withJoins added).names = s.names ++ added.map Join.binding := by
  simp [withJoins, names]

theorem withJoins_nil (s : Select) : s.withJoins [] = s := by
  cases s
  simp [withJoins]

theorem withJoins_withJoins (s : Select) (added further : List Join) :
    (s.withJoins added).withJoins further = s.withJoins (added ++ further) := by
  simp [withJoins]

theorem names_subset_withJoins (s : Select) (added : List Join) : s.names ⊆ (s.withJoins added).names := by
  rw [names_withJoins]
  exact List.subset_append_left ..

theorem Laid.withJoins {added : List Join} (laid : s.Laid rules) (follow : Joined rules s.names added) :
    (s.withJoins added).Laid rules := by
  refine ⟨joined_append.mpr ⟨laid.joins, follow⟩, ?_⟩
  intro e member x read
  exact (laid.reads e member x read).wider (s.names_subset_withJoins added)

theorem join_withJoins (s : Select) (j : Join) (follows : j.Follows rules s.names) :
    ∃ added, s.join j = s.withJoins added ∧ Joined rules s.names added ∧ j.binding ∈ (s.withJoins added).names := by
  by_cases there : s.hasJoin j.binding = true
  · refine ⟨[], by rw [join, if_pos there, withJoins_nil], trivial, ?_⟩
    rw [withJoins_nil]
    obtain ⟨k, member, same⟩ := List.any_eq_true.mp there
    refine List.mem_cons_of_mem _ (List.mem_map.mpr ⟨k, member, ?_⟩)
    simpa using same
  · refine ⟨[j], by rw [join, if_neg there]; rfl, ⟨follows, trivial⟩, ?_⟩
    simp [names_withJoins]

theorem Laid.andWhere (laid : s.Laid rules) (e : Expr) (reads : ∀ x ∈ e.reads, x.Laid rules s.names) :
    (s.andWhere e).Laid rules := by
  refine ⟨laid.joins, ?_⟩
  intro part member x read
  simp only [clauses, Select.andWhere, List.mem_append] at member
  rcases member with (column | old | new) | order
  · exact laid.reads part (by simp [clauses, column]) x read
  · exact laid.reads part (by simp [clauses, old]) x read
  · exact reads x (Expr.mem_reads_conjuncts e new read)
  · exact laid.reads part (by simp [clauses, List.mem_map.mp order]) x read

theorem Laid.orderBy (laid : s.Laid rules) (key : SortKey) (reads : ∀ x ∈ key.expr.reads, x.Laid rules s.names) :
    (s.orderBy key).Laid rules := by
  refine ⟨laid.joins, ?_⟩
  intro part member x read
  simp only [clauses, Select.orderBy, List.map_append, List.mem_append, List.map_singleton, List.mem_singleton] at member
  rcases member with old | order | rfl
  · exact laid.reads part (by simp only [clauses, List.mem_append]; exact .inl old) x read
  · exact laid.reads part (by simp only [clauses, List.mem_append]; exact .inr order) x read
  · exact reads x read

end Select

namespace CompiledQuery

theorem bindToOne_grows {s : Select} {hop : Hop} (rules : ScopeRules) (d : Dialect) (binding : String)
    (linked : rules.link hop) (one : hop.link.cardinality = .one) (here : parent ∈ s.names) :
    ∃ added, (sql d s).bindToOne parent binding hop.link hop.related = sql d (s.withJoins added) ∧
      Joined rules s.names added ∧ binding ∈ (s.withJoins added).names := by
  have follows : Join.Follows rules s.names
      ⟨.left, hop.related.source, binding, correlation parent binding hop.link⟩ :=
    ⟨parent, hop, linked, one, rules.key_own here, rfl⟩
  obtain ⟨added, grown, follow, named⟩ := s.join_withJoins _ follows
  exact ⟨added, congrArg (sql d) grown, follow, named⟩

theorem select_of_computed {outcome : Except ε CompiledQuery} {f : Select → α}
    (computed : (outcome.toOption.bind select?).map f = some a) : ∃ d s, outcome = .ok (.sql d s) ∧ f s = a := by
  obtain ⟨s, found, same⟩ := Option.map_eq_some_iff.mp computed
  obtain ⟨query, given, selected⟩ := Option.bind_eq_some_iff.mp found
  cases query with
  | search request => cases selected
  | sql d s' =>
    cases selected
    exact ⟨d, s, ok_of_toOption given, same⟩

theorem forQueryable_of_sql {q : Queryable} (sql : q.adapter.kind = .sql) :
    ∃ d, forQueryable q = .sql d (Select.new q.source) := by
  unfold forQueryable
  cases adapter : q.adapter <;> first | exact ⟨_, rfl⟩ | (rw [adapter] at sql; cases sql)

end CompiledQuery

theorem Select.laid_new (rules : ScopeRules) (table : String) : (Select.new table).Laid rules :=
  ⟨trivial, by simp [clauses, Select.new]⟩

theorem mem_correlation_reads {x : Read} {parent binding : String} {link : Link} :
    x ∈ (correlation parent binding link).reads ↔
      x = .column (some binding) link.relatedKey ∨ x = .column (some parent) link.ownerKey := by
  simp [correlation]

namespace Select

variable {rules : ScopeRules} {s t : Select}

theorem mem_exprs {e : Expr} : e ∈ s.exprs ↔ e ∈ s.clauses ∨ ∃ j ∈ s.joins, j.condition = e := by
  simp only [exprs, clauses, List.mem_append, List.mem_map, or_assoc, or_comm (b := ∃ j ∈ s.joins, _)]

theorem follows_of_mem {j : Join} {names : List String} {joins : List Join} (joined : Joined rules names joins)
    (member : j ∈ joins) :
    ∃ before after, joins = before ++ j :: after ∧ j.Follows rules (names ++ before.map Join.binding) := by
  obtain ⟨before, after, rfl⟩ := List.append_of_mem member
  exact ⟨before, after, rfl, (joined_append.mp joined).2.1⟩

-- A SELECT inside has besides what is laid out the correlation with its parent.
structure LaidWithin (rules : ScopeRules) (around : List String) (t : Select) : Prop where
  joins : Joined rules [t.binding] t.joins
  clauses : ∀ e ∈ t.clauses, (∀ x ∈ e.reads, x.Laid rules (t.names ++ around)) ∨
    ∃ parent hop, rules.link hop ∧ hop.link.cardinality = .many ∧ rules.key around parent ∧
      e = correlation parent t.binding hop.link

theorem LaidWithin.subquery {e : Expr} (within : t.LaidWithin rules around) (written : e ∈ t.exprs)
    (read : .rows u ∈ e.reads ∨ .scalar u ∈ e.reads) : ∀ x ∈ e.reads, x.Laid rules (t.names ++ around) := by
  have columns_only : ∀ parent binding link, e ≠ correlation parent binding link := by
    rintro parent binding link rfl
    rcases read with read | read <;> rcases mem_correlation_reads.mp read with same | same <;> cases same
  rcases mem_exprs.mp written with clause | ⟨j, member, rfl⟩
  · rcases within.clauses e clause with laid | ⟨parent, hop, _, _, _, same⟩
    · exact laid
    · exact absurd same (columns_only _ _ _)
  · obtain ⟨_, _, _, parent, hop, _, _, _, same⟩ := follows_of_mem within.joins member
    exact absurd (congrArg Join.condition same) (columns_only _ _ _)

theorem laidWithin_rows (laid : (Read.rows u).Laid rules around) : u.LaidWithin rules around := by
  cases laid with
  | rows linked many known follow inner =>
    refine ⟨follow, ?_⟩
    intro e member
    simp only [Select.clauses, related, Select.new, List.map_nil, List.append_nil, List.cons_append,
      List.nil_append, List.mem_cons] at member
    rcases member with rfl | rfl | among
    · exact .inl (by simp)
    · exact .inr ⟨_, _, linked, many, known, rfl⟩
    · exact .inl (inner e among)

theorem laidWithin_scalar (laid : (Read.scalar u).Laid rules around) : u.LaidWithin rules around := by
  cases laid with
  | scalar linked many known allowed =>
    refine ⟨trivial, ?_⟩
    intro e member
    simp only [Select.clauses, CompiledQuery.aggregateSelect, Select.andWhere, Select.new, correlation,
      Expr.conjuncts, List.map_nil, List.append_nil, List.nil_append, List.mem_append, List.mem_singleton] at member
    rcases member with rfl | rfl
    · refine .inl ?_
      intro x read
      simp only [Expr.reads_func, Expr.listReads_cons, Expr.reads_column, Expr.listReads_nil, List.append_nil,
        List.mem_singleton] at read
      rw [read]
      exact .column allowed
    · exact .inr ⟨_, _, linked, many, known, rfl⟩

theorem Laid.holds (laid : s.Laid rules) (holds : s.Holds around t) : t.LaidWithin rules around := by
  induction holds with
  | self =>
    refine ⟨laid.joins, ?_⟩
    intro e member
    rw [List.append_nil]
    exact .inl (laid.reads e member)
  | inner outer written read within =>
    have here := within.subquery written read
    rcases read with read | read
    · exact laidWithin_rows (here _ read)
    · exact laidWithin_scalar (here _ read)

end Select

-- The field at the end of the path may be named wherever the binding of the path is in scope.
def ScopeRules.Tells (rules : ScopeRules) (base : CompiledQuery) (path : FieldPath) : Prop :=
  ∀ before name, path = before.child name → ∀ names, base.bindingAt before ∈ names →
    rules.column names (qualifier (base.bindingAt before)) name ∧ rules.column names (some (base.bindingAt before)) name

namespace Route

variable {c : FilterContext} {rules : ScopeRules} {root : Queryable} {base : CompiledQuery}

theorem test_laid {scope : Scope} {l : Leaf} {p : Predicate} (flat : l.field.firstHop? = none)
    (told : rules.Tells base (scope.path.append l.field)) (bound : scope.binding = base.bindingAt scope.path)
    (here : scope.binding ∈ names) (tested : c.test scope l = .ok p) :
    ∀ x ∈ p.reads, x.Laid rules names := by
  intro x read
  obtain ⟨name, head, rfl⟩ := FilterContext.test_reads tested read
  have ends : scope.path.append l.field = scope.path.child name := by
    rw [FieldPath.append, FieldPath.single_of_flat head flat]
    rfl
  rw [bound] at here ⊢
  exact .column (told scope.path name ends names here).1

theorem closeSelect_reads (parent binding : String) (hop : Hop) (mode : ToManyMode) (e : Expr) (joins : List Join) :
    ∃ rest, (∀ part ∈ rest, ∀ x ∈ part.reads, x ∈ e.reads) ∧
      (CompiledQuery.closeSelect (Select.withJoins
        { Select.new hop.related.source with binding, columns := [.template ⟨"1", []⟩ []] } joins)
        parent binding hop.link mode e).reads = [.rows (.related parent binding hop joins rest)] := by
  cases mode with
  | anyMatch => exact ⟨e.conjuncts, fun part member x read => Expr.mem_reads_conjuncts e member read, rfl⟩
  | allMatch =>
    refine ⟨e.violation.conjuncts, ?_, rfl⟩
    intro part member x read
    rw [← e.reads_violation]
    exact Expr.mem_reads_conjuncts _ member read

mutual
theorem compile_laid (route : Route) {scope : Scope} {s : Select} {joined : CompiledQuery} {p : Predicate}
    (linked : ∀ hop, c.resolver.Links c.adapter root hop → rules.link hop) (flat : route.Flat)
    (told : ∀ l ∈ route.leaves scope.path, rules.Tells base l.field) (kind : base.kind = .sql)
    (placed : scope.Placed c.resolver c.adapter root base) (here : scope.binding ∈ s.names)
    (compiled : route.compile c scope (.sql d s) = .ok (p, joined)) :
    ∃ added, joined = .sql d (s.withJoins added) ∧ Joined rules s.names added ∧
      ∀ around, ∀ x ∈ p.reads, x.Laid rules ((s.withJoins added).names ++ around) := by
  cases route with
  | test l =>
    obtain ⟨tested, rfl⟩ := test_parts.mp compiled
    refine ⟨[], by rw [s.withJoins_nil], trivial, ?_⟩
    intro around
    rw [s.withJoins_nil]
    exact test_laid flat (told _ (List.mem_singleton.mpr rfl)) placed.bound (List.mem_append_left _ here) tested
  | negate inner =>
    obtain ⟨plain, inside, rfl⟩ := negate_parts.mp compiled
    rw [Predicate.reads_negate]
    exact compile_laid inner linked flat told kind placed here inside
  | join op parts =>
    obtain ⟨ps, inside, rfl⟩ := join_parts.mp compiled
    obtain ⟨added, grown, follow, reads⟩ := compileAll_laid parts linked flat told kind placed here inside
    refine ⟨added, grown, follow, ?_⟩
    intro around x read
    obtain ⟨p, member, read⟩ := Predicate.mem_reads_join _ op read
    exact reads around p member x read
  | through head inner =>
    obtain ⟨hop, crossed, way⟩ := through_parts.mp compiled
    have link := linked hop ⟨scope.path.segments, scope.queryable, head, placed.reached, crossed⟩
    have entered := placed.enter_placed (q := .sql d s) crossed kind.symm
    rcases way with ⟨one, inside⟩ | ⟨many, rfl, plain, below, inside, closed⟩
    · obtain ⟨first, grown, follow, named⟩ := CompiledQuery.bindToOne_grows rules d
        ((CompiledQuery.sql d s).bindingFor (scope.path.child head)) link one here
      rw [grown] at inside
      obtain ⟨further, rfl, later, reads⟩ := compile_laid inner linked flat told kind entered named inside
      rw [Select.withJoins_withJoins] at reads ⊢
      rw [Select.names_withJoins] at later
      exact ⟨first ++ further, rfl, joined_append.mpr ⟨follow, later⟩, reads⟩
    · refine ⟨[], by rw [s.withJoins_nil], trivial, ?_⟩
      intro around x read
      rw [s.withJoins_nil]
      obtain ⟨added, rfl, follow, reads⟩ := compile_laid inner linked flat told kind entered (List.mem_cons_self ..) inside
      cases plain with
      | search clause => cases closed
      | sql e =>
        cases Option.some.inj closed
        obtain ⟨rest, from_inner, written⟩ := closeSelect_reads scope.binding
          ((CompiledQuery.sql d s).bindingFor (scope.path.child head)) hop c.mode e added
        rw [Predicate.reads, written, List.mem_singleton] at read
        rw [read]
        refine .rows link many (rules.key_own (List.mem_append_left _ here)) follow ?_
        intro part member y inner_read
        exact reads (s.names ++ around) y (from_inner part member y inner_read)

theorem compileAll_laid (parts : List Route) {scope : Scope} {s : Select} {joined : CompiledQuery}
    {ps : List Predicate} (linked : ∀ hop, c.resolver.Links c.adapter root hop → rules.link hop) (flat : AllFlat parts)
    (told : ∀ l ∈ listLeaves scope.path parts, rules.Tells base l.field) (kind : base.kind = .sql)
    (placed : scope.Placed c.resolver c.adapter root base) (here : scope.binding ∈ s.names)
    (compiled : compileAll c scope parts (.sql d s) = .ok (ps, joined)) :
    ∃ added, joined = .sql d (s.withJoins added) ∧ Joined rules s.names added ∧
      ∀ around, ∀ p ∈ ps, ∀ x ∈ p.reads, x.Laid rules ((s.withJoins added).names ++ around) := by
  cases parts with
  | nil =>
    obtain ⟨rfl, rfl⟩ := nil_parts.mp compiled
    exact ⟨[], by rw [s.withJoins_nil], trivial, by simp⟩
  | cons part rest =>
    obtain ⟨p, mid, others, first, later, rfl⟩ := cons_parts.mp compiled
    obtain ⟨added, rfl, follow, reads⟩ :=
      compile_laid part linked flat.1 (fun l member => told l (List.mem_append_left _ member)) kind placed here first
    obtain ⟨further, rfl, follow', reads'⟩ := compileAll_laid rest linked flat.2
      (fun l member => told l (List.mem_append_right _ member)) kind placed (s.names_subset_withJoins added here) later
    rw [Select.withJoins_withJoins] at reads' ⊢
    rw [Select.names_withJoins] at follow'
    refine ⟨added ++ further, rfl, joined_append.mpr ⟨follow, follow'⟩, ?_⟩
    intro around p' member x read
    rcases List.mem_cons.mp member with rfl | among
    · refine (reads around x read).wider ?_
      rw [← s.withJoins_withJoins]
      refine List.append_subset.mpr ⟨?_, List.subset_append_right ..⟩
      exact List.subset_append_of_subset_left _ ((s.withJoins added).names_subset_withJoins further)
    · exact reads' around p' among x read
end

end Route

namespace OrderContext

variable {c : OrderContext} {rules : ScopeRules} {root : Queryable} {base : CompiledQuery}

theorem sortable_named {q : Queryable} {f : Field} (accepted : c.sortable q name = .ok f) :
    (c.adapter.fields q).find? (·.name == name) = some f := by
  obtain ⟨own, found, kept⟩ := bind_exact.mp accepted
  split at kept
  · cases kept
  · split at kept
    · cases kept
      exact Resolver.field_exact.mp found
    · cases kept

theorem aggregate_pushes {scope : Scope} {path : FieldPath} {hop : Hop} {rest : List String} {q sorted : CompiledQuery}
    (accepted : c.aggregate scope path hop rest q = .ok sorted) :
    ∃ last f, rest = [last] ∧ c.sortable hop.related last = .ok f ∧
      sorted = q.pushAggregateOrder scope.binding (q.bindingFor path) hop.link hop.related f.column c.term.direction
        c.term.nulls := by
  unfold aggregate at accepted
  split at accepted
  · cases accepted
  · split at accepted
    · rename_i last
      obtain ⟨f, found, pushed⟩ := bind_exact.mp accepted
      cases pushed
      exact ⟨last, f, rfl, found, rfl⟩
    · cases accepted

-- One term adds the joins on its way and one key to sort by.
theorem walk_laid {names : List String} {scope : Scope} {s : Select} {sorted : CompiledQuery}
    (linked : ∀ hop, c.resolver.Links c.adapter root hop → rules.link hop) (told : rules.Tells base c.term.path)
    (way : scope.path.segments ++ names = c.term.path.segments)
    (kind : base.kind = .sql) (placed : scope.Placed c.resolver c.adapter root base) (here : scope.binding ∈ s.names)
    (laid : s.Laid rules) (accepted : c.walk scope (.sql d s) names = .ok sorted) :
    ∃ s', sorted = .sql d s' ∧ s'.table = s.table ∧ s'.binding = s.binding ∧ s'.Laid rules := by
  induction names generalizing scope s with
  | nil => cases accepted
  | cons name later ih =>
    cases later with
    | nil =>
      rw [walk] at accepted
      obtain ⟨f, found, pushed⟩ := bind_exact.mp accepted
      cases pushed
      refine ⟨_, rfl, rfl, rfl, laid.orderBy _ ?_⟩
      intro x read
      have ends : c.term.path = scope.path.child name := by
        rw [FieldPath.child, way]
      rw [List.mem_singleton.mp read, Adapter.field_column (sortable_named found)]
      rw [placed.bound] at here ⊢
      exact .column (told _ _ ends _ here).1
    | cons next rest =>
      obtain ⟨hop, crossed, further⟩ := walk_parts.mp accepted
      have link := linked hop ⟨scope.path.segments, scope.queryable, name, placed.reached, crossed⟩
      have entered := placed.enter_placed (q := .sql d s) crossed kind.symm
      rcases further with ⟨one, further⟩ | ⟨many, further⟩
      · obtain ⟨added, grown, follow, named⟩ := CompiledQuery.bindToOne_grows rules d
          ((CompiledQuery.sql d s).bindingFor (scope.path.child name)) link one here
        rw [grown] at further
        exact ih (s := s.withJoins added) (by simpa [Scope.enter, FieldPath.child] using way) entered named
          (laid.withJoins follow) further
      · obtain ⟨last, f, shape, found, rfl⟩ := aggregate_pushes further
        cases shape
        refine ⟨_, rfl, rfl, rfl, laid.orderBy _ ?_⟩
        intro x read
        have ends : c.term.path = (scope.path.child name).child next := by
          rw [FieldPath.child, FieldPath.child, List.append_assoc, List.singleton_append, way]
        have bound := entered.bound
        simp only [Scope.enter] at bound
        rw [List.mem_singleton.mp read, Adapter.field_column (sortable_named found)]
        refine .scalar link many (rules.key_own here) ?_
        rw [bound]
        exact (told _ _ ends _ (List.mem_cons_self ..)).2

end OrderContext

def CompiledQuery.rootTable : CompiledQuery → Option String
  | sql _ s => some s.table
  | search _ => none

-- A query that grew from the base has its table and binding.
structure CompiledQuery.GrownFrom (rules : ScopeRules) (base q : CompiledQuery) : Prop where
  kind : q.kind = base.kind
  rootTable : q.rootTable = base.rootTable
  rootBinding : q.rootBinding = base.rootBinding
  laid : ∀ d s, q = .sql d s → s.Laid rules

namespace Resolver

variable {r : Resolver} {rules : ScopeRules} {base q next : CompiledQuery} {root : Queryable} {options : CompileOptions}

theorem applyFilter_grown {node : FilterNode} (sql : base.kind = .sql) (grown : base.GrownFrom rules q)
    (linked : ∀ hop, r.Links root.adapter root hop → rules.link hop) (told : ∀ l ∈ node.leaves, rules.Tells base l.field)
    (accepted : r.applyFilter q root node options = .ok next) : base.GrownFrom rules next := by
  obtain ⟨valid, _, _, ⟨_, rfl⟩ | ⟨_, a, served, p, joined, compiled, narrows⟩⟩ := applyFilter_parts.mp accepted
  · exact grown
  · cases q with
    | search request =>
      rw [← grown.kind] at sql
      cases sql
    | sql d s =>
      have laid := grown.laid d s rfl
      have placed : (Scope.root root base.rootBinding).Placed r a root base := Scope.Placed.root_placed
      rw [← grown.rootBinding] at placed
      rw [AdapterSet.forQueryable_exact served] at linked
      obtain ⟨added, rfl, follow, reads⟩ := Route.compile_laid _ linked (Route.layout_flat _ node)
        (fun l member => told l ((Route.ofNode_leaves _ valid).mem_iff.mp member)) sql placed
        (List.mem_cons_self ..) compiled
      cases p with
      | search clause => cases narrows
      | sql e =>
        cases Option.some.inj narrows
        refine ⟨grown.kind, grown.rootTable, grown.rootBinding, ?_⟩
        intro d' s' same
        cases same
        refine (laid.withJoins follow).andWhere e ?_
        intro x read
        simpa using reads [] x read

theorem orderBy_grown {terms : List OrderTerm} (sql : base.kind = .sql) (grown : base.GrownFrom rules q)
    (linked : ∀ hop, r.Links a root hop → rules.link hop) (told : ∀ term ∈ terms, rules.Tells base term.path)
    (accepted : r.orderBy a root options q terms = .ok next) : base.GrownFrom rules next := by
  induction terms generalizing q with
  | nil =>
    cases accepted
    exact grown
  | cons term rest ih =>
    obtain ⟨_, mid, walked, later⟩ := orderBy_parts.mp accepted
    cases q with
    | search request =>
      rw [← grown.kind] at sql
      cases sql
    | sql d s =>
      have placed : (Scope.root root base.rootBinding).Placed r a root base := Scope.Placed.root_placed
      rw [← grown.rootBinding] at placed
      obtain ⟨s', rfl, table, binding, laid⟩ := OrderContext.walk_laid linked (told term (List.mem_cons_self ..)) rfl sql
        placed (List.mem_cons_self ..) (grown.laid d s rfl) walked
      refine ih (q := .sql d s')
        ⟨grown.kind, (congrArg some table).trans grown.rootTable, binding.trans grown.rootBinding, ?_⟩
        (fun term member => told term (List.mem_cons_of_mem _ member)) later
      intro d' s'' same
      cases same
      exact laid

end Resolver

-- The rules leave a step what it needs.
structure ScopeRules.Allows (rules : ScopeRules) (r : Resolver) (base : CompiledQuery) (step : QueryStep) : Prop where
  linked : ∀ hop, r.Links step.root.adapter step.root hop → rules.link hop
  told : ∀ path ∈ step.fields, rules.Tells base path

namespace QueryStep

variable {r : Resolver} {rules : ScopeRules} {base q next : CompiledQuery}

theorem run_grown {step : QueryStep} (sql : base.kind = .sql) (grown : base.GrownFrom rules q)
    (allowed : rules.Allows r base step) (ran : step.run r q = .ok next) :
    base.GrownFrom rules next := by
  cases step with
  | filter root node options =>
    exact Resolver.applyFilter_grown sql grown allowed.linked
      (fun l member => allowed.told _ (List.mem_map_of_mem member)) ran
  | order root terms options =>
    rw [run, Resolver.applyOrder] at ran
    split at ran
    · cases ran
      exact grown
    · obtain ⟨_, _, later⟩ := bind_exact.mp ran
      obtain ⟨a, served, accepted⟩ := bind_exact.mp later
      have linked := allowed.linked
      rw [QueryStep.root, AdapterSet.forQueryable_exact served] at linked
      exact Resolver.orderBy_grown sql grown linked
        (fun term member => allowed.told _ (List.mem_map_of_mem member)) accepted

theorem runAll_grown {steps : List QueryStep} (sql : base.kind = .sql) (grown : base.GrownFrom rules q)
    (allowed : ∀ step ∈ steps, rules.Allows r base step) (ran : runAll r q steps = .ok next) :
    base.GrownFrom rules next := by
  induction steps generalizing q with
  | nil =>
    cases ran
    exact grown
  | cons step rest ih =>
    obtain ⟨mid, first, later⟩ := bind_exact.mp ran
    exact ih (run_grown sql grown (allowed step (List.mem_cons_self ..)) first)
      (fun step member => allowed step (List.mem_cons_of_mem _ member)) later

-- Whatever is applied to a SELECT that is laid out leaves it laid out.
theorem runAll_laid {steps : List QueryStep} {s : Select} {query : CompiledQuery} (laid : s.Laid rules)
    (allowed : ∀ step ∈ steps, rules.Allows r (.sql d s) step)
    (ran : runAll r (.sql d s) steps = .ok query) :
    ∃ d' s', query = .sql d' s' ∧ s'.table = s.table ∧ s'.binding = s.binding ∧ s'.Laid rules := by
  have start : (CompiledQuery.sql d s).GrownFrom rules (.sql d s) := by
    refine ⟨rfl, rfl, rfl, ?_⟩
    intro d' s' same
    cases same
    exact laid
  have grown := runAll_grown rfl start allowed ran
  cases query with
  | search request => cases grown.kind
  | sql d' s' => exact ⟨d', s', rfl, Option.some.inj grown.rootTable, grown.rootBinding, grown.laid d' s' rfl⟩

end QueryStep
end FilterQuery
