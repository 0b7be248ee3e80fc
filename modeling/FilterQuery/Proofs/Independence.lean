import FilterQuery.Proofs.SortKeys

namespace FilterQuery

namespace Select

-- Filters and orders write behind what is there, and neither reads what the other writes.
def constrained (s : Select) (es : List Expr) : Select := { s with conditions := s.conditions ++ es }

theorem constrained_nil (s : Select) : s.constrained [] = s := by
  cases s
  simp [constrained]

theorem join_constrained (s : Select) (es : List Expr) (j : Join) :
    (s.constrained es).join j = (s.join j).constrained es :=
  (apply_ite (fun t : Select => t.constrained es) (s.hasJoin j.binding = true) s
    { s with joins := s.joins ++ [j] }).symm

end Select

namespace CompiledQuery

-- What the predicates come to stands behind the conditions or the filters.
def narrowedBy (q : CompiledQuery) (ps : List Predicate) : CompiledQuery :=
  match q with
  | sql d s => sql d (s.constrained ((ps.filterMap Predicate.expr?).flatMap Expr.conjuncts))
  | search r => search { r with filters := r.filters ++ (ps.filterMap Predicate.clause?).flatMap Clause.conjuncts }

@[simp] theorem narrowedBy_nil (q : CompiledQuery) : q.narrowedBy [] = q := by
  cases q <;> simp [narrowedBy, Select.constrained_nil]

@[simp] theorem dialect_narrowedBy (q : CompiledQuery) (ps : List Predicate) : (q.narrowedBy ps).dialect? = q.dialect? := by
  cases q <;> rfl

@[simp] theorem rootBinding_narrowedBy (q : CompiledQuery) (ps : List Predicate) :
    (q.narrowedBy ps).rootBinding = q.rootBinding := by
  cases q <;> rfl

@[simp] theorem dialect_sortedBy (q : CompiledQuery) (keys : List Sorting) : (q.sortedBy keys).dialect? = q.dialect? := by
  cases q <;> rfl

theorem narrowedBy_sortedBy (q : CompiledQuery) (ps : List Predicate) (keys : List Sorting) :
    (q.sortedBy keys).narrowedBy ps = (q.narrowedBy ps).sortedBy keys := by
  cases q <;> rfl

theorem narrowedBy_addJoin (q : CompiledQuery) (ps : List Predicate) (j : Join) :
    (q.narrowedBy ps).addJoin j = (q.addJoin j).narrowedBy ps := by
  cases q with
  | search r => rfl
  | sql d s => exact congrArg (sql d) (s.join_constrained _ j)

theorem foldl_addJoin_narrowedBy (js : List Join) (q : CompiledQuery) (ps : List Predicate) :
    js.foldl addJoin (q.narrowedBy ps) = (js.foldl addJoin q).narrowedBy ps := by
  induction js generalizing q with
  | nil => rfl
  | cons j rest ih => rw [List.foldl_cons, List.foldl_cons, narrowedBy_addJoin, ih]

theorem andPredicate_adds {q narrowed : CompiledQuery} {p : Predicate} :
    q.andPredicate? p = some narrowed ↔ p.kind = q.kind ∧ narrowed = q.narrowedBy [p] := by
  cases q <;> cases p <;>
    simp [andPredicate?, kind, Predicate.kind, narrowedBy, Predicate.expr?, Predicate.clause?, Select.andWhere,
      Select.constrained, SearchRequest.andFilter, eq_comm]

-- All that a compilation reads of the query that it adds to.
structure Alike (q other : CompiledQuery) : Prop where
  dialect : other.dialect? = q.dialect?
  rootBinding : other.rootBinding = q.rootBinding

namespace Alike

theorem refl (q : CompiledQuery) : q.Alike q := ⟨rfl, rfl⟩

theorem kind {q other : CompiledQuery} (alike : q.Alike other) : other.kind = q.kind := kind_of_dialect alike.dialect

theorem joined (js : List Join) (q : CompiledQuery) : q.Alike (js.foldl addJoin q) :=
  ⟨dialect_of_unjoined (unjoined_foldl js q), rootBinding_foldl_addJoin js q⟩

theorem narrowed (js : List Join) (q : CompiledQuery) (ps : List Predicate) :
    q.Alike ((js.foldl addJoin q).narrowedBy ps) := by
  obtain ⟨dialect, rootBinding⟩ := joined js q
  exact ⟨(dialect_narrowedBy ..).trans dialect, (rootBinding_narrowedBy ..).trans rootBinding⟩

theorem sorted (js : List Join) (q : CompiledQuery) (keys : List Sorting) :
    q.Alike ((js.foldl addJoin q).sortedBy keys) := by
  obtain ⟨dialect, rootBinding⟩ := joined js q
  exact ⟨(dialect_sortedBy ..).trans dialect, (rootBinding_sortedBy ..).trans rootBinding⟩

end Alike

-- Two lists of joins, the one or the other first.
theorem joining_either (q : CompiledQuery) (js ks : List Join) :
    ∃ more more', (js ++ ks).foldl addJoin q = q.joining more ∧ (ks ++ js).foldl addJoin q = q.joining more' ∧
      ((q.kind = .sql → ∀ j ∈ js ++ ks, ∀ k ∈ js ++ ks, j.binding = k.binding → j = k) → more.Perm more') := by
  cases q with
  | search r => exact ⟨[], [], foldl_addJoin_search .., foldl_addJoin_search .., fun _ => .refl _⟩
  | sql d s =>
    refine ⟨_, _, foldl_addJoin_joining .., foldl_addJoin_joining .., ?_⟩
    intro distinct
    refine Join.fresh_perm _ (distinct rfl) ?_
    intro j
    rw [List.mem_append, List.mem_append, or_comm]

end CompiledQuery

-- The associations on the way to the fields of the terms.
def OrderTerm.crossed (terms : List OrderTerm) : List FieldPath :=
  terms.flatMap fun term => FieldPath.empty.hopsTo term.path.segments

namespace Resolver

variable {r : Resolver} {q : Queryable} {base narrowed sorted : CompiledQuery} {filter : FilterNode}
  {terms : List OrderTerm} {options : CompileOptions}

-- The join of an association at the end of one of the paths.
def JoinsAlong (r : Resolver) (q : Queryable) (base : CompiledQuery) (paths : List FieldPath) (j : Join) : Prop :=
  ∃ b : Bound, b.root = q ∧ b.path ∈ paths ∧ b.ByPath r base ∧ j = b.join

theorem joinsAlong_distinct {paths : List FieldPath} (apart : ∀ path ∈ paths, ∀ other ∈ paths,
    base.bindingFor path = base.bindingFor other → path = other) (along : r.JoinsAlong q base paths j)
    (along' : r.JoinsAlong q base paths k) (same : j.binding = k.binding) : j = k := by
  obtain ⟨b, led, among, byPath, rfl⟩ := along
  obtain ⟨b', led', among', byPath', rfl⟩ := along'
  obtain ⟨_, _, _, _, _, _, _, named⟩ := id byPath
  obtain ⟨_, _, _, _, _, _, _, named'⟩ := id byPath'
  have path : b.path = b'.path := by
    refine apart _ among _ among' ?_
    rw [← named, ← named']
    exact same
  exact Bound.join_of_path byPath byPath' (led.trans led'.symm) path

-- A filter adds the same joins and predicates to any query like the base.
theorem applyFilter_adds (accepted : r.applyFilter base q filter options = .ok narrowed) :
    ∃ (js : List Join) (ps : List Predicate), (∀ j ∈ js, r.JoinsAlong q base filter.crossed j) ∧
      ∀ other, base.Alike other → r.applyFilter other q filter options = .ok ((js.foldl .addJoin other).narrowedBy ps) := by
  obtain ⟨valid, permitted, shallow, ⟨empty, _⟩ | ⟨occupied, a, served, p, joined, compiled, narrows⟩⟩ :=
    applyFilter_parts.mp accepted
  · refine ⟨[], [], by simp, ?_⟩
    intro other _
    exact applyFilter_parts.mpr ⟨valid, permitted, shallow, .inl ⟨empty, CompiledQuery.narrowedBy_nil other⟩⟩
  · have own := (AdapterSet.forQueryable_exact served).symm
    refine ⟨(Route.ofNode r.settings.reorder filter).needs ⟨r, a, options⟩ (.root q base.rootBinding) base, [p], ?_, ?_⟩
    · intro j member
      obtain ⟨b, led, among, byPath, same⟩ := Route.needs_byPath _ own Scope.Placed.root_placed rfl j member
      refine ⟨b, led, ?_, byPath, same⟩
      rw [FilterNode.crossed, List.mem_flatMap]
      exact (Route.layout_hops _ _ filter .empty (filter.negatesOne_of_valid valid)).mp among
    · intro other alike
      obtain ⟨after, there⟩ := Route.compile_elsewhere _ alike.dialect.symm compiled
      have kept : after = _ := Route.compile_needs _ there
      rw [Route.needs_of_kind _ _ alike.kind] at kept
      refine applyFilter_parts.mpr ⟨valid, permitted, shallow, .inr ⟨occupied, a, served, p, after, ?_, ?_⟩⟩
      · rw [alike.rootBinding]
        exact there
      · refine CompiledQuery.andPredicate_adds.mpr ⟨?_, by rw [kept]⟩
        rw [(CompiledQuery.andPredicate_adds.mp narrows).1, Route.joined_kind compiled, Route.joined_kind there,
          alike.kind]

-- An order adds the same joins and keys, one key for each term and the one that it adds alone.
theorem applyOrder_adds (accepted : r.applyOrder base q terms options = .ok sorted) :
    ∃ (js : List Join) (keys : List Sorting), (∀ j ∈ js, r.JoinsAlong q base (OrderTerm.crossed terms) j) ∧
      List.Forall₂ (fun term key => key.direction = term.direction ∧ key.nulls = term.nulls ∧
        ∃ more, r.applyOrder base q [term] options = .ok ((base.joining more).sortedBy [key])) terms keys ∧
      ∀ other, base.Alike other → r.applyOrder other q terms options = .ok ((js.foldl .addJoin other).sortedBy keys) := by
  rcases applyOrder_parts.mp accepted with ⟨rfl, _⟩ | ⟨nonempty, permitted, a, served, added⟩
  · refine ⟨[], [], by simp, .nil, ?_⟩
    intro other _
    exact applyOrder_parts.mpr (.inl ⟨rfl, CompiledQuery.sortedBy_nil other⟩)
  · have own := (AdapterSet.forQueryable_exact served).symm
    obtain ⟨shallow, keys, sorts, _⟩ := (orderBy_exact base rfl rfl).mp added
    refine ⟨(r.orderWants a q options base terms).map Bound.join, keys, ?_, ?_, ?_⟩
    · intro j member
      obtain ⟨b, wanted, rfl⟩ := List.mem_map.mp member
      obtain ⟨term, among, wanted⟩ := List.mem_flatMap.mp wanted
      obtain ⟨led, crossed, byPath⟩ := OrderContext.wants_byPath own Scope.Placed.root_placed b wanted
      exact ⟨b, led, List.mem_flatMap.mpr ⟨term, among, crossed⟩, byPath, rfl⟩
    · have passed : ∀ term ∈ terms, options.access.allows term.path = true ∧ r.checkDepth term.path = .ok () :=
        fun term member => ⟨permitted term member, shallow term member⟩
      refine ((List.forall₂_and_left terms keys).mpr ⟨passed, sorts⟩).imp ?_
      intro term key here
      obtain ⟨⟨allowed, depth⟩, sorts⟩ := here
      refine ⟨sorts.direction, sorts.nulls, Join.fresh (base.joins.map Join.binding)
        ((r.orderWants a q options base [term]).map Bound.join), ?_⟩
      rw [← CompiledQuery.foldl_addJoin_joining]
      have alone : r.orderBy a q options base [term] = .ok _ :=
        (orderBy_exact base rfl rfl).mpr ⟨by simpa using depth, [key], .cons sorts .nil, rfl⟩
      exact applyOrder_parts.mpr (.inr ⟨by simp, by simpa using allowed, a, served, alone⟩)
    · intro other alike
      refine applyOrder_parts.mpr (.inr ⟨nonempty, permitted, a, served, ?_⟩)
      exact (orderBy_exact base alike.kind alike.rootBinding).mpr ⟨shallow, keys, sorts, rfl⟩

-- Filter and order may be applied in either order. What is there stays in front, each term adds one key, and the
-- queries differ in the order of the joins at most, as long as no two paths have the same alias.
theorem filter_order_independent {orderOptions : CompileOptions}
    (filtered : r.applyFilter base q filter options = .ok narrowed)
    (ordered : r.applyOrder base q terms orderOptions = .ok sorted) :
    ∃ ps keys, (∃ js, narrowed = (base.joining js).narrowedBy ps) ∧ (∃ js, sorted = (base.joining js).sortedBy keys) ∧
      List.Forall₂ (fun term key => key.direction = term.direction ∧ key.nulls = term.nulls ∧
        ∃ js, r.applyOrder base q [term] orderOptions = .ok ((base.joining js).sortedBy [key])) terms keys ∧
      ∃ js js', r.applyOrder narrowed q terms orderOptions = .ok (((base.joining js).narrowedBy ps).sortedBy keys) ∧
        r.applyFilter sorted q filter options = .ok (((base.joining js').narrowedBy ps).sortedBy keys) ∧
        ((base.kind = .sql → ∀ path ∈ filter.crossed ++ OrderTerm.crossed terms,
          ∀ other ∈ filter.crossed ++ OrderTerm.crossed terms, path.joined "__" = other.joined "__" → path = other) →
            js.Perm js') := by
  obtain ⟨js, ps, along, narrows⟩ := applyFilter_adds filtered
  obtain ⟨ks, keys, along', each, sorts⟩ := applyOrder_adds ordered
  cases filtered.symm.trans (narrows base (.refl base))
  cases ordered.symm.trans (sorts base (.refl base))
  have second := sorts _ (.narrowed js base ps)
  have second' := narrows _ (.sorted ks base keys)
  rw [CompiledQuery.foldl_addJoin_narrowedBy, ← List.foldl_append] at second
  rw [CompiledQuery.foldl_addJoin_sortedBy, CompiledQuery.narrowedBy_sortedBy, ← List.foldl_append] at second'
  obtain ⟨more, more', first, last, perm⟩ := base.joining_either js ks
  refine ⟨ps, keys, ⟨_, by rw [CompiledQuery.foldl_addJoin_joining]⟩, ⟨_, by rw [CompiledQuery.foldl_addJoin_joining]⟩,
    each, more, more', ?_, ?_, ?_⟩
  · rw [second, first]
  · rw [second', last]
  · intro apart
    refine perm ?_
    intro sql j member k member'
    have crossed : ∀ j ∈ js ++ ks, r.JoinsAlong q base (filter.crossed ++ OrderTerm.crossed terms) j := by
      intro j member
      rcases List.mem_append.mp member with early | late
      · obtain ⟨b, led, among, rest⟩ := along j early
        exact ⟨b, led, List.mem_append_left _ among, rest⟩
      · obtain ⟨b, led, among, rest⟩ := along' j late
        exact ⟨b, led, List.mem_append_right _ among, rest⟩
    refine joinsAlong_distinct ?_ (crossed j member) (crossed k member')
    intro path among other among' same
    refine apart sql path among other among' ?_
    cases base with
    | sql d s => exact same
    | search request => cases sql

end Resolver

def contact : Queryable := (Queryable.new "Contact" "contacts" .postgres).withColumn "name" "text" false

def letter : Queryable :=
  (((Queryable.new "Letter" "letters" .postgres).withColumn "weight" "integer" false).belongsTo "sender" "Contact"
    "sender_id").belongsTo "receiver" "Contact" "receiver_id"

def letterResolver : Resolver :=
  { Resolver.ofAdapters .standard .standard with registry := (Registry.empty.register contact).register letter }

def tenLetters : CompiledQuery := (CompiledQuery.forQueryable letter).setLimit (some 10)

def toAnn : FilterNode := .leaf ⟨⟨["receiver", "name"]⟩, .eq, .str "Ann"⟩

def bySender : List OrderTerm := [⟨⟨["sender", "name"]⟩, .desc, .default⟩, ⟨⟨["weight"]⟩, .asc, .last⟩]

-- The receiver is joined first, or the sender.
theorem toAnn_bySender : ∃ narrowed sorted both both',
    letterResolver.applyFilter tenLetters letter toAnn .standard = .ok narrowed ∧
    letterResolver.applyOrder tenLetters letter bySender .standard = .ok sorted ∧
    letterResolver.applyOrder narrowed letter bySender .standard = .ok both ∧
    letterResolver.applyFilter sorted letter toAnn .standard = .ok both' ∧
    both.joins.map Join.binding = ["receiver", "sender"] ∧ both'.joins.map Join.binding = ["sender", "receiver"] ∧
    both.joins.Perm both'.joins ∧ both.unjoined = both'.unjoined := by
  have filters : (letterResolver.applyFilter tenLetters letter toAnn .standard).isOk = true := by decide +kernel
  have orders : (letterResolver.applyOrder tenLetters letter bySender .standard).isOk = true := by decide +kernel
  obtain ⟨narrowed, filtered⟩ := ok_of_isOk filters
  obtain ⟨sorted, ordered⟩ := ok_of_isOk orders
  obtain ⟨ps, keys, _, _, _, js, js', first, last, perm⟩ := Resolver.filter_order_independent filtered ordered
  have joined : ((letterResolver.applyFilter tenLetters letter toAnn .standard >>= fun narrowed =>
      letterResolver.applyOrder narrowed letter bySender .standard).toOption.map fun both =>
        both.joins.map Join.binding) = some ["receiver", "sender"] := by decide +kernel
  have joined' : ((letterResolver.applyOrder tenLetters letter bySender .standard >>= fun sorted =>
      letterResolver.applyFilter sorted letter toAnn .standard).toOption.map fun both =>
        both.joins.map Join.binding) = some ["sender", "receiver"] := by decide +kernel
  have apart : ∀ path ∈ toAnn.crossed ++ OrderTerm.crossed bySender,
      ∀ other ∈ toAnn.crossed ++ OrderTerm.crossed bySender, path.joined "__" = other.joined "__" → path = other := by
    decide +kernel
  rw [filtered] at joined
  rw [ordered] at joined'
  simp only [bind, Except.bind, first] at joined
  simp only [bind, Except.bind, last] at joined'
  exact ⟨narrowed, sorted, _, _, filtered, ordered, first, last, Option.some.inj joined, Option.some.inj joined',
    perm fun _ => apart, rfl⟩

end FilterQuery
