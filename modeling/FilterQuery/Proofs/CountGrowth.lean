import FilterQuery.Complexity.Shape
import FilterQuery.Proofs.ClauseCounts
import FilterQuery.Proofs.InnerSelects
import FilterQuery.Proofs.JoinedRows

namespace FilterQuery

namespace Clause

mutual
-- The clause and those inside it.
def inside : Clause → List Clause
  | constant b => [constant b]
  | query body => [query body]
  | and members => and members :: listInside members
  | or members => or members :: listInside members
  | not c => not c :: c.inside
  | nested path c => nested path c :: c.inside

def listInside : List Clause → List Clause
  | [] => []
  | c :: rest => c.inside ++ listInside rest
end

def isNested : Clause → Bool
  | nested _ _ => true
  | _ => false

mutual
theorem nestedCount_eq (c : Clause) : c.nestedCount = c.inside.countP isNested := by
  cases c with
  | constant | query => rfl
  | and members | or members => exact listNestedCount_eq members
  | not c => exact nestedCount_eq c
  | nested path c =>
    rw [nestedCount, inside, List.countP_cons_of_pos rfl, nestedCount_eq c, Nat.add_comm]

theorem listNestedCount_eq (members : List Clause) : listNestedCount members = (listInside members).countP isNested := by
  cases members with
  | nil => rfl
  | cons c rest => rw [listNestedCount, listInside, List.countP_append, nestedCount_eq c, listNestedCount_eq rest]
end

end Clause

-- A sort entry names one field, and may be told where its documents are nested.
def sortsThrough : Json → Bool
  | .obj [(_, .obj members)] => members.any fun m => m.1 == "nested"
  | _ => false

namespace CompiledQuery

-- How often the query goes to other rows or documents: each join, and each SELECT inside, with its joins; each clause
-- on nested documents, and each sort by them.
def lookups : CompiledQuery → Nat
  | sql _ s => total (fun t => t.joins.length) (s :: s.selects) + s.selects.length
  | search r => (Clause.listInside r.filters).countP Clause.isNested + r.sort.countP sortsThrough

end CompiledQuery

def Select.extended (s : Select) (joins : List Join) (conditions : List Expr) (orders : List SortKey) : Select :=
  { s with joins := s.joins ++ joins, conditions := s.conditions ++ conditions, orders := s.orders ++ orders }

def SearchRequest.extended (r : SearchRequest) (filters : List Clause) (sort : List Json) : SearchRequest :=
  { r with filters := r.filters ++ filters, sort := r.sort ++ sort }

-- What an application adds, behind what is there.
inductive CompiledQuery.Grows : CompiledQuery → CompiledQuery → Prop
  | sql {joins : List Join} {conditions : List Expr} {orders : List SortKey}
    (tied : ∀ j ∈ joins, Expr.Tied j.condition)
    (counted : total Expr.subqueryCount conditions = total Expr.lookups conditions)
    (keys : ∀ key ∈ orders, key.expr.Key) :
    Grows (.sql d s) (.sql d (s.extended joins conditions orders))
  | search {sort : List Json} (entries : ∀ entry ∈ sort, ∃ field members, entry = .single field (.obj members)) :
    Grows (.search r) (.search (r.extended filters sort))

namespace Route

variable {c : FilterContext}

mutual
theorem needs_tied (route : Route) (scope : Scope) (q : CompiledQuery) :
    ∀ j ∈ route.needs c scope q, Expr.Tied j.condition := by
  cases route with
  | test l => exact List.forall_mem_nil _
  | negate inner => exact needs_tied inner scope q
  | join op parts => exact allNeeds_tied parts scope q
  | through head inner =>
    rw [needs]
    split
    · exact List.forall_mem_nil _
    · split
      · exact List.forall_mem_cons.mpr ⟨⟨_, _, _, rfl⟩, needs_tied inner _ q⟩
      · exact List.forall_mem_nil _

theorem allNeeds_tied (parts : List Route) (scope : Scope) (q : CompiledQuery) :
    ∀ j ∈ allNeeds c scope q parts, Expr.Tied j.condition := by
  cases parts with
  | nil => exact List.forall_mem_nil _
  | cons part rest => exact List.forall_mem_append.mpr ⟨needs_tied part scope q, allNeeds_tied rest scope q⟩
end

theorem compile_joining {route : Route} {scope : Scope} {q joined : CompiledQuery} {p : Predicate}
    (compiled : route.compile c scope q = .ok (p, joined)) :
    ∃ joins, joined = q.joining joins ∧ ∀ j ∈ joins, Expr.Tied j.condition := by
  refine ⟨_, (compile_needs route compiled).trans (CompiledQuery.foldl_addJoin_joining ..), ?_⟩
  exact fun j member => needs_tied route scope q j (Join.fresh_subset _ _ member)

mutual
theorem compile_counted (route : Route) {scope : Scope} {q joined : CompiledQuery} {p : Predicate}
    (compiled : route.compile c scope q = .ok (p, joined)) : p.Exact := by
  cases route with
  | test l =>
    obtain ⟨tested, _⟩ := test_parts.mp compiled
    cases p with
    | search clause => trivial
    | sql e =>
      refine Expr.Exact.of_columns fun x read => ?_
      obtain ⟨name, _, same⟩ := FilterContext.test_reads tested read
      exact ⟨_, name, same⟩
  | negate inner =>
    obtain ⟨plain, inside, rfl⟩ := negate_parts.mp compiled
    exact (compile_counted inner inside).negate
  | join op parts =>
    obtain ⟨ps, inside, rfl⟩ := join_parts.mp compiled
    exact .join _ op (compileAll_counted parts inside)
  | through head inner =>
    obtain ⟨hop, _, ⟨_, inside⟩ | ⟨_, _, plain, below, inside, closed⟩⟩ := through_parts.mp compiled
    · exact compile_counted inner inside
    · obtain ⟨joins, rfl, tied⟩ := compile_joining inside
      exact CompiledQuery.closeScope_counted tied (compile_counted inner inside) closed

theorem compileAll_counted (parts : List Route) {scope : Scope} {q joined : CompiledQuery} {ps : List Predicate}
    (compiled : compileAll c scope parts q = .ok (ps, joined)) : ∀ p ∈ ps, p.Exact := by
  cases parts with
  | nil =>
    obtain ⟨rfl, _⟩ := nil_parts.mp compiled
    exact List.forall_mem_nil _
  | cons part rest =>
    obtain ⟨p, mid, others, here, later, rfl⟩ := cons_parts.mp compiled
    exact List.forall_mem_cons.mpr ⟨compile_counted part here, compileAll_counted rest later⟩
end

end Route

theorem Sorting.key_kind (s : Sorting) : s.key.expr.Key := by
  obtain ⟨target, direction, nulls⟩ := s
  cases target with
  | column binding column => exact .field ..
  | related parent binding hop column =>
    cases direction with
    | asc => exact Expr.Key.related parent binding hop.link hop.related column .asc
    | desc => exact Expr.Key.related parent binding hop.link hop.related column .desc

namespace CompiledQuery

variable {q next : CompiledQuery}

theorem Grows.refl (q : CompiledQuery) : q.Grows q := by
  cases q with
  | sql d s =>
    have same : s.extended [] [] [] = s := by cases s; simp [Select.extended]
    have grows : Grows (.sql d s) (.sql d (s.extended [] [] [])) := .sql (List.forall_mem_nil _) rfl (List.forall_mem_nil _)
    rwa [same] at grows
  | search r =>
    have same : r.extended [] [] = r := by cases r; simp [SearchRequest.extended]
    have grows : Grows (.search r) (.search (r.extended [] [])) := .search (List.forall_mem_nil _)
    rwa [same] at grows

theorem Grows.trans {mid : CompiledQuery} (first : q.Grows mid) (later : mid.Grows next) : q.Grows next := by
  cases first with
  | @sql d s joins conditions orders tied counted keys =>
    cases later with
    | @sql _ _ joins' conditions' orders' tied' counted' keys' =>
      have whole : (s.extended joins conditions orders).extended joins' conditions' orders' =
          s.extended (joins ++ joins') (conditions ++ conditions') (orders ++ orders') := by simp [Select.extended]
      rw [whole]
      refine .sql (List.forall_mem_append.mpr ⟨tied, tied'⟩) ?_ (List.forall_mem_append.mpr ⟨keys, keys'⟩)
      rw [total_append, total_append, counted, counted']
  | @search r filters sort entries =>
    cases later with
    | @search _ filters' sort' entries' =>
      have whole : (r.extended filters sort).extended filters' sort' = r.extended (filters ++ filters') (sort ++ sort') := by
        simp [SearchRequest.extended]
      rw [whole]
      exact .search (List.forall_mem_append.mpr ⟨entries, entries'⟩)

theorem Grows.joining (q : CompiledQuery) {js : List Join} (tied : ∀ j ∈ js, Expr.Tied j.condition) :
    q.Grows (q.joining js) := by
  cases q with
  | search r => exact .refl _
  | sql d s =>
    have same : s.withJoins js = s.extended js [] [] := by simp [Select.withJoins, Select.extended]
    rw [CompiledQuery.joining, same]
    exact .sql tied rfl (List.forall_mem_nil _)

theorem Grows.andPredicate {p : Predicate} (exact : p.Exact) (accepted : q.andPredicate? p = some next) :
    q.Grows next := by
  cases q with
  | sql d s =>
    cases p with
    | search c => cases accepted
    | sql e =>
      cases Option.some.inj accepted
      have same : s.andWhere e = s.extended [] e.conjuncts [] := by simp [Select.andWhere, Select.extended]
      rw [same]
      exact .sql (List.forall_mem_nil _) (Expr.Exact.conjuncts exact) (List.forall_mem_nil _)
  | search r =>
    cases p with
    | sql e => cases accepted
    | search c =>
      cases Option.some.inj accepted
      have same : r.andFilter c = r.extended c.conjuncts [] := by simp [SearchRequest.andFilter, SearchRequest.extended]
      rw [same]
      exact .search (List.forall_mem_nil _)

theorem Grows.sortedBy (q : CompiledQuery) (keys : List Sorting) : q.Grows (q.sortedBy keys) := by
  cases q with
  | sql d s =>
    have same : s.orderedBy (keys.map Sorting.key) = s.extended [] [] (keys.map Sorting.key) := by
      simp [Select.orderedBy, Select.extended]
    rw [CompiledQuery.sortedBy, same]
    exact .sql (List.forall_mem_nil _) rfl (List.forall_mem_map.mpr fun key _ => key.key_kind)
  | search r =>
    have same : { r with sort := r.sort ++ keys.map Sorting.entry } = r.extended [] (keys.map Sorting.entry) := by
      simp [SearchRequest.extended]
    rw [CompiledQuery.sortedBy, same]
    refine .search (List.forall_mem_map.mpr fun key _ => ?_)
    obtain ⟨target, direction, nulls⟩ := key
    cases target <;> exact ⟨_, _, rfl⟩

end CompiledQuery

namespace Resolver

variable {r : Resolver} {q next : CompiledQuery} {root : Queryable} {options : CompileOptions}

theorem applyFilter_grows {filter : FilterNode} (accepted : r.applyFilter q root filter options = .ok next) :
    q.Grows next := by
  obtain ⟨_, _, _, ⟨_, rfl⟩ | ⟨_, a, _, p, joined, compiled, narrows⟩⟩ := applyFilter_parts.mp accepted
  · exact .refl _
  · obtain ⟨joins, rfl, tied⟩ := Route.compile_joining compiled
    exact (CompiledQuery.Grows.joining q tied).trans (.andPredicate (Route.compile_counted _ compiled) narrows)

theorem applyOrder_grows {terms : List OrderTerm} (accepted : r.applyOrder q root terms options = .ok next) :
    q.Grows next := by
  obtain ⟨js, keys, along, _, added⟩ := applyOrder_adds accepted
  cases (added q (.refl q)).symm.trans accepted
  rw [CompiledQuery.foldl_addJoin_joining]
  refine (CompiledQuery.Grows.joining q ?_).trans (.sortedBy _ keys)
  intro j member
  obtain ⟨b, _, _, _, rfl⟩ := along j (Join.fresh_subset _ _ member)
  exact ⟨_, _, _, rfl⟩

end Resolver

theorem QueryStep.run_grows {r : Resolver} {q next : CompiledQuery} {step : QueryStep} (ran : step.run r q = .ok next) :
    q.Grows next := by
  cases step with
  | filter root node options => exact Resolver.applyFilter_grows ran
  | order root terms options => exact Resolver.applyOrder_grows ran

namespace Select

variable {joins : List Join} {conditions : List Expr} {orders : List SortKey}

theorem orderSelects_append (left right : List SortKey) :
    orderSelects (left ++ right) = orderSelects left ++ orderSelects right := by
  induction left with
  | nil => rfl
  | cons key rest ih =>
    obtain ⟨e, direction, nulls⟩ := key
    rw [List.cons_append, orderSelects, orderSelects, ih, List.append_assoc]

theorem ordersSubqueryCount_append (left right : List SortKey) :
    Expr.ordersSubqueryCount (left ++ right) = Expr.ordersSubqueryCount left + Expr.ordersSubqueryCount right := by
  induction left with
  | nil => exact (Nat.zero_add _).symm
  | cons key rest ih =>
    obtain ⟨e, direction, nulls⟩ := key
    rw [List.cons_append, Expr.ordersSubqueryCount, Expr.ordersSubqueryCount, ih, Nat.add_assoc]

-- A key has no SELECT, or one for the related rows.
theorem keys_counted (keys : ∀ key ∈ orders, key.expr.Key) :
    Expr.ordersSubqueryCount orders = total Select.lookups (orderSelects orders) := by
  induction orders with
  | nil => rfl
  | cons key rest ih =>
    obtain ⟨e, direction, nulls⟩ := key
    rw [List.forall_mem_cons] at keys
    have own : e.subqueryCount = total Select.lookups e.selects := by
      cases keys.1 <;> rfl
    rw [Expr.ordersSubqueryCount, orderSelects, total_append, own, ih keys.2]

theorem joinCount_extended (s : Select) (joins : List Join) (conditions : List Expr) (orders : List SortKey) :
    (s.extended joins conditions orders).joinCount =
      s.joinCount + (joins.length + total Expr.subqueryCount conditions + Expr.ordersSubqueryCount orders) := by
  obtain ⟨table, binding, columns, joins', conditions', orders', limit, offset⟩ := s
  simp only [extended, joinCount, Expr.selectJoinCount, List.length_append, Expr.total_listSubqueries, total_append,
    ordersSubqueryCount_append]
  omega

theorem predicateCount_extended (s : Select) (joins : List Join) (conditions : List Expr) (orders : List SortKey) :
    (s.extended joins conditions orders).predicateCount = s.predicateCount + Expr.listPredicateCount conditions := by
  obtain ⟨table, binding, columns, joins', conditions', orders', limit, offset⟩ := s
  simp only [extended, predicateCount, Expr.selectPredicateCount]
  induction conditions' with
  | nil => exact (Nat.zero_add _).symm
  | cons e rest ih => rw [List.cons_append, Expr.listPredicateCount, Expr.listPredicateCount, ih, Nat.add_assoc]

theorem joinSelects_append (left right : List Join) :
    joinSelects (left ++ right) = joinSelects left ++ joinSelects right := by
  induction left with
  | nil => rfl
  | cons j rest ih =>
    obtain ⟨kind, table, binding, condition⟩ := j
    rw [List.cons_append, joinSelects, joinSelects, ih, List.append_assoc]

theorem total_lookups (ts : List Select) : total lookups ts = total (fun t => t.joins.length) ts + ts.length := by
  induction ts with
  | nil => rfl
  | cons t rest ih =>
    simp only [total, ih, lookups, List.length_cons]
    omega

-- All the joins and all the SELECTs inside.
theorem lookups_eq (d : Dialect) (s : Select) :
    (CompiledQuery.sql d s).lookups = s.joins.length + total lookups s.selects := by
  rw [CompiledQuery.lookups, total, total_lookups, Nat.add_assoc]

theorem lookups_extended (d : Dialect) (s : Select) (tied : ∀ j ∈ joins, Expr.Tied j.condition) :
    (CompiledQuery.sql d (s.extended joins conditions orders)).lookups = (CompiledQuery.sql d s).lookups +
      (joins.length + total Expr.lookups conditions + total lookups (orderSelects orders)) := by
  obtain ⟨table, binding, columns, joins', conditions', orders', limit, offset⟩ := s
  rw [lookups_eq, lookups_eq]
  simp only [extended, selects, List.length_append, joinSelects_append, no_joinSelects tied, orderSelects_append,
    total_append, Expr.total_listSelects, List.append_nil]
  omega

end Select

namespace SearchRequest

variable {r : SearchRequest} {filters : List Clause} {sort : List Json}

theorem sortsNested_entry (field : String) (members : List (String × Json)) :
    sortsNested (.single field (.obj members)) = sortsThrough (.single field (.obj members)) := by
  simp only [Json.single, sortsNested, sortsThrough, Json.get?]
  induction members with
  | nil => rfl
  | cons m rest ih =>
    obtain ⟨key, value⟩ := m
    rw [Json.lookup, List.any_cons]
    by_cases own : key = "nested"
    · simp [own]
    · simp [own, ih]

theorem nestedCount_extended (r : SearchRequest) (filters : List Clause) (sort : List Json) :
    (r.extended filters sort).nestedCount =
      r.nestedCount + (Clause.listNestedCount filters + (sort.filter sortsNested).length) := by
  have both := (counts_append r.filters filters).2
  simp only [nestedCount, extended, both, List.filter_append, List.length_append]
  omega

theorem leafCount_extended (r : SearchRequest) (filters : List Clause) (sort : List Json) :
    (r.extended filters sort).leafCount = r.leafCount + Clause.listLeafCount filters :=
  (counts_append r.filters filters).1

theorem lookups_eq (r : SearchRequest) :
    (CompiledQuery.search r).lookups = Clause.listNestedCount r.filters + r.sort.countP sortsThrough := by
  rw [CompiledQuery.lookups, Clause.listNestedCount_eq]

theorem lookups_extended (r : SearchRequest) (filters : List Clause) (sort : List Json) :
    (CompiledQuery.search (r.extended filters sort)).lookups =
      (CompiledQuery.search r).lookups + (Clause.listNestedCount filters + sort.countP sortsThrough) := by
  have both := (counts_append r.filters filters).2
  simp only [lookups_eq, extended, both, List.countP_append]
  omega

theorem entries_counted (entries : ∀ entry ∈ sort, ∃ field members, entry = .single field (.obj members)) :
    (sort.filter sortsNested).length = sort.countP sortsThrough := by
  rw [← List.countP_eq_length_filter]
  refine List.countP_congr fun entry member => ?_
  obtain ⟨field, members, rfl⟩ := entries entry member
  rw [sortsNested_entry]

end SearchRequest

namespace CompiledQuery.Grows

variable {q next : CompiledQuery}

-- What is counted is what is there, if it was before.
theorem exact (grows : q.Grows next) (exact : q.joinCount = q.lookups) : next.joinCount = next.lookups := by
  cases grows with
  | sql tied counted keys =>
    rw [joinCount] at exact ⊢
    rw [Select.joinCount_extended, Select.lookups_extended _ _ tied, Select.keys_counted keys, counted, exact]
  | search entries =>
    rw [joinCount] at exact ⊢
    rw [SearchRequest.nestedCount_extended, SearchRequest.lookups_extended, SearchRequest.entries_counted entries, exact]

theorem predicateCount_le (grows : q.Grows next) : q.predicateCount ≤ next.predicateCount := by
  cases grows with
  | sql =>
    simp only [predicateCount, Select.predicateCount_extended]
    exact Nat.le_add_right ..
  | search =>
    simp only [predicateCount, SearchRequest.leafCount_extended]
    exact Nat.le_add_right ..

theorem joinCount_le (grows : q.Grows next) : q.joinCount ≤ next.joinCount := by
  cases grows with
  | sql =>
    simp only [joinCount, Select.joinCount_extended]
    exact Nat.le_add_right ..
  | search =>
    simp only [joinCount, SearchRequest.nestedCount_extended]
    exact Nat.le_add_right ..

-- The page stays, and what is sorted stays sorted.
theorem page (grows : q.Grows next) :
    next.limit = q.limit ∧ next.offset = q.offset ∧ (q.hasOrder = true → next.hasOrder = true) := by
  have longer : ∀ {α : Type} {left : List α} (right : List α), (!left.isEmpty) = true → (!(left ++ right).isEmpty) = true := by
    intro α left right nonempty
    cases left with
    | nil => cases nonempty
    | cons => rfl
  cases grows with
  | sql => exact ⟨rfl, rfl, longer _⟩
  | search => exact ⟨rfl, rfl, longer _⟩

end CompiledQuery.Grows

-- At least as much of each kind with the same page comes to at least as many points.
theorem QueryShape.points_le {s t : QueryShape} (predicates : s.predicates ≤ t.predicates) (joins : s.joins ≤ t.joins)
    (limit : t.limit = s.limit) (offset : t.offset = s.offset) (ordered : s.ordered = true → t.ordered = true)
    (threshold : Nat) : s.points id threshold ≤ t.points id threshold := by
  have counted : s.predicates * 2 + s.joins * 10 ≤ t.predicates * 2 + t.joins * 10 := by omega
  have large : t.hasLargeOffset threshold = s.hasLargeOffset threshold := by rw [hasLargeOffset, hasLargeOffset, offset]
  simp only [points, id, limit, large]
  cases s.limit with
  | some n => exact counted
  | none =>
    cases sorted : s.ordered with
    | true =>
      rw [ordered sorted]
      simp only [if_true]
      split <;> omega
    | false =>
      simp only [Bool.false_eq_true, if_false]
      split <;> split <;> omega

theorem CompiledQuery.Grows.points_le {q next : CompiledQuery} (grows : q.Grows next) (threshold : Nat) :
    (QueryShape.of q).points id threshold ≤ (QueryShape.of next).points id threshold :=
  QueryShape.points_le grows.predicateCount_le grows.joinCount_le grows.page.1 grows.page.2.1 grows.page.2.2 threshold

-- Queries as they are put together: every row of a definition, cut to a page or not, then filters and orders.
inductive CompiledQuery.Assembled : CompiledQuery → Prop
  | base (root : Queryable) : Assembled (.forQueryable root)
  | limited (before : Assembled q) (n : Option Nat) : Assembled (q.setLimit n)
  | skipped (before : Assembled q) (n : Option Nat) : Assembled (q.setOffset n)
  | applied (before : Assembled q) (r : Resolver) (step : QueryStep) (ran : step.run r q = .ok next) : Assembled next

theorem CompiledQuery.Assembled.exact {q : CompiledQuery} (assembled : q.Assembled) : q.joinCount = q.lookups := by
  induction assembled with
  | base root =>
    unfold forQueryable
    split <;> rfl
  | @limited q before n ih | @skipped q before n ih =>
    cases q with
    | sql d s => obtain ⟨table, binding, columns, joins, conditions, orders, limit, offset⟩ := s; exact ih
    | search r => exact ih
  | applied before r step ran ih => exact (QueryStep.run_grows ran).exact ih

-- The count of joins is that of the joins and of the SELECTs inside, however deep, and whatever is applied further
-- lowers neither count nor the points of the heuristic.
theorem CompiledQuery.Assembled.counts_exact {q : CompiledQuery} (assembled : q.Assembled) :
    q.joinCount = q.lookups ∧ ∀ (r : Resolver) (step : QueryStep) (next : CompiledQuery), step.run r q = .ok next →
      q.predicateCount ≤ next.predicateCount ∧ q.joinCount ≤ next.joinCount ∧
        ∀ threshold, (QueryShape.of q).points id threshold ≤ (QueryShape.of next).points id threshold := by
  refine ⟨assembled.exact, ?_⟩
  intro r step next ran
  have grows := QueryStep.run_grows ran
  exact ⟨grows.predicateCount_le, grows.joinCount_le, grows.points_le⟩

-- An EXISTS with a join in it, and then a join and the least label of the parcels.
theorem depot_counts : ∃ narrowed sorted : CompiledQuery,
    (depotSteps.head (by decide)).run depotResolver (.forQueryable depot) = .ok narrowed ∧ narrowed.Assembled ∧
    (depotSteps.getLast (by decide)).run depotResolver narrowed = .ok sorted ∧
    narrowed.joinCount = 2 ∧ narrowed.lookups = 2 ∧ sorted.joinCount = 4 ∧
    narrowed.predicateCount ≤ sorted.predicateCount ∧
    ∀ threshold, (QueryShape.of narrowed).points id threshold ≤ (QueryShape.of sorted).points id threshold := by
  have computed : (((depotSteps.head (by decide)).run depotResolver (.forQueryable depot)).toOption.bind fun narrowed =>
      ((depotSteps.getLast (by decide)).run depotResolver narrowed).toOption.map fun sorted =>
        (narrowed.joinCount, sorted.joinCount)) = some (2, 4) := by decide +kernel
  obtain ⟨narrowed, filtered, further⟩ := Option.bind_eq_some_iff.mp computed
  obtain ⟨sorted, ordered, counts⟩ := Option.map_eq_some_iff.mp further
  obtain ⟨two, four⟩ := Prod.mk.inj counts
  replace filtered := ok_of_toOption filtered
  replace ordered := ok_of_toOption ordered
  have assembled : narrowed.Assembled := .applied (.base depot) depotResolver _ filtered
  obtain ⟨exact, further⟩ := assembled.counts_exact
  obtain ⟨predicates, _, points⟩ := further depotResolver _ sorted ordered
  exact ⟨narrowed, sorted, filtered, assembled, ordered, two, exact ▸ two, four, predicates, points⟩

end FilterQuery
