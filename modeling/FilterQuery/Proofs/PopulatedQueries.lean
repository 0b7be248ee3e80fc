import FilterQuery.Proofs.LeafTests
import FilterQuery.Proofs.SelectScopes

namespace FilterQuery

namespace CompiledQuery

def Populated : CompiledQuery → Prop
  | sql _ s => Expr.SelectPopulated s
  | search r => ∀ c ∈ r.filters, c.Populated

end CompiledQuery

theorem correlation_populated (parent binding : String) (link : Link) : (correlation parent binding link).Populated :=
  ⟨trivial, trivial⟩

namespace Select

variable {s : Select}

theorem andWhere_populated (populated : Expr.SelectPopulated s) {e : Expr} (given : e.Populated) :
    Expr.SelectPopulated (s.andWhere e) := by
  obtain ⟨columns, joins, conditions, orders⟩ := Expr.selectPopulated_exact.mp populated
  refine Expr.selectPopulated_exact.mpr ⟨columns, joins, ?_, orders⟩
  exact List.forall_mem_append.mpr ⟨conditions, Expr.conjuncts_populated e given⟩

theorem join_populated (populated : Expr.SelectPopulated s) {j : Join} (given : j.condition.Populated) :
    Expr.SelectPopulated (s.join j) := by
  unfold join
  split
  · exact populated
  · obtain ⟨columns, joins, conditions, orders⟩ := Expr.selectPopulated_exact.mp populated
    refine Expr.selectPopulated_exact.mpr ⟨columns, ?_, conditions, orders⟩
    exact List.forall_mem_append.mpr ⟨joins, List.forall_mem_singleton.mpr given⟩

theorem orderBy_populated (populated : Expr.SelectPopulated s) {key : SortKey} (given : key.expr.Populated) :
    Expr.SelectPopulated (s.orderBy key) := by
  obtain ⟨columns, joins, conditions, orders⟩ := Expr.selectPopulated_exact.mp populated
  refine Expr.selectPopulated_exact.mpr ⟨columns, joins, conditions, ?_⟩
  exact List.forall_mem_append.mpr ⟨orders, List.forall_mem_singleton.mpr given⟩

end Select

namespace CompiledQuery

variable {q narrowed : CompiledQuery} {p : Predicate}

theorem forQueryable_populated (root : Queryable) : (forQueryable root).Populated := by
  unfold forQueryable
  split
  · exact Expr.selectPopulated_exact.mpr (by simp [Select.new])
  · exact List.forall_mem_nil _

theorem openScope_populated (q : CompiledQuery) (related : Queryable) (binding : String) :
    (q.openScope related binding).Populated := by
  cases q with
  | sql d s => exact Expr.selectPopulated_exact.mpr (by simp [Select.new, Expr.Populated, Expr.AllPopulated])
  | search r => exact List.forall_mem_nil _

theorem Populated.bindToOne (populated : q.Populated) (parent binding : String) (link : Link) (related : Queryable) :
    (q.bindToOne parent binding link related).Populated := by
  cases q with
  | sql d s => exact Select.join_populated populated (correlation_populated ..)
  | search r => exact populated

theorem Populated.andPredicate (populated : q.Populated) (given : p.Populated)
    (accepted : q.andPredicate? p = some narrowed) : narrowed.Populated := by
  cases q <;> cases p <;> cases accepted
  · exact Select.andWhere_populated populated given
  · exact List.forall_mem_append.mpr ⟨populated, Clause.conjuncts_populated _ given⟩

theorem Populated.closeScope (populated : q.Populated) (given : p.Populated) {parent binding : String} {link : Link}
    {mode : ToManyMode} (accepted : q.closeScope? parent binding link p mode = some closed) : closed.Populated := by
  cases q <;> cases p <;> cases accepted
  · have correlated := Select.andWhere_populated populated (correlation_populated parent binding link)
    cases mode with
    | anyMatch => exact Select.andWhere_populated correlated given
    | allMatch => exact Select.andWhere_populated correlated (Expr.violation_populated given)
  · cases mode with
    | anyMatch => exact given
    | allMatch => exact Clause.negate_populated given

theorem Populated.pushOrder (populated : q.Populated) (binding column : String) (direction : Direction) (nulls : Nulls) :
    (q.pushOrder binding column direction nulls).Populated := by
  cases q with
  | sql d s => exact Select.orderBy_populated populated trivial
  | search r => exact populated

theorem Populated.pushAggregateOrder (populated : q.Populated) (parent binding : String) (link : Link)
    (related : Queryable) (column : String) (direction : Direction) (nulls : Nulls) :
    (q.pushAggregateOrder parent binding link related column direction nulls).Populated := by
  cases q with
  | sql d s =>
    refine Select.orderBy_populated populated (Select.andWhere_populated ?_ (correlation_populated parent binding link))
    exact Expr.selectPopulated_exact.mpr (by simp [Select.new, Expr.Populated, Expr.AllPopulated])
  | search r => exact populated

end CompiledQuery

namespace Route

variable {c : FilterContext}

mutual
theorem compile_populated (route : Route) {scope : Scope} {q joined : CompiledQuery} {p : Predicate}
    (populated : q.Populated) (compiled : route.compile c scope q = .ok (p, joined)) :
    p.Populated ∧ joined.Populated := by
  cases route with
  | test l =>
    obtain ⟨tested, rfl⟩ := test_parts.mp compiled
    exact ⟨(FilterContext.test_probes tested).1, populated⟩
  | negate inner =>
    obtain ⟨plain, inside, rfl⟩ := negate_parts.mp compiled
    exact (compile_populated inner populated inside).imp_left Predicate.negate_populated
  | join op parts =>
    obtain ⟨ps, inside, rfl⟩ := join_parts.mp compiled
    exact (compileAll_populated parts populated inside).imp_left (Predicate.join_populated _ op)
  | through head inner =>
    obtain ⟨hop, _, ⟨_, inside⟩ | ⟨_, rfl, plain, below, inside, closed⟩⟩ := through_parts.mp compiled
    · exact compile_populated inner (populated.bindToOne ..) inside
    · obtain ⟨given, opened⟩ := compile_populated inner (CompiledQuery.openScope_populated ..) inside
      exact ⟨opened.closeScope given closed, populated⟩

theorem compileAll_populated (parts : List Route) {scope : Scope} {q joined : CompiledQuery} {ps : List Predicate}
    (populated : q.Populated) (compiled : compileAll c scope parts q = .ok (ps, joined)) :
    (∀ p ∈ ps, p.Populated) ∧ joined.Populated := by
  cases parts with
  | nil =>
    obtain ⟨rfl, rfl⟩ := nil_parts.mp compiled
    exact ⟨List.forall_mem_nil _, populated⟩
  | cons part rest =>
    obtain ⟨p, mid, others, here, later, rfl⟩ := cons_parts.mp compiled
    obtain ⟨given, between⟩ := compile_populated part populated here
    exact (compileAll_populated rest between later).imp_left fun each => List.forall_mem_cons.mpr ⟨given, each⟩
end

end Route

theorem OrderContext.walk_populated {c : OrderContext} {names : List String} {scope : Scope} {q sorted : CompiledQuery}
    (populated : q.Populated) (accepted : c.walk scope q names = .ok sorted) : sorted.Populated := by
  induction names generalizing scope q with
  | nil => cases accepted
  | cons name later ih =>
    cases later with
    | nil =>
      rw [walk] at accepted
      obtain ⟨f, _, pushed⟩ := bind_exact.mp accepted
      cases pushed
      exact populated.pushOrder ..
    | cons next rest =>
      obtain ⟨hop, _, ⟨_, further⟩ | ⟨_, further⟩⟩ := walk_parts.mp accepted
      · exact ih (populated.bindToOne ..) further
      · obtain ⟨last, f, _, _, rfl⟩ := aggregate_pushes further
        exact populated.pushAggregateOrder ..

namespace Resolver

variable {r : Resolver} {root : Queryable} {options : CompileOptions} {q query : CompiledQuery}

theorem orderBy_populated {a : Adapter} {terms : List OrderTerm} (populated : q.Populated)
    (accepted : r.orderBy a root options q terms = .ok query) : query.Populated := by
  induction terms generalizing q with
  | nil =>
    cases accepted
    exact populated
  | cons term rest ih =>
    obtain ⟨_, mid, walked, later⟩ := orderBy_parts.mp accepted
    exact ih (OrderContext.walk_populated populated walked) later

theorem applyOrder_populated {terms : List OrderTerm} (populated : q.Populated)
    (accepted : r.applyOrder q root terms options = .ok query) : query.Populated := by
  unfold applyOrder at accepted
  split at accepted
  · cases accepted
    exact populated
  · obtain ⟨_, _, later⟩ := bind_exact.mp accepted
    obtain ⟨a, _, sorts⟩ := bind_exact.mp later
    exact orderBy_populated populated sorts

theorem applyFilter_populated {filter : FilterNode} (populated : q.Populated)
    (accepted : r.applyFilter q root filter options = .ok query) : query.Populated := by
  obtain ⟨_, _, _, ⟨_, rfl⟩ | ⟨_, a, _, p, joined, compiled, narrows⟩⟩ := applyFilter_parts.mp accepted
  · exact populated
  · obtain ⟨given, between⟩ := Route.compile_populated _ populated compiled
    exact between.andPredicate given narrows

end Resolver

namespace QueryStep

variable {r : Resolver} {q query : CompiledQuery}

theorem run_populated {step : QueryStep} (populated : q.Populated) (ran : step.run r q = .ok query) : query.Populated := by
  cases step with
  | filter root node options => exact Resolver.applyFilter_populated populated ran
  | order root terms options => exact Resolver.applyOrder_populated populated ran

theorem runAll_populated {steps : List QueryStep} (populated : q.Populated) (ran : runAll r q steps = .ok query) :
    query.Populated := by
  induction steps generalizing q with
  | nil =>
    cases ran
    exact populated
  | cons step rest ih =>
    obtain ⟨next, here, later⟩ := bind_exact.mp ran
    exact ih (run_populated populated here) later

end QueryStep
end FilterQuery
