import FilterQuery.Proofs.ClauseCounts
import FilterQuery.Proofs.SelectScopes
import FilterQuery.Proofs.WovenLeaves

namespace FilterQuery

namespace Predicate

-- Of one adapter: SQL woven in its dialect, search clauses of known kinds.
def Countable (a : Adapter) : Predicate → Prop
  | sql e => ∀ d : Dialect, d.adapter = a → e.Woven d
  | search c => c.Leafy

namespace Countable

variable {a : Adapter} {p : Predicate} {members : List Predicate}

theorem negate (countable : p.Countable a) : p.negate.Countable a := by
  cases p with
  | sql e => exact fun d own => (countable d own).negate
  | search c => exact Clause.Leafy.negate countable

theorem join (k : QueryKind) (op : Connective) (each : ∀ p ∈ members, p.Countable a) :
    (Predicate.join k op members).Countable a := by
  have exprs : ∀ d : Dialect, d.adapter = a → ∀ e ∈ members.filterMap expr?, e.Woven d := by
    intro d own e member
    obtain ⟨p, among, found⟩ := List.mem_filterMap.mp member
    cases p with
    | sql e' =>
      cases Option.some.inj found
      exact each _ among d own
    | search c => cases found
  have clauses : ∀ c ∈ members.filterMap clause?, c.Leafy := by
    intro c member
    obtain ⟨p, among, found⟩ := List.mem_filterMap.mp member
    cases p with
    | sql e => cases found
    | search c' =>
      cases Option.some.inj found
      exact each _ among
  cases k with
  | sql =>
    cases op with
    | and => exact fun d own => .all (exprs d own)
    | or => exact fun d own => .any (exprs d own)
  | search =>
    cases op with
    | and => exact .all clauses
    | or => exact .any clauses

theorem leaf {f : Field} {ty : SemanticType} {op : Operator} {operand : Operand} {options : ApplyOptions}
    (built : a.leaf f ty op operand options = some p) : p.Countable a := by
  cases p with
  | sql e =>
    rintro d rfl
    exact Adapter.leaf_woven d f ty op operand options built
  | search c =>
    cases a with
    | search =>
      obtain ⟨_, own, ⟨⟩⟩ := Option.map_eq_some_iff.mp built
      exact SearchEngine.clause_leafy _ _ _ _ c own
    | _ =>
      obtain ⟨_, -, other⟩ := Option.map_eq_some_iff.mp built
      cases other

theorem predicate {f : Field} {op : Operator} {operand : Operand} {options : ApplyOptions}
    (built : a.predicate? f op operand options = some p) : p.Countable a := by
  unfold Adapter.predicate? at built
  split at built
  · split at built
    · exact leaf built
    · cases built
  · cases built

end Countable
end Predicate

namespace CompiledQuery

variable {q joined narrowed : CompiledQuery} {p : Predicate}

-- The joins are tied to what they are joined to.
def Linked : CompiledQuery → Prop
  | sql _ s => ∀ j ∈ s.joins, Expr.Tied j.condition
  | search _ => True

def Countable : CompiledQuery → Prop
  | sql d s => s.Woven d
  | search r => ∀ c ∈ r.filters, c.Leafy

theorem Countable.linked (countable : q.Countable) : q.Linked := by
  cases q with
  | sql d s => exact countable.joins
  | search r => trivial

-- Whatever joins it has, if they are tied.
theorem Countable.of_unjoined (countable : q.Countable) (same : joined.unjoined = q.unjoined) (linked : joined.Linked) :
    joined.Countable := by
  cases q <;> cases joined <;> simp only [unjoined, sql.injEq, search.injEq, reduceCtorEq] at same
  · rename_i d s d' s'
    obtain ⟨rfl, fields⟩ := same
    have columns : s'.columns = s.columns := (Select.mk.inj fields).2.2.1
    have conditions : s'.conditions = s.conditions := (Select.mk.inj fields).2.2.2.2.1
    have orders : s'.orders = s.orders := (Select.mk.inj fields).2.2.2.2.2.1
    exact ⟨columns ▸ countable.columns, linked, conditions ▸ countable.conditions, orders ▸ countable.orders⟩
  · rw [same]
    exact countable

theorem adapter_of_unjoined (same : joined.unjoined = q.unjoined) : joined.adapter = q.adapter := by
  cases q <;> cases joined <;> simp only [unjoined, sql.injEq, search.injEq, reduceCtorEq] at same
  · rw [adapter, adapter, same.1]
  · rfl

theorem Linked.bindToOne (linked : q.Linked) (parent binding : String) (link : Link) (related : Queryable) :
    (q.bindToOne parent binding link related).Linked := by
  cases q with
  | sql d s =>
    show ∀ j ∈ (s.join _).joins, _
    unfold Select.join
    split
    · exact linked
    · exact List.forall_mem_append.mpr ⟨linked, List.forall_mem_singleton.mpr ⟨parent, binding, link, rfl⟩⟩
  | search r => trivial

theorem linked_openScope (q : CompiledQuery) (related : Queryable) (binding : String) :
    (q.openScope related binding).Linked := by
  cases q with
  | sql d s => exact List.forall_mem_nil _
  | search r => trivial

theorem adapter_openScope (q : CompiledQuery) (related : Queryable) (binding : String) :
    (q.openScope related binding).adapter = q.adapter := by
  cases q <;> rfl

-- Related rows that are opened, joined and closed.
theorem closeScope_countable {related : Queryable} {binding parent : String} {link : Link} {mode : ToManyMode}
    {below : CompiledQuery} {closed : Predicate} (opened : below.unjoined = (q.openScope related binding).unjoined)
    (linked : below.Linked) (countable : p.Countable q.adapter)
    (accepted : below.closeScope? parent binding link p mode = some closed) : closed.Countable q.adapter := by
  cases q with
  | sql d s =>
    cases below with
    | search r => cases opened
    | sql d' s' =>
      cases p with
      | search c => cases accepted
      | sql e =>
        cases Option.some.inj accepted
        rintro d' own
        obtain ⟨table, name, columns, joins, conditions, orders, limit, offset⟩ := s'
        simp only [unjoined, openScope, Select.new, sql.injEq, Select.mk.injEq, true_and] at opened
        obtain ⟨-, rfl, rfl, rfl, rfl, rfl, rfl, rfl⟩ := opened
        have inner := countable d' own
        cases mode with
        | anyMatch => exact .rows ⟨parent, name, link, rfl⟩ linked inner.conjuncts false
        | allMatch => exact .rows ⟨parent, name, link, rfl⟩ linked inner.violation.conjuncts true
  | search r =>
    cases below with
    | sql d s => cases opened
    | search r' =>
      cases p with
      | sql e => cases accepted
      | search c =>
        cases Option.some.inj accepted
        exact Clause.closeNested_leafy binding mode countable

end CompiledQuery

namespace Route

variable {c : FilterContext}

theorem test_countable {scope : Scope} {l : Leaf} {p : Predicate} (tested : c.test scope l = .ok p) :
    p.Countable c.adapter := by
  obtain ⟨name, f, ty, _, _, _, typed⟩ := FilterContext.test_parts.mp tested
  obtain ⟨_, _, operand, _, built⟩ := FilterContext.typed_parts.mp typed
  exact .predicate built

mutual
theorem compile_countable (route : Route) {scope : Scope} {q joined : CompiledQuery} {p : Predicate}
    (own : q.adapter = c.adapter) (linked : q.Linked) (compiled : route.compile c scope q = .ok (p, joined)) :
    joined.Linked ∧ p.Countable c.adapter := by
  cases route with
  | test l =>
    obtain ⟨tested, rfl⟩ := test_parts.mp compiled
    exact ⟨linked, test_countable tested⟩
  | negate inner =>
    obtain ⟨plain, inside, rfl⟩ := negate_parts.mp compiled
    exact (compile_countable inner own linked inside).imp_right .negate
  | join op parts =>
    obtain ⟨ps, inside, rfl⟩ := join_parts.mp compiled
    exact (compileAll_countable parts own linked inside).imp_right (.join _ op)
  | through head inner =>
    obtain ⟨hop, _, ⟨_, inside⟩ | ⟨_, rfl, plain, below, inside, closed⟩⟩ := through_parts.mp compiled
    · refine compile_countable inner ?_ (linked.bindToOne ..) inside
      rw [CompiledQuery.adapter_of_unjoined (CompiledQuery.unjoined_bindToOne ..), own]
    · obtain ⟨tied, countable⟩ := compile_countable inner ((CompiledQuery.adapter_openScope ..).trans own)
        (CompiledQuery.linked_openScope ..) inside
      rw [← own] at countable ⊢
      exact ⟨linked, CompiledQuery.closeScope_countable (compile_joins inner inside) tied countable closed⟩

theorem compileAll_countable (parts : List Route) {scope : Scope} {q joined : CompiledQuery} {ps : List Predicate}
    (own : q.adapter = c.adapter) (linked : q.Linked) (compiled : compileAll c scope parts q = .ok (ps, joined)) :
    joined.Linked ∧ ∀ p ∈ ps, p.Countable c.adapter := by
  cases parts with
  | nil =>
    obtain ⟨rfl, rfl⟩ := nil_parts.mp compiled
    exact ⟨linked, List.forall_mem_nil _⟩
  | cons part rest =>
    obtain ⟨p, mid, others, here, later, rfl⟩ := cons_parts.mp compiled
    obtain ⟨tied, countable⟩ := compile_countable part own linked here
    have kept : mid.adapter = c.adapter := (CompiledQuery.adapter_of_unjoined (compile_joins part here)).trans own
    obtain ⟨tied', each⟩ := compileAll_countable rest kept tied later
    exact ⟨tied', List.forall_mem_cons.mpr ⟨countable, each⟩⟩
end

end Route

namespace CompiledQuery

variable {q : CompiledQuery}

theorem Countable.andPredicate {joined narrowed : CompiledQuery} {p : Predicate} (countable : joined.Countable)
    (own : p.Countable joined.adapter) (accepted : joined.andPredicate? p = some narrowed) : narrowed.Countable := by
  cases joined with
  | sql d s =>
    cases p with
    | search c => cases accepted
    | sql e =>
      cases Option.some.inj accepted
      obtain ⟨columns, joins, conditions, orders⟩ := countable
      exact ⟨columns, joins, List.forall_mem_append.mpr ⟨conditions, (own d rfl).conjuncts⟩, orders⟩
  | search r =>
    cases p with
    | sql e => cases accepted
    | search c =>
      cases Option.some.inj accepted
      exact List.forall_mem_append.mpr ⟨countable, Clause.Leafy.conjuncts own⟩

theorem Countable.orderBy {d : Dialect} {s : Select} (countable : s.Woven d) {key : SortKey} (sorted : key.expr.Key) :
    (s.orderBy key).Woven d := by
  obtain ⟨columns, joins, conditions, orders⟩ := countable
  exact ⟨columns, joins, conditions, List.forall_mem_append.mpr ⟨orders, List.forall_mem_singleton.mpr sorted⟩⟩

theorem Countable.pushOrder (countable : q.Countable) (binding column : String) (direction : Direction)
    (nulls : Nulls) : (q.pushOrder binding column direction nulls).Countable := by
  cases q with
  | sql d s => exact Countable.orderBy countable (.field ..)
  | search r => exact countable

theorem Countable.pushAggregateOrder (countable : q.Countable) (parent binding : String) (link : Link)
    (related : Queryable) (column : String) (direction : Direction) (nulls : Nulls) :
    (q.pushAggregateOrder parent binding link related column direction nulls).Countable := by
  cases q with
  | sql d s => exact Countable.orderBy countable (.related ..)
  | search r => exact countable

theorem Countable.bindToOne (countable : q.Countable) (parent binding : String) (link : Link) (related : Queryable) :
    (q.bindToOne parent binding link related).Countable :=
  countable.of_unjoined (unjoined_bindToOne ..) (countable.linked.bindToOne ..)

end CompiledQuery

theorem OrderContext.walk_countable {c : OrderContext} {names : List String} {scope : Scope} {q sorted : CompiledQuery}
    (countable : q.Countable) (accepted : c.walk scope q names = .ok sorted) : sorted.Countable := by
  induction names generalizing scope q with
  | nil => cases accepted
  | cons name later ih =>
    cases later with
    | nil =>
      rw [walk] at accepted
      obtain ⟨f, _, pushed⟩ := bind_exact.mp accepted
      cases pushed
      exact countable.pushOrder ..
    | cons next rest =>
      obtain ⟨hop, _, ⟨_, further⟩ | ⟨_, further⟩⟩ := walk_parts.mp accepted
      · exact ih (countable.bindToOne ..) further
      · obtain ⟨last, f, _, _, rfl⟩ := aggregate_pushes further
        exact countable.pushAggregateOrder ..

namespace Resolver

variable {r : Resolver} {root : Queryable} {options : CompileOptions}

theorem orderBy_countable {a : Adapter} {terms : List OrderTerm} {q sorted : CompiledQuery} (countable : q.Countable)
    (accepted : r.orderBy a root options q terms = .ok sorted) : sorted.Countable := by
  induction terms generalizing q with
  | nil =>
    cases accepted
    exact countable
  | cons term rest ih =>
    obtain ⟨_, mid, walked, later⟩ := orderBy_parts.mp accepted
    exact ih (OrderContext.walk_countable countable walked) later

theorem applyOrder_countable {terms : List OrderTerm} {q sorted : CompiledQuery} (countable : q.Countable)
    (accepted : r.applyOrder q root terms options = .ok sorted) : sorted.Countable := by
  unfold applyOrder at accepted
  split at accepted
  · cases accepted
    exact countable
  · obtain ⟨_, _, later⟩ := bind_exact.mp accepted
    obtain ⟨a, _, sorts⟩ := bind_exact.mp later
    exact orderBy_countable countable sorts

theorem applyFilter_countable {filter : FilterNode} {base narrowed : CompiledQuery} (own : root.adapter = base.adapter)
    (countable : base.Countable) (accepted : r.applyFilter base root filter options = .ok narrowed) :
    narrowed.Countable := by
  obtain ⟨_, _, _, ⟨_, rfl⟩ | ⟨_, a, served, p, joined, compiled, narrows⟩⟩ := applyFilter_parts.mp accepted
  · exact countable
  · have same : base.adapter = a := own.symm.trans (AdapterSet.forQueryable_exact served)
    have unjoined := Route.compile_joins _ compiled
    obtain ⟨linked, good⟩ := Route.compile_countable _ same countable.linked compiled
    refine (countable.of_unjoined unjoined linked).andPredicate ?_ narrows
    rw [CompiledQuery.adapter_of_unjoined unjoined, same]
    exact good

end Resolver

namespace CompiledQuery

theorem countable_forQueryable (root : Queryable) : (forQueryable root).Countable := by
  unfold forQueryable
  split
  · exact ⟨rfl, List.forall_mem_nil _, List.forall_mem_nil _, List.forall_mem_nil _⟩
  · exact List.forall_mem_nil _

theorem adapter_forQueryable (root : Queryable) : (forQueryable root).adapter = root.adapter := by
  unfold forQueryable
  cases root.adapter <;> rfl

-- Queries as callers compose them, each filter applied to a query of its own adapter.
inductive Composed : CompiledQuery → Prop
  | compiled (r : Resolver) (root : Queryable) (filter : FilterNode) (options : CompileOptions)
    (done : r.compileFilter root filter options = .ok q) : Composed q
  | narrowed (base : Composed q) (r : Resolver) (root : Queryable) (filter : FilterNode) (options : CompileOptions)
    (own : root.adapter = q.adapter) (done : r.applyFilter q root filter options = .ok next) : Composed next
  | ordered (base : Composed q) (r : Resolver) (root : Queryable) (terms : List OrderTerm) (options : CompileOptions)
    (done : r.applyOrder q root terms options = .ok next) : Composed next
  | limited (base : Composed q) (n : Option Nat) : Composed (q.setLimit n)
  | skipped (base : Composed q) (n : Option Nat) : Composed (q.setOffset n)

theorem Composed.countable {q : CompiledQuery} (composed : q.Composed) : q.Countable := by
  induction composed with
  | compiled r root filter options done =>
    exact Resolver.applyFilter_countable (adapter_forQueryable root).symm (countable_forQueryable root)
      (Resolver.compileFilter_parts.mp done).2
  | narrowed base r root filter options own done ih => exact Resolver.applyFilter_countable own ih done
  | ordered base r root terms options done ih => exact Resolver.applyOrder_countable ih done
  | @limited q base n ih =>
    cases q with
    | sql d s => exact ⟨ih.columns, ih.joins, ih.conditions, ih.orders⟩
    | search r => exact ih
  | @skipped q base n ih =>
    cases q with
    | sql d s => exact ⟨ih.columns, ih.joins, ih.conditions, ih.orders⟩
    | search r => exact ih

end CompiledQuery
end FilterQuery
