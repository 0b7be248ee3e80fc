import FilterQuery.Proofs.Independence
import FilterQuery.Proofs.PredicateAtoms
import FilterQuery.Proofs.WovenStatements

namespace FilterQuery

mutual
-- Subqueries, each with those inside it behind it.
def Expr.selects : Expr → List Select
  | .column _ _ => []
  | .value _ => []
  | .binary left _ right => left.selects ++ right.selects
  | .inList e list _ => e.selects ++ Expr.listSelects list
  | .isNull e _ => e.selects
  | .and members => Expr.listSelects members
  | .or members => Expr.listSelects members
  | .not e => e.selects
  | .notTrue e => e.selects
  | .func _ args => Expr.listSelects args
  | .template _ args => Expr.listSelects args
  | .existsIn query _ => query :: query.selects
  | .scalar query => query :: query.selects
  | .constant _ => []

def Expr.listSelects : List Expr → List Select
  | [] => []
  | e :: rest => e.selects ++ Expr.listSelects rest

-- Those inside, the SELECT itself not among them.
def Select.selects : Select → List Select
  | ⟨_, _, columns, joins, conditions, orders, _, _⟩ =>
    Expr.listSelects columns ++ Select.joinSelects joins ++ Expr.listSelects conditions ++ Select.orderSelects orders

def Select.joinSelects : List Join → List Select
  | [] => []
  | ⟨_, _, _, condition⟩ :: rest => condition.selects ++ Select.joinSelects rest

def Select.orderSelects : List SortKey → List Select
  | [] => []
  | ⟨e, _, _⟩ :: rest => e.selects ++ Select.orderSelects rest
end

-- A SELECT inside counts once, and once for each of its joins.
def Select.lookups (s : Select) : Nat := s.joins.length + 1

def Expr.lookups (e : Expr) : Nat := total Select.lookups e.selects

namespace Expr

theorem total_listSelects (members : List Expr) : total Select.lookups (listSelects members) = total lookups members := by
  induction members with
  | nil => rfl
  | cons e rest ih => rw [listSelects, total_append, ih, total, lookups]

theorem total_listSubqueries (members : List Expr) : listSubqueryCount members = total subqueryCount members := by
  induction members with
  | nil => rfl
  | cons e rest ih => rw [listSubqueryCount, ih, total]

theorem additive_lookups : Additive lookups where
  and := total_listSelects
  or := total_listSelects
  not _ := rfl
  constant _ := rfl
  binary _ _ _ _ := rfl
  inList _ _ _ := rfl
  isNull _ _ := rfl
  existsIn _ _ := rfl

theorem additive_subqueries : Additive subqueryCount where
  and := total_listSubqueries
  or := total_listSubqueries
  not _ := by rw [subqueryCount]
  constant _ := by rw [subqueryCount]
  binary _ _ _ _ := by rw [subqueryCount, subqueryCount]
  inList _ _ _ := by rw [subqueryCount, subqueryCount]
  isNull _ _ := by rw [subqueryCount, subqueryCount]
  existsIn _ _ := by rw [subqueryCount, subqueryCount]

-- The count misses nothing.
def Exact (e : Expr) : Prop := e.subqueryCount = e.lookups

mutual
-- What reads nothing but columns has no SELECT in it.
theorem no_selects (e : Expr) (columns : ∀ x ∈ e.reads, ∃ table name, x = .column table name) :
    e.selects = [] ∧ e.subqueryCount = 0 := by
  cases e with
  | column | value | constant => exact ⟨rfl, rfl⟩
  | binary left op right =>
    rw [reads_binary, List.forall_mem_append] at columns
    have first := no_selects left columns.1
    have second := no_selects right columns.2
    simp [selects, subqueryCount, first, second]
  | inList e list negated =>
    rw [reads_inList, List.forall_mem_append] at columns
    simp [selects, subqueryCount, no_selects e columns.1, no_listSelects list columns.2]
  | isNull e negated => exact ⟨(no_selects e columns).1, rfl⟩
  | and members | or members | func name members | template text members => exact no_listSelects members columns
  | not e | notTrue e => exact no_selects e columns
  | existsIn query negated =>
    obtain ⟨_, _, other⟩ := columns _ (List.mem_singleton.mpr rfl)
    cases other
  | scalar query =>
    obtain ⟨_, _, other⟩ := columns _ (List.mem_singleton.mpr rfl)
    cases other

theorem no_listSelects (list : List Expr) (columns : ∀ x ∈ listReads list, ∃ table name, x = .column table name) :
    listSelects list = [] ∧ listSubqueryCount list = 0 := by
  cases list with
  | nil => exact ⟨rfl, rfl⟩
  | cons e rest =>
    rw [listReads_cons, List.forall_mem_append] at columns
    simp [listSelects, listSubqueryCount, no_selects e columns.1, no_listSelects rest columns.2]
end

namespace Exact

variable {e : Expr} {members : List Expr}

theorem of_columns (columns : ∀ x ∈ e.reads, ∃ table name, x = .column table name) : e.Exact := by
  have bare := no_selects e columns
  rw [Exact, bare.2, lookups, bare.1, total]

theorem totals (each : ∀ e ∈ members, e.Exact) : total subqueryCount members = total lookups members := by
  induction members with
  | nil => rfl
  | cons e rest ih =>
    rw [List.forall_mem_cons] at each
    rw [total, total, each.1, ih each.2]

theorem negate (exact : e.Exact) : e.negate.Exact := by
  rw [Exact, additive_subqueries.negate, additive_lookups.negate, exact]

theorem violation (exact : e.Exact) : e.violation.Exact := by
  cases e with
  | constant | isNull | existsIn | notTrue => exact exact.negate
  | _ => exact exact

theorem all (each : ∀ e ∈ members, e.Exact) : (Expr.all members).Exact := by
  by_cases decided : Expr.constant false ∈ members
  · rw [Expr.all, any_constant decided, if_pos rfl]
    exact rfl
  · rw [Exact, additive_subqueries.all decided, additive_lookups.all decided, totals each]

theorem any (each : ∀ e ∈ members, e.Exact) : (Expr.any members).Exact := by
  by_cases decided : Expr.constant true ∈ members
  · rw [Expr.any, any_constant decided, Bool.or_true, if_pos rfl]
    exact rfl
  · rw [Exact, additive_subqueries.any decided, additive_lookups.any decided, totals each]

-- Of the conjuncts the sum is what matters: those of a connective were counted together.
theorem conjuncts (exact : e.Exact) : total subqueryCount e.conjuncts = total lookups e.conjuncts := by
  rw [additive_subqueries.conjuncts, additive_lookups.conjuncts, exact]

end Exact
end Expr

namespace Select

theorem no_joinSelects {joins : List Join} (tied : ∀ j ∈ joins, Expr.Tied j.condition) : joinSelects joins = [] := by
  induction joins with
  | nil => rfl
  | cons j rest ih =>
    obtain ⟨kind, table, binding, condition⟩ := j
    rw [List.forall_mem_cons] at tied
    obtain ⟨parent, name, link, rfl⟩ := tied.1
    rw [joinSelects, ih tied.2]
    rfl

end Select

namespace Predicate

-- Clauses of search requests have no SELECTs.
def Exact : Predicate → Prop
  | sql e => e.Exact
  | search _ => True

namespace Exact

variable {p : Predicate} {members : List Predicate}

theorem negate (exact : p.Exact) : p.negate.Exact := by
  cases p with
  | sql e => exact Expr.Exact.negate exact
  | search c => trivial

theorem join (k : QueryKind) (op : Connective) (each : ∀ p ∈ members, p.Exact) : (Predicate.join k op members).Exact := by
  have exprs : ∀ e ∈ members.filterMap expr?, e.Exact := by
    intro e member
    obtain ⟨p, among, found⟩ := List.mem_filterMap.mp member
    cases p with
    | sql e' =>
      cases Option.some.inj found
      exact each _ among
    | search c => cases found
  cases k with
  | search => cases op <;> trivial
  | sql =>
    cases op with
    | and => exact Expr.Exact.all exprs
    | or => exact Expr.Exact.any exprs

end Exact
end Predicate

-- Related rows count for their SELECT, for its joins and for what they are narrowed by.
theorem Expr.exact_rows {table binding : String} {joins : List Join} {first : Expr} {rest : List Expr}
    (tied : ∀ j ∈ joins, Tied j.condition) (own : Tied first)
    (counted : total subqueryCount rest = total lookups rest) (negated : Bool) :
    Exact (.existsIn ⟨table, binding, [.template ⟨"1", []⟩ []], joins, first :: rest, [], none, none⟩ negated) := by
  obtain ⟨parent, name, link, rfl⟩ := own
  have inner : Select.selects ⟨table, binding, [.template ⟨"1", []⟩ []], joins, correlation parent name link :: rest, [],
      none, none⟩ = listSelects rest := by
    simp [Select.selects, listSelects, Select.no_joinSelects tied, Select.orderSelects, selects, correlation]
  rw [Exact, lookups, selects, total, inner, total_listSelects, ← counted, ← total_listSubqueries]
  simp only [subqueryCount, selectJoinCount, listSubqueryCount, ordersSubqueryCount, correlation, Select.lookups]
  omega

theorem Join.fresh_subset (taken : List String) (js : List Join) : fresh taken js ⊆ js := by
  induction js generalizing taken with
  | nil => exact List.nil_subset _
  | cons j rest ih =>
    rw [fresh]
    split
    · exact List.subset_cons_of_subset _ (ih _)
    · exact List.cons_subset_cons _ (ih _)

namespace CompiledQuery

-- Related rows that are opened, joined and closed.
theorem closeScope_counted {q : CompiledQuery} {related : Queryable} {binding parent : String} {link : Link}
    {mode : ToManyMode} {joins : List Join} {p closed : Predicate} (tied : ∀ j ∈ joins, Expr.Tied j.condition)
    (exact : p.Exact)
    (accepted : ((q.openScope related binding).joining joins).closeScope? parent binding link p mode = some closed) :
    closed.Exact := by
  cases q with
  | search r =>
    cases p with
    | sql e => cases accepted
    | search c =>
      cases Option.some.inj accepted
      trivial
  | sql d s =>
    cases p with
    | search c => cases accepted
    | sql e =>
      cases Option.some.inj accepted
      cases mode with
      | anyMatch => exact Expr.exact_rows tied ⟨parent, binding, link, rfl⟩ exact.conjuncts false
      | allMatch => exact Expr.exact_rows tied ⟨parent, binding, link, rfl⟩ exact.violation.conjuncts true

end CompiledQuery
end FilterQuery
