import FilterQuery.Query.Compiled

namespace FilterQuery

-- Null is not hidden, for it is written out.
def Value.masked : Value → Value
  | .null => .null
  | _ => .bool true

@[simp] theorem Value.isNull_masked (v : Value) : v.masked.isNull = v.isNull := by cases v <;> rfl

@[simp] theorem Value.masked_masked (v : Value) : v.masked.masked = v.masked := by cases v <;> rfl

namespace Expr

mutual
@[simp] def masked : Expr → Expr
  | column table name => column table name
  | value v => value v.masked
  | binary left op right => binary left.masked op right.masked
  | inList e list negated => inList e.masked (listMasked list) negated
  | isNull e negated => isNull e.masked negated
  | and members => and (listMasked members)
  | or members => or (listMasked members)
  | not e => not e.masked
  | notTrue e => notTrue e.masked
  | func name args => func name (listMasked args)
  | template text args => template text (listMasked args)
  | existsIn query negated => existsIn (selectMasked query) negated
  | scalar query => scalar (selectMasked query)
  | constant b => constant b

@[simp] def listMasked : List Expr → List Expr
  | [] => []
  | e :: rest => e.masked :: listMasked rest

def selectMasked : Select → Select
  | ⟨table, binding, columns, joins, conditions, orders, limit, offset⟩ =>
    ⟨table, binding, listMasked columns, joinsMasked joins, listMasked conditions, ordersMasked orders, limit, offset⟩

def joinsMasked : List Join → List Join
  | [] => []
  | ⟨kind, table, binding, condition⟩ :: rest => ⟨kind, table, binding, condition.masked⟩ :: joinsMasked rest

def ordersMasked : List SortKey → List SortKey
  | [] => []
  | ⟨key, direction, nulls⟩ :: rest => ⟨key.masked, direction, nulls⟩ :: ordersMasked rest
end

theorem listMasked_eq_map (list : List Expr) : listMasked list = list.map masked := by
  induction list with
  | nil => rfl
  | cons e rest ih => rw [listMasked, ih, List.map_cons]

@[simp] theorem isConstant_masked (b : Bool) (e : Expr) : e.masked.isConstant b = e.isConstant b := by
  cases e <;> rfl

theorem andParts_masked (e : Expr) : e.masked.andParts = e.andParts.map masked := by
  cases e with
  | constant b => cases b <;> rfl
  | and members => exact listMasked_eq_map members
  | _ => rfl

theorem orParts_masked (e : Expr) : e.masked.orParts = e.orParts.map masked := by
  cases e with
  | constant b => cases b <;> rfl
  | or members => exact listMasked_eq_map members
  | _ => rfl

theorem conjunction_masked (members : List Expr) : (conjunction members).masked = conjunction (members.map masked) := by
  cases members with
  | nil => rfl
  | cons e rest =>
    cases rest with
    | nil => rfl
    | cons next rest => exact congrArg and (listMasked_eq_map _)

theorem disjunction_masked (members : List Expr) : (disjunction members).masked = disjunction (members.map masked) := by
  cases members with
  | nil => rfl
  | cons e rest =>
    cases rest with
    | nil => rfl
    | cons next rest => exact congrArg or (listMasked_eq_map _)

theorem any_constant_masked (b : Bool) (members : List Expr) :
    (members.map masked).any (isConstant b) = members.any (isConstant b) := by
  simp [List.any_map, Function.comp_def]

theorem all_masked (members : List Expr) : (all members).masked = all (members.map masked) := by
  unfold all
  rw [any_constant_masked]
  split
  · rfl
  · rw [conjunction_masked, List.map_flatMap, List.flatMap_map]
    simp only [andParts_masked]

theorem any_masked (members : List Expr) : (any members).masked = any (members.map masked) := by
  unfold any
  rw [any_constant_masked, List.isEmpty_map]
  split
  · rfl
  · rw [disjunction_masked, List.map_flatMap, List.flatMap_map]
    simp only [orParts_masked]

theorem negate_masked (e : Expr) : e.negate.masked = e.masked.negate := by
  cases e with
  | binary left op right =>
    rw [negate, masked, negate]
    split <;> rfl
  | _ => rfl

theorem violation_masked (e : Expr) : e.violation.masked = e.masked.violation := by
  cases e <;> rfl

mutual
theorem conjuncts_masked (e : Expr) : e.masked.conjuncts = e.conjuncts.map masked := by
  cases e with
  | constant b => cases b <;> rfl
  | and members => exact listConjuncts_masked members
  | _ => rfl

theorem listConjuncts_masked (members : List Expr) :
    listConjuncts (listMasked members) = (listConjuncts members).map masked := by
  cases members with
  | nil => rfl
  | cons e rest =>
    rw [listMasked, listConjuncts, listConjuncts, conjuncts_masked e, listConjuncts_masked rest, List.map_append]
end

end Expr

namespace Select

def masked (s : Select) : Select := Expr.selectMasked s

theorem masked_andWhere (s : Select) (e : Expr) : (s.andWhere e).masked = s.masked.andWhere e.masked := by
  cases s with
  | mk table binding columns joins conditions orders limit offset =>
    simp only [masked, andWhere, Expr.selectMasked, Expr.conjuncts_masked, Expr.listMasked_eq_map, List.map_append]

theorem hasJoin_masked (s : Select) (binding : String) : s.masked.hasJoin binding = s.hasJoin binding := by
  cases s with
  | mk table own columns joins conditions orders limit offset =>
    simp only [masked, Expr.selectMasked, hasJoin]
    induction joins with
    | nil => rfl
    | cons j rest ih =>
      cases j
      simp only [Expr.joinsMasked, List.any_cons, ih]

theorem joinsMasked_concat (joins : List Join) (j : Join) :
    Expr.joinsMasked (joins ++ [j]) = Expr.joinsMasked joins ++ Expr.joinsMasked [j] := by
  induction joins with
  | nil => rfl
  | cons first rest ih =>
    cases first
    simp only [List.cons_append, Expr.joinsMasked, ih]

theorem masked_join (s : Select) (kind : JoinKind) (table binding : String) (condition : Expr) :
    (s.join ⟨kind, table, binding, condition⟩).masked = s.masked.join ⟨kind, table, binding, condition.masked⟩ := by
  unfold join
  rw [hasJoin_masked]
  split
  · rfl
  · cases s with
    | mk own rows columns joins conditions orders limit offset =>
      simp only [masked, Expr.selectMasked, joinsMasked_concat, Expr.joinsMasked]

end Select

namespace Predicate

-- The clauses of the search engine are its text, values and all.
def masked : Predicate → Predicate
  | sql e => sql e.masked
  | search c => search c

@[simp] theorem kind_masked (p : Predicate) : p.masked.kind = p.kind := by cases p <;> rfl

theorem negate_masked (p : Predicate) : p.negate.masked = p.masked.negate := by
  cases p with
  | sql e => exact congrArg sql e.negate_masked
  | search c => rfl

theorem exprs_masked (members : List Predicate) :
    (members.map masked).filterMap expr? = (members.filterMap expr?).map Expr.masked := by
  induction members with
  | nil => rfl
  | cons p rest ih => cases p <;> simp [List.filterMap_cons, masked, expr?, ih]

theorem clauses_masked (members : List Predicate) :
    (members.map masked).filterMap clause? = members.filterMap clause? := by
  induction members with
  | nil => rfl
  | cons p rest ih => cases p <;> simp [List.filterMap_cons, masked, clause?, ih]

theorem join_masked (kind : QueryKind) (op : Connective) (members : List Predicate) :
    (join kind op members).masked = join kind op (members.map masked) := by
  cases kind with
  | search => cases op <;> simp only [join, all, any, masked, clauses_masked]
  | sql => cases op <;> simp only [join, all, any, masked, exprs_masked, Expr.all_masked, Expr.any_masked]

end Predicate

namespace CompiledQuery

def masked : CompiledQuery → CompiledQuery
  | sql d s => sql d s.masked
  | search r => search r

@[simp] theorem kind_masked (q : CompiledQuery) : q.masked.kind = q.kind := by cases q <;> rfl

theorem kind_of_masked {q q' : CompiledQuery} (alike : q.masked = q'.masked) : q.kind = q'.kind := by
  rw [← q.kind_masked, alike, q'.kind_masked]

theorem bindToOne_masked (q : CompiledQuery) (parent binding : String) (link : Link) (related : Queryable) :
    (q.bindToOne parent binding link related).masked = q.masked.bindToOne parent binding link related := by
  cases q with
  | sql d s => exact congrArg (sql d) (s.masked_join ..)
  | search r => rfl

theorem openScope_masked (q : CompiledQuery) (related : Queryable) (binding : String) :
    (q.openScope related binding).masked = q.masked.openScope related binding := by
  cases q <;> rfl

theorem andPredicate_masked (q : CompiledQuery) (p : Predicate) :
    (q.andPredicate? p).map masked = q.masked.andPredicate? p.masked := by
  cases q <;> cases p <;> simp [andPredicate?, masked, Predicate.masked, Select.masked_andWhere]

theorem closeSelect_masked (s : Select) (parent binding : String) (link : Link) (mode : ToManyMode) (e : Expr) :
    (closeSelect s parent binding link mode e).masked = closeSelect s.masked parent binding link mode e.masked := by
  have same : (s.andWhere (correlation parent binding link)).masked =
      s.masked.andWhere (correlation parent binding link) := s.masked_andWhere _
  cases mode with
  | anyMatch =>
    rw [closeSelect, Expr.masked, closeSelect, ← same, ← Select.masked_andWhere]
    rfl
  | allMatch =>
    rw [closeSelect, Expr.masked, closeSelect, ← same, ← Expr.violation_masked, ← Select.masked_andWhere]
    rfl

theorem closeScope_masked (below : CompiledQuery) (parent binding : String) (link : Link) (p : Predicate)
    (mode : ToManyMode) : (below.closeScope? parent binding link p mode).map Predicate.masked =
      below.masked.closeScope? parent binding link p.masked mode := by
  cases below <;> cases p <;> simp [closeScope?, masked, Predicate.masked, closeSelect_masked]

end CompiledQuery
end FilterQuery
