import FilterQuery.Query.Predicate

namespace FilterQuery

namespace Expr

mutual
-- No membership test is without members, in subqueries neither.
def Populated : Expr → Prop
  | column _ _ => True
  | value _ => True
  | binary left _ right => left.Populated ∧ right.Populated
  | inList e list _ => list ≠ [] ∧ e.Populated ∧ AllPopulated list
  | isNull e _ => e.Populated
  | and members => AllPopulated members
  | or members => AllPopulated members
  | not e => e.Populated
  | notTrue e => e.Populated
  | func _ args => AllPopulated args
  | template _ args => AllPopulated args
  | existsIn query _ => SelectPopulated query
  | scalar query => SelectPopulated query
  | constant _ => True

def AllPopulated : List Expr → Prop
  | [] => True
  | e :: rest => e.Populated ∧ AllPopulated rest

def SelectPopulated : Select → Prop
  | ⟨_, _, columns, joins, conditions, orders, _, _⟩ =>
    AllPopulated columns ∧ JoinsPopulated joins ∧ AllPopulated conditions ∧ OrdersPopulated orders

def JoinsPopulated : List Join → Prop
  | [] => True
  | ⟨_, _, _, condition⟩ :: rest => condition.Populated ∧ JoinsPopulated rest

def OrdersPopulated : List SortKey → Prop
  | [] => True
  | ⟨key, _, _⟩ :: rest => key.Populated ∧ OrdersPopulated rest
end

variable {members : List Expr}

theorem allPopulated_exact : AllPopulated members ↔ ∀ e ∈ members, e.Populated := by
  induction members with
  | nil => simp [AllPopulated]
  | cons e rest ih => simp [AllPopulated, ih]

theorem joinsPopulated_exact {joins : List Join} : JoinsPopulated joins ↔ ∀ j ∈ joins, j.condition.Populated := by
  induction joins with
  | nil => simp [JoinsPopulated]
  | cons j rest ih =>
    obtain ⟨kind, table, binding, condition⟩ := j
    simp [JoinsPopulated, ih]

theorem ordersPopulated_exact {orders : List SortKey} : OrdersPopulated orders ↔ ∀ k ∈ orders, k.expr.Populated := by
  induction orders with
  | nil => simp [OrdersPopulated]
  | cons k rest ih =>
    obtain ⟨key, descending, nulls⟩ := k
    simp [OrdersPopulated, ih]

theorem selectPopulated_exact {s : Select} : SelectPopulated s ↔ (∀ e ∈ s.columns, e.Populated) ∧
    (∀ j ∈ s.joins, j.condition.Populated) ∧ (∀ e ∈ s.conditions, e.Populated) ∧ ∀ k ∈ s.orders, k.expr.Populated := by
  obtain ⟨table, binding, columns, joins, conditions, orders, limit, offset⟩ := s
  simp only [SelectPopulated, allPopulated_exact, joinsPopulated_exact, ordersPopulated_exact]

theorem andParts_populated {e : Expr} (populated : e.Populated) : ∀ part ∈ e.andParts, part.Populated := by
  unfold andParts
  split
  · simp
  · exact allPopulated_exact.mp populated
  · simpa using populated

theorem orParts_populated {e : Expr} (populated : e.Populated) : ∀ part ∈ e.orParts, part.Populated := by
  unfold orParts
  split
  · simp
  · exact allPopulated_exact.mp populated
  · simpa using populated

theorem conjunction_populated (each : ∀ e ∈ members, e.Populated) : (conjunction members).Populated := by
  unfold conjunction
  split
  · trivial
  · exact each _ (List.mem_singleton_self _)
  · exact allPopulated_exact.mpr each

theorem disjunction_populated (each : ∀ e ∈ members, e.Populated) : (disjunction members).Populated := by
  unfold disjunction
  split
  · trivial
  · exact each _ (List.mem_singleton_self _)
  · exact allPopulated_exact.mpr each

theorem all_populated (each : ∀ e ∈ members, e.Populated) : (all members).Populated := by
  unfold all
  split
  · trivial
  · refine conjunction_populated ?_
    simpa only [List.forall_mem_flatMap] using fun e member => andParts_populated (each e member)

theorem any_populated (each : ∀ e ∈ members, e.Populated) : (any members).Populated := by
  unfold any
  split
  · trivial
  · refine disjunction_populated ?_
    simpa only [List.forall_mem_flatMap] using fun e member => orParts_populated (each e member)

theorem negate_populated {e : Expr} (populated : e.Populated) : e.negate.Populated := by
  cases e with
  | binary left op right =>
    rw [negate]
    split <;> exact populated
  | _ => exact populated

theorem violation_populated {e : Expr} (populated : e.Populated) : e.violation.Populated := by
  cases e <;> exact populated

mutual
theorem conjuncts_populated (e : Expr) (populated : e.Populated) : ∀ part ∈ e.conjuncts, part.Populated := by
  cases e with
  | constant b => cases b <;> simp [conjuncts, Populated]
  | and members => exact listConjuncts_populated members (allPopulated_exact.mp populated)
  | _ => simpa [conjuncts] using populated

theorem listConjuncts_populated (members : List Expr) (each : ∀ e ∈ members, e.Populated) :
    ∀ part ∈ listConjuncts members, part.Populated := by
  cases members with
  | nil => simp [listConjuncts]
  | cons e rest =>
    obtain ⟨here, later⟩ := List.forall_mem_cons.mp each
    exact List.forall_mem_append.mpr ⟨conjuncts_populated e here, listConjuncts_populated rest later⟩
end

end Expr

-- A search for no terms.
def Json.isEmptyTerms : Json → Bool
  | obj [("terms", obj [(_, arr [])])] => true
  | _ => false

namespace Clause

mutual
-- No search for terms is without terms, at any depth.
def Populated : Clause → Prop
  | constant _ => True
  | query body => body.isEmptyTerms = false
  | and members => AllPopulated members
  | or members => AllPopulated members
  | not c => c.Populated
  | nested _ c => c.Populated

def AllPopulated : List Clause → Prop
  | [] => True
  | c :: rest => c.Populated ∧ AllPopulated rest
end

variable {members : List Clause}

theorem allPopulated_exact : AllPopulated members ↔ ∀ c ∈ members, c.Populated := by
  induction members with
  | nil => simp [AllPopulated]
  | cons c rest ih => simp [AllPopulated, ih]

theorem andParts_populated {c : Clause} (populated : c.Populated) : ∀ part ∈ c.andParts, part.Populated := by
  unfold andParts
  split
  · simp
  · exact allPopulated_exact.mp populated
  · simpa using populated

theorem orParts_populated {c : Clause} (populated : c.Populated) : ∀ part ∈ c.orParts, part.Populated := by
  unfold orParts
  split
  · simp
  · exact allPopulated_exact.mp populated
  · simpa using populated

theorem conjunction_populated (each : ∀ c ∈ members, c.Populated) : (conjunction members).Populated := by
  unfold conjunction
  split
  · trivial
  · exact each _ (List.mem_singleton_self _)
  · exact allPopulated_exact.mpr each

theorem disjunction_populated (each : ∀ c ∈ members, c.Populated) : (disjunction members).Populated := by
  unfold disjunction
  split
  · trivial
  · exact each _ (List.mem_singleton_self _)
  · exact allPopulated_exact.mpr each

theorem all_populated (each : ∀ c ∈ members, c.Populated) : (all members).Populated := by
  unfold all
  split
  · trivial
  · refine conjunction_populated ?_
    simpa only [List.forall_mem_flatMap] using fun c member => andParts_populated (each c member)

theorem any_populated (each : ∀ c ∈ members, c.Populated) : (any members).Populated := by
  unfold any
  split
  · trivial
  · refine disjunction_populated ?_
    simpa only [List.forall_mem_flatMap] using fun c member => orParts_populated (each c member)

theorem negate_populated {c : Clause} (populated : c.Populated) : c.negate.Populated := by
  cases c <;> exact populated

mutual
theorem conjuncts_populated (c : Clause) (populated : c.Populated) : ∀ part ∈ c.conjuncts, part.Populated := by
  cases c with
  | constant b => cases b <;> simp [conjuncts, Populated]
  | and members => exact listConjuncts_populated members (allPopulated_exact.mp populated)
  | _ => simpa [conjuncts] using populated

theorem listConjuncts_populated (members : List Clause) (each : ∀ c ∈ members, c.Populated) :
    ∀ part ∈ listConjuncts members, part.Populated := by
  cases members with
  | nil => simp [listConjuncts]
  | cons c rest =>
    obtain ⟨here, later⟩ := List.forall_mem_cons.mp each
    exact List.forall_mem_append.mpr ⟨conjuncts_populated c here, listConjuncts_populated rest later⟩
end

end Clause

namespace Predicate

def Populated : Predicate → Prop
  | sql e => e.Populated
  | search c => c.Populated

theorem negate_populated {p : Predicate} (populated : p.Populated) : p.negate.Populated := by
  cases p with
  | sql e => exact Expr.negate_populated populated
  | search c => exact Clause.negate_populated populated

theorem join_populated (k : QueryKind) (op : Connective) {members : List Predicate} (each : ∀ p ∈ members, p.Populated) :
    (join k op members).Populated := by
  have exprs : ∀ e ∈ members.filterMap expr?, e.Populated := by
    intro e member
    obtain ⟨p, among, found⟩ := List.mem_filterMap.mp member
    cases p <;> cases found
    exact each _ among
  have clauses : ∀ c ∈ members.filterMap clause?, c.Populated := by
    intro c member
    obtain ⟨p, among, found⟩ := List.mem_filterMap.mp member
    cases p <;> cases found
    exact each _ among
  cases k <;> cases op
  · exact Expr.all_populated exprs
  · exact Expr.any_populated exprs
  · exact Clause.all_populated clauses
  · exact Clause.any_populated clauses

end Predicate
end FilterQuery
