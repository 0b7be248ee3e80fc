import Mathlib.Data.List.Basic
import FilterQuery.Proofs.NormalForm
import FilterQuery.Proofs.PredicateAtoms
import FilterQuery.Proofs.RouteRuns

namespace FilterQuery

-- Around each part are SELECTs, or nested documents, by their bindings and innermost first; a subquery is the
-- innermost of its own.
inductive WherePart where
  | test (selects : List String) (test : Predicate)
  | subquery (selects : List String)

theorem flatMap_ne_nil {members : List α} {f : α → List β} (nonempty : members ≠ []) (each : ∀ m ∈ members, f m ≠ []) :
    members.flatMap f ≠ [] := by
  obtain ⟨m, member⟩ := List.exists_mem_of_ne_nil _ nonempty
  exact fun empty => each m member (List.flatMap_eq_nil_iff.mp empty m member)

-- Members may be taken apart.
theorem flatMap_kept {members : List α} {f : α → List α} {g : α → List β} (kept : ∀ m ∈ members, (f m).flatMap g = g m) :
    (members.flatMap f).flatMap g = members.flatMap g := by
  rw [List.flatMap_assoc]
  exact List.flatMap_congr kept

-- One of each two operators that are complements.
def BinOp.unsigned : BinOp → BinOp
  | ne => eq
  | notLike => like
  | notIlike => ilike
  | op => op

theorem BinOp.unsigned_complement {op complement : BinOp} (found : op.complement? = some complement) :
    complement.unsigned = op.unsigned := by
  cases op <;> cases found <;> rfl

namespace Expr

-- The test without the sign that negation may have left on it.
def unsigned : Expr → Expr
  | binary left op right => binary left op.unsigned right
  | inList e list _ => inList e list false
  | isNull e _ => isNull e false
  | constant _ => constant true
  | e => e

mutual
def contents (selects : List String) : Expr → List WherePart
  | and members => listContents selects members
  | or members => listContents selects members
  | not e => e.contents selects
  | notTrue e => e.contents selects
  | existsIn query _ => selectContents selects query
  | e => [.test selects (.sql e.unsigned)]

def listContents (selects : List String) : List Expr → List WherePart
  | [] => []
  | e :: rest => e.contents selects ++ listContents selects rest

def selectContents (selects : List String) : Select → List WherePart
  | ⟨_, binding, _, _, conditions, _, _, _⟩ =>
    .subquery (binding :: selects) :: listContents (binding :: selects) conditions
end

theorem listContents_eq (selects : List String) (members : List Expr) :
    listContents selects members = members.flatMap (contents selects) := by
  induction members with
  | nil => rfl
  | cons e rest ih => rw [listContents, ih, List.flatMap_cons]

theorem selectContents_eq (selects : List String) (s : Select) :
    selectContents selects s = .subquery (s.binding :: selects) :: s.conditions.flatMap (contents (s.binding :: selects)) := by
  cases s
  rw [selectContents, listContents_eq]

theorem contents_negate (selects : List String) (e : Expr) : e.negate.contents selects = e.contents selects := by
  cases e with
  | binary left op right =>
    simp only [negate]
    split
    · rename_i complement found
      rw [contents, contents, unsigned, unsigned, BinOp.unsigned_complement found] <;> simp
    · rw [contents]
  | _ => simp only [negate, contents, unsigned]

theorem contents_violation (selects : List String) (e : Expr) : e.violation.contents selects = e.contents selects := by
  unfold violation
  split <;> first | exact contents_negate selects _ | rw [contents]

-- No constant.
def Undecided (e : Expr) : Prop := ∀ b, e.isConstant b = false

theorem undecided_of_fitsAnd {e : Expr} (fits : e.fitsAnd = true) : e.Undecided := by
  intro b
  cases e <;> first | rfl | cases fits

theorem undecided_of_fitsOr {e : Expr} (fits : e.fitsOr = true) : e.Undecided := by
  intro b
  cases e <;> first | rfl | cases fits

theorem contents_andParts (selects : List String) {e : Expr} (undecided : e.Undecided) :
    e.andParts.flatMap (contents selects) = e.contents selects := by
  unfold andParts
  split
  · cases undecided true
  · rw [contents, listContents_eq]
  · exact List.flatMap_singleton ..

theorem contents_orParts (selects : List String) {e : Expr} (undecided : e.Undecided) :
    e.orParts.flatMap (contents selects) = e.contents selects := by
  unfold orParts
  split
  · cases undecided false
  · rw [contents, listContents_eq]
  · exact List.flatMap_singleton ..

theorem andParts_ne_nil {e : Expr} (normal : e.Normal) (undecided : e.Undecided) : e.andParts ≠ [] := by
  cases e with
  | constant b => simpa [isConstant] using undecided b
  | and members =>
    have two := normal.1
    rintro rfl
    cases two
  | _ => simp [andParts]

theorem orParts_ne_nil {e : Expr} (normal : e.Normal) (undecided : e.Undecided) : e.orParts ≠ [] := by
  cases e with
  | constant b => simpa [isConstant] using undecided b
  | or members =>
    have two := normal.1
    rintro rfl
    cases two
  | _ => simp [orParts]

theorem contents_conjunction (selects : List String) {parts : List Expr} (nonempty : parts ≠ []) :
    (conjunction parts).contents selects = parts.flatMap (contents selects) := by
  unfold conjunction
  split
  · exact absurd rfl nonempty
  · exact (List.flatMap_singleton ..).symm
  · rw [contents, listContents_eq]

theorem contents_disjunction (selects : List String) {parts : List Expr} (nonempty : parts ≠ []) :
    (disjunction parts).contents selects = parts.flatMap (contents selects) := by
  unfold disjunction
  split
  · exact absurd rfl nonempty
  · exact (List.flatMap_singleton ..).symm
  · rw [contents, listContents_eq]

theorem conjunction_undecided {parts : List Expr} (nonempty : parts ≠ []) (each : ∀ e ∈ parts, e.Undecided) :
    (conjunction parts).Undecided := by
  unfold conjunction
  split
  · exact absurd rfl nonempty
  · exact each _ (List.mem_singleton_self _)
  · exact fun _ => rfl

theorem disjunction_undecided {parts : List Expr} (nonempty : parts ≠ []) (each : ∀ e ∈ parts, e.Undecided) :
    (disjunction parts).Undecided := by
  unfold disjunction
  split
  · exact absurd rfl nonempty
  · exact each _ (List.mem_singleton_self _)
  · exact fun _ => rfl

section Joined

variable {members : List Expr}

theorem not_any_undecided (each : ∀ m ∈ members, m.Undecided) (b : Bool) : members.any (isConstant b) = false := by
  simpa using fun m member => each m member b

theorem all_parts (nonempty : members ≠ []) (normal : ∀ m ∈ members, m.Normal) (each : ∀ m ∈ members, m.Undecided)
    (selects : List String) :
    (all members).Undecided ∧ (all members).contents selects = members.flatMap (contents selects) := by
  have left := flatMap_ne_nil nonempty fun m member => andParts_ne_nil (normal m member) (each m member)
  rw [all, not_any_undecided each, if_neg Bool.false_ne_true]
  refine ⟨conjunction_undecided left ?_, ?_⟩
  · intro part within
    obtain ⟨m, member, within⟩ := List.mem_flatMap.mp within
    exact undecided_of_fitsAnd (andParts_normal (normal m member) (each m member false) within).1
  · rw [contents_conjunction selects left]
    exact flatMap_kept fun m member => contents_andParts selects (each m member)

theorem any_parts (nonempty : members ≠ []) (normal : ∀ m ∈ members, m.Normal) (each : ∀ m ∈ members, m.Undecided)
    (selects : List String) :
    (any members).Undecided ∧ (any members).contents selects = members.flatMap (contents selects) := by
  have left := flatMap_ne_nil nonempty fun m member => orParts_ne_nil (normal m member) (each m member)
  rw [any, not_any_undecided each, List.isEmpty_eq_false_iff.mpr nonempty, Bool.or_self, if_neg Bool.false_ne_true]
  refine ⟨disjunction_undecided left ?_, ?_⟩
  · intro part within
    obtain ⟨m, member, within⟩ := List.mem_flatMap.mp within
    exact undecided_of_fitsOr (orParts_normal (normal m member) (each m member true) within).1
  · rw [contents_disjunction selects left]
    exact flatMap_kept fun m member => contents_orParts selects (each m member)

end Joined

theorem negate_undecided {e : Expr} (steady : e.Steady) (undecided : e.Undecided) : e.negate.Undecided := by
  intro b
  refine Bool.eq_false_iff.mpr fun decided => ?_
  have back := negate_negate steady
  rw [eq_constant decided, negate] at back
  have live := undecided (!b)
  rw [← back] at live
  simp [isConstant] at live

theorem violation_undecided {e : Expr} (undecided : e.Undecided) : e.violation.Undecided := by
  cases e with
  | constant b => simpa [isConstant] using undecided b
  | _ => exact fun _ => rfl

theorem listConjuncts_of_fitsAnd {members : List Expr} (flat : ∀ m ∈ members, m.fitsAnd = true) :
    listConjuncts members = members := by
  induction members with
  | nil => rfl
  | cons e rest ih =>
    obtain ⟨here, later⟩ := List.forall_mem_cons.mp flat
    have alone : e.conjuncts = [e] := by
      cases e <;> first | rfl | cases here
    rw [listConjuncts, alone, ih later, List.singleton_append]

-- A WHERE takes a conjunction apart and keeps what it is made of.
theorem contents_conjuncts (selects : List String) {e : Expr} (normal : e.Normal) (undecided : e.Undecided) :
    e.conjuncts.flatMap (contents selects) = e.contents selects := by
  cases e with
  | constant b => simpa [isConstant] using undecided b
  | and members => rw [conjuncts, listConjuncts_of_fitsAnd normal.2.1, contents, listContents_eq]
  | _ => exact List.flatMap_singleton ..

end Expr

namespace Clause

mutual
def contents (selects : List String) : Clause → List WherePart
  | and members => listContents selects members
  | or members => listContents selects members
  | not c => c.contents selects
  | nested path c => .subquery (path :: selects) :: c.contents (path :: selects)
  | constant _ => [.test selects (.search (constant true))]
  | query body => [.test selects (.search (query body))]

def listContents (selects : List String) : List Clause → List WherePart
  | [] => []
  | c :: rest => c.contents selects ++ listContents selects rest
end

theorem listContents_eq (selects : List String) (members : List Clause) :
    listContents selects members = members.flatMap (contents selects) := by
  induction members with
  | nil => rfl
  | cons c rest ih => rw [listContents, ih, List.flatMap_cons]

theorem contents_negate (selects : List String) (c : Clause) : c.negate.contents selects = c.contents selects := by
  cases c <;> simp only [negate, contents]

def Undecided (c : Clause) : Prop := ∀ b, c.isConstant b = false

theorem undecided_of_fitsAnd {c : Clause} (fits : c.fitsAnd = true) : c.Undecided := by
  intro b
  cases c <;> first | rfl | cases fits

theorem undecided_of_fitsOr {c : Clause} (fits : c.fitsOr = true) : c.Undecided := by
  intro b
  cases c <;> first | rfl | cases fits

theorem contents_andParts (selects : List String) {c : Clause} (undecided : c.Undecided) :
    c.andParts.flatMap (contents selects) = c.contents selects := by
  unfold andParts
  split
  · cases undecided true
  · rw [contents, listContents_eq]
  · exact List.flatMap_singleton ..

theorem contents_orParts (selects : List String) {c : Clause} (undecided : c.Undecided) :
    c.orParts.flatMap (contents selects) = c.contents selects := by
  unfold orParts
  split
  · cases undecided false
  · rw [contents, listContents_eq]
  · exact List.flatMap_singleton ..

theorem andParts_ne_nil {c : Clause} (normal : c.Normal) (undecided : c.Undecided) : c.andParts ≠ [] := by
  cases c with
  | constant b => simpa [isConstant] using undecided b
  | and members =>
    have two := normal.1
    rintro rfl
    cases two
  | _ => simp [andParts]

theorem orParts_ne_nil {c : Clause} (normal : c.Normal) (undecided : c.Undecided) : c.orParts ≠ [] := by
  cases c with
  | constant b => simpa [isConstant] using undecided b
  | or members =>
    have two := normal.1
    rintro rfl
    cases two
  | _ => simp [orParts]

theorem contents_conjunction (selects : List String) {parts : List Clause} (nonempty : parts ≠ []) :
    (conjunction parts).contents selects = parts.flatMap (contents selects) := by
  unfold conjunction
  split
  · exact absurd rfl nonempty
  · exact (List.flatMap_singleton ..).symm
  · rw [contents, listContents_eq]

theorem contents_disjunction (selects : List String) {parts : List Clause} (nonempty : parts ≠ []) :
    (disjunction parts).contents selects = parts.flatMap (contents selects) := by
  unfold disjunction
  split
  · exact absurd rfl nonempty
  · exact (List.flatMap_singleton ..).symm
  · rw [contents, listContents_eq]

theorem conjunction_undecided {parts : List Clause} (nonempty : parts ≠ []) (each : ∀ c ∈ parts, c.Undecided) :
    (conjunction parts).Undecided := by
  unfold conjunction
  split
  · exact absurd rfl nonempty
  · exact each _ (List.mem_singleton_self _)
  · exact fun _ => rfl

theorem disjunction_undecided {parts : List Clause} (nonempty : parts ≠ []) (each : ∀ c ∈ parts, c.Undecided) :
    (disjunction parts).Undecided := by
  unfold disjunction
  split
  · exact absurd rfl nonempty
  · exact each _ (List.mem_singleton_self _)
  · exact fun _ => rfl

section Joined

variable {members : List Clause}

theorem not_any_undecided (each : ∀ m ∈ members, m.Undecided) (b : Bool) : members.any (isConstant b) = false := by
  simpa using fun m member => each m member b

theorem all_parts (nonempty : members ≠ []) (normal : ∀ m ∈ members, m.Normal) (each : ∀ m ∈ members, m.Undecided)
    (selects : List String) :
    (all members).Undecided ∧ (all members).contents selects = members.flatMap (contents selects) := by
  have left := flatMap_ne_nil nonempty fun m member => andParts_ne_nil (normal m member) (each m member)
  rw [all, not_any_undecided each, if_neg Bool.false_ne_true]
  refine ⟨conjunction_undecided left ?_, ?_⟩
  · intro part within
    obtain ⟨m, member, within⟩ := List.mem_flatMap.mp within
    exact undecided_of_fitsAnd (andParts_normal (normal m member) (each m member false) within).1
  · rw [contents_conjunction selects left]
    exact flatMap_kept fun m member => contents_andParts selects (each m member)

theorem any_parts (nonempty : members ≠ []) (normal : ∀ m ∈ members, m.Normal) (each : ∀ m ∈ members, m.Undecided)
    (selects : List String) :
    (any members).Undecided ∧ (any members).contents selects = members.flatMap (contents selects) := by
  have left := flatMap_ne_nil nonempty fun m member => orParts_ne_nil (normal m member) (each m member)
  rw [any, not_any_undecided each, List.isEmpty_eq_false_iff.mpr nonempty, Bool.or_self, if_neg Bool.false_ne_true]
  refine ⟨disjunction_undecided left ?_, ?_⟩
  · intro part within
    obtain ⟨m, member, within⟩ := List.mem_flatMap.mp within
    exact undecided_of_fitsOr (orParts_normal (normal m member) (each m member true) within).1
  · rw [contents_disjunction selects left]
    exact flatMap_kept fun m member => contents_orParts selects (each m member)

end Joined

theorem negate_undecided {c : Clause} (steady : c.Steady) (undecided : c.Undecided) : c.negate.Undecided := by
  intro b
  refine Bool.eq_false_iff.mpr fun decided => ?_
  have back := negate_negate steady
  rw [eq_constant decided, negate] at back
  have live := undecided (!b)
  rw [← back] at live
  simp [isConstant] at live

theorem listConjuncts_of_fitsAnd {members : List Clause} (flat : ∀ m ∈ members, m.fitsAnd = true) :
    listConjuncts members = members := by
  induction members with
  | nil => rfl
  | cons c rest ih =>
    obtain ⟨here, later⟩ := List.forall_mem_cons.mp flat
    have alone : c.conjuncts = [c] := by
      cases c <;> first | rfl | cases here
    rw [listConjuncts, alone, ih later, List.singleton_append]

theorem contents_conjuncts (selects : List String) {c : Clause} (normal : c.Normal) (undecided : c.Undecided) :
    c.conjuncts.flatMap (contents selects) = c.contents selects := by
  cases c with
  | constant b => simpa [isConstant] using undecided b
  | and members => rw [conjuncts, listConjuncts_of_fitsAnd normal.2.1, contents, listContents_eq]
  | _ => exact List.flatMap_singleton ..

end Clause

namespace Predicate

def contents (selects : List String) : Predicate → List WherePart
  | sql e => e.contents selects
  | search c => c.contents selects

def Undecided (p : Predicate) : Prop := ∀ b, p.isConstant b = false

instance (p : Predicate) : Decidable p.Undecided := inferInstanceAs (Decidable (∀ b, p.isConstant b = false))

theorem contents_negate (selects : List String) (p : Predicate) : p.negate.contents selects = p.contents selects := by
  cases p with
  | sql e => exact e.contents_negate selects
  | search c => exact c.contents_negate selects

theorem negate_undecided {p : Predicate} (steady : p.Steady) (undecided : p.Undecided) : p.negate.Undecided := by
  cases p with
  | sql e => exact Expr.negate_undecided steady undecided
  | search c => exact Clause.negate_undecided steady undecided

theorem join_parts (op : Connective) {members : List Predicate} (own : ∀ p ∈ members, p.kind = k) (nonempty : members ≠ [])
    (normal : ∀ p ∈ members, p.Normal) (each : ∀ p ∈ members, p.Undecided) (selects : List String) :
    (join k op members).Undecided ∧ (join k op members).contents selects = members.flatMap (contents selects) := by
  cases k with
  | sql =>
    obtain ⟨exprs, rfl⟩ : ∃ exprs : List Expr, members = exprs.map sql := ⟨_, (exprs_of_kind own).symm⟩
    rw [ne_eq, List.map_eq_nil_iff] at nonempty
    rw [List.forall_mem_map] at normal each
    have taken : (exprs.map sql).filterMap expr? = exprs := by
      rw [List.filterMap_map]
      exact List.filterMap_some
    rw [List.flatMap_map]
    cases op <;> simp only [join, all, any, taken]
    · exact Expr.all_parts nonempty normal each selects
    · exact Expr.any_parts nonempty normal each selects
  | search =>
    obtain ⟨clauses, rfl⟩ : ∃ clauses : List Clause, members = clauses.map search := ⟨_, (clauses_of_kind own).symm⟩
    rw [ne_eq, List.map_eq_nil_iff] at nonempty
    rw [List.forall_mem_map] at normal each
    have taken : (clauses.map search).filterMap clause? = clauses := by
      rw [List.filterMap_map]
      exact List.filterMap_some
    rw [List.flatMap_map]
    cases op <;> simp only [join, all, any, taken]
    · exact Clause.all_parts nonempty normal each selects
    · exact Clause.any_parts nonempty normal each selects

theorem contents_conjuncts (selects : List String) {p : Predicate} (normal : p.Normal) (undecided : p.Undecided) :
    p.conjuncts.flatMap (contents selects) = p.contents selects := by
  cases p with
  | sql e =>
    rw [conjuncts, List.flatMap_map]
    exact Expr.contents_conjuncts selects normal undecided
  | search c =>
    rw [conjuncts, List.flatMap_map]
    exact Clause.contents_conjuncts selects normal undecided

end Predicate

namespace CompiledQuery

-- What is in the WHERE, at all depths.
def contents (q : CompiledQuery) : List WherePart := q.predicates.flatMap (Predicate.contents [q.rootBinding])

theorem contents_unjoined (q : CompiledQuery) : q.unjoined.contents = q.contents := by cases q <;> rfl

theorem contents_andPredicate {q narrowed : CompiledQuery} {p : Predicate} (normal : p.Normal)
    (undecided : p.Undecided) (accepted : q.andPredicate? p = some narrowed) :
    narrowed.contents = q.contents ++ p.contents [q.rootBinding] := by
  have rooted : narrowed.rootBinding = q.rootBinding := by
    cases q <;> cases p <;> first | cases accepted; done | cases Option.some.inj accepted; rfl
  rw [contents, predicates_andPredicate accepted, List.flatMap_append, rooted,
    Predicate.contents_conjuncts _ normal undecided, contents]

-- The subquery itself and, where rows are related by their keys, the test that relates them.
def subqueryParts (kind : QueryKind) (selects : List String) (parent binding : String) (link : Link) : List WherePart :=
  .subquery (binding :: selects) ::
    match kind with
    | .sql => [.test (binding :: selects) (.sql (correlation parent binding link))]
    | .search => []

theorem closeSelect_contents (selects : List String) {s : Select} {e : Expr} (bare : s.conditions = [])
    (normal : e.Normal) (undecided : e.Undecided) (parent : String) (link : Link) (mode : ToManyMode) :
    (closeSelect s parent s.binding link mode e).contents selects =
      subqueryParts .sql selects parent s.binding link ++ e.contents (s.binding :: selects) := by
  have closed : ∀ (inner : Expr) (negated : Bool), inner.Normal → inner.Undecided →
      (Expr.existsIn ((s.andWhere (correlation parent s.binding link)).andWhere inner) negated).contents selects =
        subqueryParts .sql selects parent s.binding link ++ inner.contents (s.binding :: selects) := by
    intro inner negated normal undecided
    have conditions : ((s.andWhere (correlation parent s.binding link)).andWhere inner).conditions =
        correlation parent s.binding link :: inner.conjuncts := by
      simp only [Select.andWhere, bare]
      rfl
    rw [Expr.contents, Expr.selectContents_eq, conditions, List.flatMap_cons]
    rw [show ((s.andWhere (correlation parent s.binding link)).andWhere inner).binding = s.binding from rfl,
      Expr.contents_conjuncts _ normal undecided]
    rfl
  cases mode with
  | anyMatch => exact closed e false normal undecided
  | allMatch =>
    rw [← e.contents_violation]
    exact closed e.violation true (Expr.normal_violation normal) (Expr.violation_undecided undecided)

theorem closeNested_contents (selects : List String) (binding : String) (mode : ToManyMode) (c : Clause) :
    (closeNested binding mode c).contents selects = .subquery (binding :: selects) :: c.contents (binding :: selects) := by
  cases mode with
  | anyMatch => rw [closeNested, Clause.contents]
  | allMatch => rw [closeNested, Clause.contents_negate, Clause.contents, Clause.contents_negate]

-- Below is what was opened, whatever it joins.
theorem closeScope_contents (selects : List String) {q below : CompiledQuery} {related : Queryable} {p closed : Predicate}
    (opened : below.unjoined = (q.openScope related binding).unjoined) (normal : p.Normal) (undecided : p.Undecided)
    (accepted : below.closeScope? parent binding link p mode = some closed) :
    closed.Undecided ∧
      closed.contents selects = subqueryParts q.kind selects parent binding link ++ p.contents (binding :: selects) := by
  cases below <;> cases p <;> cases accepted
  · rename_i d s e
    cases q with
    | search request => cases opened
    | sql d' outer =>
      have same := (sql.inj opened).2
      have bare : s.conditions = [] := congrArg Select.conditions same
      have bound : s.binding = binding := congrArg Select.binding same
      subst bound
      refine ⟨?_, ?_⟩
      · cases mode <;> exact fun _ => rfl
      · exact closeSelect_contents selects bare normal undecided parent link mode
  · rename_i request c
    cases q with
    | sql d s => cases opened
    | search outer =>
      refine ⟨?_, ?_⟩
      · cases mode <;> exact fun _ => rfl
      · exact closeNested_contents selects binding mode c

end CompiledQuery
end FilterQuery
