import FilterQuery.Proofs.PredicateTruth

namespace FilterQuery

def total (size : α → Nat) : List α → Nat
  | [] => 0
  | m :: rest => size m + total size rest

theorem total_append (size : α → Nat) (left right : List α) :
    total size (left ++ right) = total size left + total size right := by
  induction left with
  | nil => simp [total]
  | cons m rest ih => simp only [List.cons_append, total, ih, Nat.add_assoc]

theorem total_map (size : β → Nat) (f : α → β) (members : List α) :
    total size (members.map f) = total (fun m => size (f m)) members := by
  induction members with
  | nil => rfl
  | cons m rest ih => rw [List.map_cons, total, total, ih]

theorem total_of_parts (size : α → Nat) (parts : α → List α) (kept : ∀ m, total size (parts m) = size m)
    (members : List α) : total size (members.flatMap parts) = total size members := by
  induction members with
  | nil => rfl
  | cons m rest ih => rw [List.flatMap_cons, total_append, ih, kept m, total]

namespace Expr

mutual
def atoms : Expr → Nat
  | and members => listAtoms members
  | or members => listAtoms members
  | not e => e.atoms
  | constant _ => 0
  | _ => 1

def listAtoms : List Expr → Nat
  | [] => 0
  | e :: rest => e.atoms + listAtoms rest
end

theorem listAtoms_eq_total (members : List Expr) : listAtoms members = total atoms members := by
  induction members with
  | nil => rfl
  | cons e rest ih => rw [listAtoms, ih, total]

-- A size that stands in the tests: connectives add it up, and negation leaves it alone.
structure Additive (size : Expr → Nat) : Prop where
  and : ∀ members, size (.and members) = total size members
  or : ∀ members, size (.or members) = total size members
  not : ∀ e, size (.not e) = size e
  constant : ∀ b, size (.constant b) = 0
  binary : ∀ left op other right, size (.binary left other right) = size (.binary left op right)
  inList : ∀ e list negated, size (.inList e list (!negated)) = size (.inList e list negated)
  isNull : ∀ e negated, size (.isNull e (!negated)) = size (.isNull e negated)
  existsIn : ∀ query negated, size (.existsIn query (!negated)) = size (.existsIn query negated)

theorem not_any_constant {members : List Expr} (absent : constant b ∉ members) : members.any (isConstant b) = false := by
  rw [List.any_eq_false]
  intro m member constant
  rw [eq_constant constant] at member
  exact absent member

theorem any_constant {members : List Expr} (member : constant b ∈ members) : members.any (isConstant b) = true :=
  List.any_eq_true.mpr ⟨_, member, by simp [isConstant]⟩

namespace Additive

variable {size : Expr → Nat} (additive : Additive size)

include additive

theorem andParts (e : Expr) : total size e.andParts = size e := by
  unfold Expr.andParts
  split
  · exact (additive.constant true).symm
  · exact (additive.and _).symm
  · rfl

theorem orParts (e : Expr) : total size e.orParts = size e := by
  unfold Expr.orParts
  split
  · exact (additive.constant false).symm
  · exact (additive.or _).symm
  · rfl

theorem conjunction (parts : List Expr) : size (Expr.conjunction parts) = total size parts := by
  unfold Expr.conjunction
  split
  · exact additive.constant true
  · rfl
  · exact additive.and _

theorem disjunction (parts : List Expr) : size (Expr.disjunction parts) = total size parts := by
  unfold Expr.disjunction
  split
  · exact additive.constant false
  · rfl
  · exact additive.or _

theorem all {members : List Expr} (undecided : Expr.constant false ∉ members) :
    size (Expr.all members) = total size members := by
  rw [Expr.all, not_any_constant undecided, if_neg Bool.false_ne_true, additive.conjunction,
    total_of_parts _ _ additive.andParts]

theorem any {members : List Expr} (undecided : Expr.constant true ∉ members) :
    size (Expr.any members) = total size members := by
  cases members with
  | nil => exact additive.constant true
  | cons e rest =>
    rw [Expr.any, not_any_constant undecided, List.isEmpty_cons, Bool.or_self, if_neg Bool.false_ne_true,
      additive.disjunction, total_of_parts _ _ additive.orParts]

theorem negate (e : Expr) : size e.negate = size e := by
  cases e with
  | not e => exact (additive.not e).symm
  | constant b => rw [Expr.negate, additive.constant, additive.constant]
  | isNull e negated => exact additive.isNull e negated
  | inList e list negated => exact additive.inList e list negated
  | existsIn query negated => exact additive.existsIn query negated
  | binary left op right =>
    rw [Expr.negate]
    split
    · exact additive.binary left op _ right
    · exact additive.not _
  | _ => exact additive.not _

end Additive

mutual
theorem Additive.conjuncts {size : Expr → Nat} (additive : Additive size) (e : Expr) :
    total size e.conjuncts = size e := by
  unfold Expr.conjuncts
  split
  · exact (additive.constant true).symm
  · rw [additive.and, Additive.listConjuncts additive]
  · rfl

theorem Additive.listConjuncts {size : Expr → Nat} (additive : Additive size) (members : List Expr) :
    total size (Expr.listConjuncts members) = total size members := by
  cases members with
  | nil => rfl
  | cons e rest =>
    rw [Expr.listConjuncts, total_append, Additive.conjuncts additive, Additive.listConjuncts additive, total]
end

theorem additive_atoms : Additive atoms where
  and members := by rw [atoms, listAtoms_eq_total]
  or members := by rw [atoms, listAtoms_eq_total]
  not e := by rw [atoms]
  constant b := by rw [atoms]
  binary left op other right := by simp only [atoms]
  inList e list negated := by simp only [atoms]
  isNull e negated := by simp only [atoms]
  existsIn query negated := by simp only [atoms]

end Expr

namespace Clause

mutual
def atoms : Clause → Nat
  | and members => listAtoms members
  | or members => listAtoms members
  | not c => c.atoms
  | constant _ => 0
  | _ => 1

def listAtoms : List Clause → Nat
  | [] => 0
  | c :: rest => c.atoms + listAtoms rest
end

theorem listAtoms_eq_total (members : List Clause) : listAtoms members = total atoms members := by
  induction members with
  | nil => rfl
  | cons c rest ih => rw [listAtoms, ih, total]

theorem atoms_andParts (c : Clause) : total atoms c.andParts = c.atoms := by
  unfold andParts
  split
  · rfl
  · rw [atoms, listAtoms_eq_total]
  · rfl

theorem atoms_orParts (c : Clause) : total atoms c.orParts = c.atoms := by
  unfold orParts
  split
  · rfl
  · rw [atoms, listAtoms_eq_total]
  · rfl

theorem atoms_conjunction (parts : List Clause) : (conjunction parts).atoms = total atoms parts := by
  unfold conjunction
  split
  · rfl
  · rfl
  · rw [atoms, listAtoms_eq_total]

theorem atoms_disjunction (parts : List Clause) : (disjunction parts).atoms = total atoms parts := by
  unfold disjunction
  split
  · rfl
  · rfl
  · rw [atoms, listAtoms_eq_total]

theorem not_any_constant {members : List Clause} (absent : constant b ∉ members) : members.any (isConstant b) = false := by
  rw [List.any_eq_false]
  intro m member constant
  rw [eq_constant constant] at member
  exact absent member

theorem atoms_all {members : List Clause} (undecided : constant false ∉ members) :
    (all members).atoms = total atoms members := by
  rw [all, not_any_constant undecided, if_neg Bool.false_ne_true, atoms_conjunction, total_of_parts _ _ atoms_andParts]

theorem atoms_any {members : List Clause} (undecided : constant true ∉ members) :
    (any members).atoms = total atoms members := by
  cases members with
  | nil => rfl
  | cons c rest =>
    rw [any, not_any_constant undecided, List.isEmpty_cons, Bool.or_self, if_neg Bool.false_ne_true, atoms_disjunction,
      total_of_parts _ _ atoms_orParts]

theorem atoms_negate (c : Clause) : c.negate.atoms = c.atoms := by
  cases c <;> simp only [negate, atoms]

mutual
theorem atoms_conjuncts (c : Clause) : total atoms c.conjuncts = c.atoms := by
  unfold conjuncts
  split
  · rfl
  · rw [atoms, listAtoms_eq_total, atoms_listConjuncts]
  · rfl

theorem atoms_listConjuncts (members : List Clause) :
    total atoms (listConjuncts members) = total atoms members := by
  cases members with
  | nil => rfl
  | cons c rest =>
    rw [listConjuncts, total_append, atoms_conjuncts, atoms_listConjuncts, total]
end

end Clause

namespace Predicate

def atoms : Predicate → Nat
  | sql e => e.atoms
  | search c => c.atoms

theorem atoms_negate (p : Predicate) : p.negate.atoms = p.atoms := by
  cases p with
  | sql e => exact Expr.additive_atoms.negate e
  | search c => exact c.atoms_negate

theorem atoms_join (op : Connective) {members : List Predicate} (own : ∀ p ∈ members, p.kind = k)
    (undecided : constant k (!op.neutral) ∉ members) : (join k op members).atoms = total atoms members := by
  cases k with
  | sql =>
    have all := exprs_of_kind own
    have absent : Expr.constant (!op.neutral) ∉ members.filterMap expr? := by
      intro member
      refine undecided ?_
      rw [← all]
      exact List.mem_map_of_mem member
    have moved : total Expr.atoms (members.filterMap expr?) = total atoms members := by
      calc total Expr.atoms (members.filterMap expr?)
          = total atoms ((members.filterMap expr?).map sql) := (total_map atoms sql _).symm
        _ = total atoms members := by rw [all]
    cases op
    · exact (Expr.additive_atoms.all absent).trans moved
    · exact (Expr.additive_atoms.any absent).trans moved
  | search =>
    have all := clauses_of_kind own
    have absent : Clause.constant (!op.neutral) ∉ members.filterMap clause? := by
      intro member
      refine undecided ?_
      rw [← all]
      exact List.mem_map_of_mem member
    have moved : total Clause.atoms (members.filterMap clause?) = total atoms members := by
      calc total Clause.atoms (members.filterMap clause?)
          = total atoms ((members.filterMap clause?).map search) := (total_map atoms search _).symm
        _ = total atoms members := by rw [all]
    cases op
    · exact (Clause.atoms_all absent).trans moved
    · exact (Clause.atoms_any absent).trans moved

-- What the predicate adds to a query.
def conjuncts : Predicate → List Predicate
  | sql e => e.conjuncts.map sql
  | search c => c.conjuncts.map search

theorem atoms_conjuncts (p : Predicate) : total atoms p.conjuncts = p.atoms := by
  cases p with
  | sql e => exact (total_map atoms sql _).trans (Expr.additive_atoms.conjuncts e)
  | search c => exact (total_map atoms search _).trans c.atoms_conjuncts

end Predicate

namespace CompiledQuery

-- The conditions of the query.
def predicates : CompiledQuery → List Predicate
  | sql _ s => s.conditions.map .sql
  | search r => r.filters.map .search

theorem predicates_andPredicate {q narrowed : CompiledQuery} {p : Predicate}
    (accepted : q.andPredicate? p = some narrowed) : narrowed.predicates = q.predicates ++ p.conjuncts := by
  cases q <;> cases p <;> cases accepted
  · exact List.map_append ..
  · exact List.map_append ..

end CompiledQuery
end FilterQuery
