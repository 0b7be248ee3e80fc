import FilterQuery.Proofs.NormalForm
import FilterQuery.Proofs.PredicateTruth

namespace FilterQuery

theorem flatMap_live {parts : α → List α} {skip : α → Bool} (skipped : ∀ m, skip m = true → parts m = [])
    (members : List α) : (members.filter (!skip ·)).flatMap parts = members.flatMap parts := by
  induction members with
  | nil => rfl
  | cons m rest ih =>
    rw [List.filter_cons]
    cases passed : skip m with
    | true => simpa [skipped m passed] using ih
    | false => simpa using ih

theorem any_live {test skip : α → Bool} (apart : ∀ m, test m = true → skip m = false) (members : List α) :
    (members.filter (!skip ·)).any test = members.any test := by
  induction members with
  | nil => rfl
  | cons m rest ih =>
    rw [List.filter_cons]
    cases passed : skip m with
    | true =>
      have out : test m = false := by
        cases hit : test m with
        | false => rfl
        | true =>
          rw [apart m hit] at passed
          cases passed
      simpa [out] using ih
    | false => simp [ih]

namespace Expr

theorem isConstant_apart (e : Expr) (b : Bool) (constant : e.isConstant b = true) : e.isConstant (!b) = false := by
  cases e with
  | constant c => cases b <;> cases c <;> first | rfl | cases constant
  | _ => cases constant

theorem all_congr {left right : List Expr} (same : left.filter (!isConstant true ·) = right.filter (!isConstant true ·)) :
    all left = all right := by
  have parts : ∀ e : Expr, e.isConstant true = true → e.andParts = [] := by
    intro e constant
    cases e with
    | constant b => cases b <;> first | rfl | cases constant
    | _ => cases constant
  have apart : ∀ e : Expr, e.isConstant false = true → e.isConstant true = false := fun e => e.isConstant_apart false
  unfold all
  rw [← any_live apart left, ← flatMap_live parts left, same, any_live apart, flatMap_live parts]

theorem any_congr {left right : List Expr} (nonempty : left ≠ []) (nonempty' : right ≠ [])
    (same : left.filter (!isConstant false ·) = right.filter (!isConstant false ·)) : any left = any right := by
  have parts : ∀ e : Expr, e.isConstant false = true → e.orParts = [] := by
    intro e constant
    cases e with
    | constant b => cases b <;> first | rfl | cases constant
    | _ => cases constant
  have apart : ∀ e : Expr, e.isConstant true = true → e.isConstant false = false := fun e => e.isConstant_apart true
  unfold any
  rw [List.isEmpty_eq_false_iff.mpr nonempty, List.isEmpty_eq_false_iff.mpr nonempty', Bool.false_or, Bool.false_or,
    ← any_live apart left, ← flatMap_live parts left, same, any_live apart, flatMap_live parts]

theorem all_decided {members : List Expr} (decided : constant false ∈ members) : all members = constant false := by
  have hit : members.any (isConstant false) = true := List.any_eq_true.mpr ⟨_, decided, rfl⟩
  rw [all, if_pos hit]

theorem any_decided {members : List Expr} (decided : constant true ∈ members) : any members = constant true := by
  have hit : members.any (isConstant true) = true := List.any_eq_true.mpr ⟨_, decided, rfl⟩
  rw [any, hit, Bool.or_true, if_pos rfl]

end Expr

namespace Clause

theorem isConstant_apart (c : Clause) (b : Bool) (constant : c.isConstant b = true) : c.isConstant (!b) = false := by
  cases c with
  | constant d => cases b <;> cases d <;> first | rfl | cases constant
  | _ => cases constant

theorem all_congr {left right : List Clause} (same : left.filter (!isConstant true ·) = right.filter (!isConstant true ·)) :
    all left = all right := by
  have parts : ∀ c : Clause, c.isConstant true = true → c.andParts = [] := by
    intro c constant
    cases c with
    | constant b => cases b <;> first | rfl | cases constant
    | _ => cases constant
  have apart : ∀ c : Clause, c.isConstant false = true → c.isConstant true = false := fun c => c.isConstant_apart false
  unfold all
  rw [← any_live apart left, ← flatMap_live parts left, same, any_live apart, flatMap_live parts]

theorem any_congr {left right : List Clause} (nonempty : left ≠ []) (nonempty' : right ≠ [])
    (same : left.filter (!isConstant false ·) = right.filter (!isConstant false ·)) : any left = any right := by
  have parts : ∀ c : Clause, c.isConstant false = true → c.orParts = [] := by
    intro c constant
    cases c with
    | constant b => cases b <;> first | rfl | cases constant
    | _ => cases constant
  have apart : ∀ c : Clause, c.isConstant true = true → c.isConstant false = false := fun c => c.isConstant_apart true
  unfold any
  rw [List.isEmpty_eq_false_iff.mpr nonempty, List.isEmpty_eq_false_iff.mpr nonempty', Bool.false_or, Bool.false_or,
    ← any_live apart left, ← flatMap_live parts left, same, any_live apart, flatMap_live parts]

theorem all_decided {members : List Clause} (decided : constant false ∈ members) : all members = constant false := by
  have hit : members.any (isConstant false) = true := List.any_eq_true.mpr ⟨_, decided, rfl⟩
  rw [all, if_pos hit]

theorem any_decided {members : List Clause} (decided : constant true ∈ members) : any members = constant true := by
  have hit : members.any (isConstant true) = true := List.any_eq_true.mpr ⟨_, decided, rfl⟩
  rw [any, hit, Bool.or_true, if_pos rfl]

end Clause
namespace Predicate

theorem join_congr (op : Connective) {left right : List Predicate} (own : ∀ p ∈ left, p.kind = k)
    (own' : ∀ p ∈ right, p.kind = k) (nonempty : left ≠ []) (nonempty' : right ≠ [])
    (same : left.filter (!isConstant op.neutral ·) = right.filter (!isConstant op.neutral ·)) :
    join k op left = join k op right := by
  cases k with
  | sql =>
    rw [← exprs_of_kind own, ← exprs_of_kind own', List.filter_map, List.filter_map] at same
    rw [← exprs_of_kind own] at nonempty
    rw [← exprs_of_kind own'] at nonempty'
    have exprs := (List.map_inj_right (fun _ _ => Predicate.sql.inj)).mp same
    cases op with
    | and => exact congrArg sql (Expr.all_congr exprs)
    | or => exact congrArg sql (Expr.any_congr (by simpa using nonempty) (by simpa using nonempty') exprs)
  | search =>
    rw [← clauses_of_kind own, ← clauses_of_kind own', List.filter_map, List.filter_map] at same
    rw [← clauses_of_kind own] at nonempty
    rw [← clauses_of_kind own'] at nonempty'
    have clauses := (List.map_inj_right (fun _ _ => Predicate.search.inj)).mp same
    cases op with
    | and => exact congrArg search (Clause.all_congr clauses)
    | or => exact congrArg search (Clause.any_congr (by simpa using nonempty) (by simpa using nonempty') clauses)

theorem isConstant_exact {p : Predicate} : p.isConstant b = true ↔ p = constant p.kind b := by
  cases p with
  | sql e => cases e <;> simp [isConstant, Expr.isConstant, constant, kind]
  | search c => cases c <;> simp [isConstant, Clause.isConstant, constant, kind]

@[simp] theorem kind_constant (k : QueryKind) (b : Bool) : (constant k b).kind = k := by cases k <;> rfl

theorem steady_constant (k : QueryKind) (b : Bool) : (constant k b).Steady := by cases k <;> trivial

@[simp] theorem negate_constant (k : QueryKind) (b : Bool) : (constant k b).negate = constant k (!b) := by
  cases k <;> rfl

theorem join_nil (k : QueryKind) (op : Connective) : join k op [] = constant k true := by
  cases k <;> cases op <;> rfl

theorem join_decided (op : Connective) {members : List Predicate} (decided : constant k (!op.neutral) ∈ members) :
    join k op members = constant k (!op.neutral) := by
  cases k with
  | sql =>
    have member : Expr.constant (!op.neutral) ∈ members.filterMap expr? := List.mem_filterMap.mpr ⟨_, decided, rfl⟩
    cases op with
    | and => exact congrArg sql (Expr.all_decided member)
    | or => exact congrArg sql (Expr.any_decided member)
  | search =>
    have member : Clause.constant (!op.neutral) ∈ members.filterMap clause? :=
      List.mem_filterMap.mpr ⟨_, decided, rfl⟩
    cases op with
    | and => exact congrArg search (Clause.all_decided member)
    | or => exact congrArg search (Clause.any_decided member)

-- A connective whose other members are passed over is its one member.
theorem join_lone (op : Connective) {members : List Predicate} (own : ∀ p ∈ members, p.kind = k)
    (lone : members.filter (!isConstant op.neutral ·) = [p]) (steady : p.Steady) : join k op members = p := by
  have among : p ∈ members.filter (!isConstant op.neutral ·) := by simp [lone]
  obtain ⟨member, live⟩ := List.mem_filter.mp among
  have kind := own p member
  subst kind
  have same : members.filter (!isConstant op.neutral ·) = [p].filter (!isConstant op.neutral ·) := by
    rw [lone, List.filter_cons, if_pos live, List.filter_nil]
  rw [join_congr op own (by simp) (List.ne_nil_of_mem member) (by simp) same, join_singleton op steady]

theorem join_neutral (op : Connective) {members : List Predicate} (nonempty : members ≠ [])
    (passed : ∀ p ∈ members, p = constant k op.neutral) : join k op members = constant k op.neutral := by
  have own : ∀ p ∈ members, p.kind = k := by
    intro p member
    rw [passed p member, kind_constant]
  have flat : ∀ p ∈ members, isConstant op.neutral p = true := by
    intro p member
    rw [isConstant_exact, own p member]
    exact passed p member
  have here : isConstant op.neutral (constant k op.neutral) = true := by
    rw [isConstant_exact, kind_constant]
  have same : members.filter (!isConstant op.neutral ·) = [constant k op.neutral].filter (!isConstant op.neutral ·) := by
    rw [List.filter_eq_nil_iff.mpr (by simpa using flat), List.filter_eq_nil_iff.mpr (by simpa using here)]
  have single := join_singleton op (steady_constant k op.neutral)
  rw [kind_constant] at single
  rw [join_congr op own (by simp) nonempty (by simp) same, single]

end Predicate
end FilterQuery
