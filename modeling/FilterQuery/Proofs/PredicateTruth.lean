import FilterQuery.Proofs.Truth
import FilterQuery.Query.Compiled

namespace FilterQuery

-- Tests are opaque, but a test written in its negated form is the negation of the plain one.
structure Valuation where
  test : Expr → Truth
  complement : ∀ {op other : BinOp}, op.complement? = some other → ∀ left right,
    test (.binary left other right) = (test (.binary left op right)).not
  inList : ∀ e list negated, test (.inList e list (!negated)) = (test (.inList e list negated)).not
  isNull : ∀ e negated, test (.isNull e (!negated)) = (test (.isNull e negated)).not
  existsIn : ∀ query negated, test (.existsIn query (!negated)) = (test (.existsIn query negated)).not
  -- A document matches a query of the search engine or it does not.
  query : Clause → Bool

namespace BinOp

-- The operators that negation rewrites a plain one to.
def isNegated : BinOp → Bool
  | ne | notLike | notIlike => true
  | _ => false

end BinOp

namespace Expr

-- A test as it is before any negation.
def isPlain : Expr → Bool
  | binary _ op _ => !op.isNegated
  | inList _ _ negated => !negated
  | isNull _ negated => !negated
  | existsIn _ negated => !negated
  | _ => true

-- What a test comes to when plain tests come to what is given.
def extended (plain : Expr → Truth) : Expr → Truth
  | binary left .ne right => (plain (binary left .eq right)).not
  | binary left .notLike right => (plain (binary left .like right)).not
  | binary left .notIlike right => (plain (binary left .ilike right)).not
  | inList e list true => (plain (inList e list false)).not
  | isNull e true => (plain (isNull e false)).not
  | existsIn query true => (plain (existsIn query false)).not
  | e => plain e

theorem extended_plain (plain : Expr → Truth) {e : Expr} (own : e.isPlain = true) : extended plain e = plain e := by
  unfold extended
  split <;> first | rfl | cases own

end Expr

-- Every assignment to the plain tests is that of a valuation.
def Valuation.ofPlain (plain : Expr → Truth) (query : Clause → Bool) : Valuation where
  test := Expr.extended plain
  complement := by
    intro op other found left right
    cases op <;> cases found <;> simp [Expr.extended]
  inList := by
    intro e list negated
    cases negated <;> simp [Expr.extended]
  isNull := by
    intro e negated
    cases negated <;> simp [Expr.extended]
  existsIn := by
    intro body negated
    cases negated <;> simp [Expr.extended]
  query

namespace Connective

theorem fold_flatMap (op : Connective) (truth : α → Truth) (parts : α → List α)
    (kept : ∀ x, op.fold ((parts x).map truth) = truth x) (members : List α) :
    op.fold ((members.flatMap parts).map truth) = op.fold (members.map truth) := by
  induction members with
  | nil => rfl
  | cons x rest ih =>
    rw [List.flatMap_cons, List.map_append, fold_append, ih, kept x, List.map_cons, fold_cons]

end Connective

namespace Expr

mutual
def truth (v : Valuation) : Expr → Truth
  | and members => Connective.and.fold (truths v members)
  | or members => Connective.or.fold (truths v members)
  | not e => (e.truth v).not
  | notTrue e => (e.truth v).notTrue
  | constant b => .ofBool b
  | e => v.test e

def truths (v : Valuation) : List Expr → List Truth
  | [] => []
  | e :: rest => e.truth v :: truths v rest
end

theorem truths_eq_map (v : Valuation) (members : List Expr) : truths v members = members.map (truth v) := by
  induction members with
  | nil => rfl
  | cons e rest ih => rw [truths, ih, List.map_cons]

theorem truth_andParts (v : Valuation) (e : Expr) : Connective.and.fold (e.andParts.map (truth v)) = e.truth v := by
  unfold andParts
  split
  · rfl
  · rw [truth, truths_eq_map]
  · simp [Connective.apply, Connective.unit]

theorem truth_orParts (v : Valuation) (e : Expr) : Connective.or.fold (e.orParts.map (truth v)) = e.truth v := by
  unfold orParts
  split
  · rfl
  · rw [truth, truths_eq_map]
  · simp [Connective.apply, Connective.unit]

theorem truth_conjunction (v : Valuation) (members : List Expr) :
    (conjunction members).truth v = Connective.and.fold (members.map (truth v)) := by
  unfold conjunction
  split
  · rfl
  · simp [Connective.apply, Connective.unit]
  · rw [truth, truths_eq_map]

theorem truth_disjunction (v : Valuation) (members : List Expr) :
    (disjunction members).truth v = Connective.or.fold (members.map (truth v)) := by
  unfold disjunction
  split
  · rfl
  · simp [Connective.apply, Connective.unit]
  · rw [truth, truths_eq_map]

theorem eq_constant {e : Expr} (constant : e.isConstant b = true) : e = .constant b := by
  cases e <;> simp_all [isConstant]

theorem mem_truths_of_constant (v : Valuation) {members : List Expr} (found : members.any (isConstant b) = true) :
    Truth.ofBool b ∈ members.map (truth v) := by
  obtain ⟨e, member, constant⟩ := List.any_eq_true.mp found
  rw [eq_constant constant] at member
  exact List.mem_map.mpr ⟨_, member, by rw [truth]⟩

theorem truth_all (v : Valuation) (members : List Expr) :
    (all members).truth v = Connective.and.value (members.map (truth v)) := by
  rw [Connective.value_and]
  unfold all
  split
  · rename_i found
    rw [Connective.fold_absorbing .and (mem_truths_of_constant v found)]
    rfl
  · rw [truth_conjunction, Connective.fold_flatMap .and _ _ (truth_andParts v)]

theorem truth_any (v : Valuation) (members : List Expr) :
    (any members).truth v = Connective.or.value (members.map (truth v)) := by
  unfold any
  cases members with
  | nil => rfl
  | cons e rest =>
    rw [Connective.value_of_ne_nil .or (by simp)]
    split
    · rename_i found
      have decided : (e :: rest).any (isConstant true) = true := by simpa using found
      rw [Connective.fold_absorbing .or (mem_truths_of_constant v decided)]
      rfl
    · rw [truth_disjunction, Connective.fold_flatMap .or _ _ (truth_orParts v)]

theorem truth_negate (v : Valuation) (e : Expr) : e.negate.truth v = (e.truth v).not := by
  cases e with
  | not e => simp [negate, truth]
  | constant b => simp [negate, truth]
  | isNull e negated => simp only [negate, truth, v.isNull]
  | inList e list negated => simp only [negate, truth, v.inList]
  | existsIn query negated => simp only [negate, truth, v.existsIn]
  | binary left op right =>
    simp only [negate]
    split
    · rename_i complement found
      simp only [truth, v.complement found]
    · simp only [truth]
  | _ => simp only [negate, truth]

mutual
theorem truth_conjuncts (v : Valuation) (e : Expr) :
    Connective.and.fold (e.conjuncts.map (truth v)) = e.truth v := by
  unfold conjuncts
  split
  · rfl
  · rw [truth, truth_listConjuncts, truths_eq_map]
  · simp [Connective.apply, Connective.unit]

theorem truth_listConjuncts (v : Valuation) (members : List Expr) :
    Connective.and.fold ((listConjuncts members).map (truth v)) = Connective.and.fold (members.map (truth v)) := by
  cases members with
  | nil => rfl
  | cons e rest =>
    rw [listConjuncts, List.map_append, Connective.fold_append, truth_conjuncts, truth_listConjuncts,
      List.map_cons, Connective.fold_cons]
end

end Expr

namespace Clause

mutual
-- Two-valued: every test is definite, and the connectives keep that.
def truth (v : Valuation) : Clause → Truth
  | and members => Connective.and.fold (truths v members)
  | or members => Connective.or.fold (truths v members)
  | not c => (c.truth v).not
  | constant b => .ofBool b
  | query body => .ofBool (v.query (query body))
  | nested path c => .ofBool (v.query (nested path c))

def truths (v : Valuation) : List Clause → List Truth
  | [] => []
  | c :: rest => c.truth v :: truths v rest
end

theorem truths_eq_map (v : Valuation) (members : List Clause) : truths v members = members.map (truth v) := by
  induction members with
  | nil => rfl
  | cons c rest ih => rw [truths, ih, List.map_cons]

theorem truth_andParts (v : Valuation) (c : Clause) :
    Connective.and.fold (c.andParts.map (truth v)) = c.truth v := by
  unfold andParts
  split
  · rfl
  · rw [truth, truths_eq_map]
  · simp [Connective.apply, Connective.unit]

theorem truth_orParts (v : Valuation) (c : Clause) : Connective.or.fold (c.orParts.map (truth v)) = c.truth v := by
  unfold orParts
  split
  · rfl
  · rw [truth, truths_eq_map]
  · simp [Connective.apply, Connective.unit]

theorem truth_conjunction (v : Valuation) (members : List Clause) :
    (conjunction members).truth v = Connective.and.fold (members.map (truth v)) := by
  unfold conjunction
  split
  · rfl
  · simp [Connective.apply, Connective.unit]
  · rw [truth, truths_eq_map]

theorem truth_disjunction (v : Valuation) (members : List Clause) :
    (disjunction members).truth v = Connective.or.fold (members.map (truth v)) := by
  unfold disjunction
  split
  · rfl
  · simp [Connective.apply, Connective.unit]
  · rw [truth, truths_eq_map]

theorem eq_constant {c : Clause} (constant : c.isConstant b = true) : c = .constant b := by
  cases c <;> simp_all [isConstant]

theorem mem_truths_of_constant (v : Valuation) {members : List Clause}
    (found : members.any (isConstant b) = true) : Truth.ofBool b ∈ members.map (truth v) := by
  obtain ⟨c, member, constant⟩ := List.any_eq_true.mp found
  rw [eq_constant constant] at member
  exact List.mem_map.mpr ⟨_, member, by rw [truth]⟩

theorem truth_all (v : Valuation) (members : List Clause) :
    (all members).truth v = Connective.and.value (members.map (truth v)) := by
  rw [Connective.value_and]
  unfold all
  split
  · rename_i found
    rw [Connective.fold_absorbing .and (mem_truths_of_constant v found)]
    rfl
  · rw [truth_conjunction, Connective.fold_flatMap .and _ _ (truth_andParts v)]

theorem truth_any (v : Valuation) (members : List Clause) :
    (any members).truth v = Connective.or.value (members.map (truth v)) := by
  unfold any
  cases members with
  | nil => rfl
  | cons c rest =>
    rw [Connective.value_of_ne_nil .or (by simp)]
    split
    · rename_i found
      have decided : (c :: rest).any (isConstant true) = true := by simpa using found
      rw [Connective.fold_absorbing .or (mem_truths_of_constant v decided)]
      rfl
    · rw [truth_disjunction, Connective.fold_flatMap .or _ _ (truth_orParts v)]

theorem truth_negate (v : Valuation) (c : Clause) : c.negate.truth v = (c.truth v).not := by
  cases c with
  | not c => simp [negate, truth]
  | constant b => simp [negate, truth]
  | _ => simp only [negate, truth]

mutual
theorem truth_conjuncts (v : Valuation) (c : Clause) :
    Connective.and.fold (c.conjuncts.map (truth v)) = c.truth v := by
  unfold conjuncts
  split
  · rfl
  · rw [truth, truth_listConjuncts, truths_eq_map]
  · simp [Connective.apply, Connective.unit]

theorem truth_listConjuncts (v : Valuation) (members : List Clause) :
    Connective.and.fold ((listConjuncts members).map (truth v)) = Connective.and.fold (members.map (truth v)) := by
  cases members with
  | nil => rfl
  | cons c rest =>
    rw [listConjuncts, List.map_append, Connective.fold_append, truth_conjuncts, truth_listConjuncts,
      List.map_cons, Connective.fold_cons]
end

mutual
theorem truth_definite (v : Valuation) (c : Clause) : ∃ b, c.truth v = .ofBool b := by
  cases c with
  | constant b => exact ⟨b, by rw [truth]⟩
  | query body => exact ⟨_, by rw [truth]⟩
  | nested path inner => exact ⟨_, by rw [truth]⟩
  | not inner =>
    obtain ⟨b, same⟩ := truth_definite v inner
    exact ⟨!b, by rw [truth, same, Truth.not_ofBool]⟩
  | and members =>
    rw [truth]
    exact fold_definite v .and members
  | or members =>
    rw [truth]
    exact fold_definite v .or members

theorem fold_definite (v : Valuation) (op : Connective) (members : List Clause) :
    ∃ b, op.fold (truths v members) = .ofBool b := by
  cases members with
  | nil =>
    cases op
    · exact ⟨true, rfl⟩
    · exact ⟨false, rfl⟩
  | cons c rest =>
    obtain ⟨first, here⟩ := truth_definite v c
    obtain ⟨others, later⟩ := fold_definite v op rest
    rw [truths, Connective.fold_cons, here, later]
    cases op
    · exact ⟨first && others, by cases first <;> cases others <;> rfl⟩
    · exact ⟨first || others, by cases first <;> cases others <;> rfl⟩
end

end Clause

namespace Predicate

def truth (v : Valuation) : Predicate → Truth
  | sql e => e.truth v
  | search c => c.truth v

theorem truth_negate (v : Valuation) (p : Predicate) : p.negate.truth v = (p.truth v).not := by
  cases p with
  | sql e => exact e.truth_negate v
  | search c => exact c.truth_negate v

theorem exprs_of_kind {members : List Predicate} (own : ∀ p ∈ members, p.kind = .sql) :
    (members.filterMap expr?).map sql = members := by
  induction members with
  | nil => rfl
  | cons p rest ih =>
    have later := ih fun other member => own other (List.mem_cons_of_mem _ member)
    cases p with
    | sql e => simpa [expr?] using later
    | search c => exact absurd (own _ (List.mem_cons_self ..)) (by simp [kind])

theorem clauses_of_kind {members : List Predicate} (own : ∀ p ∈ members, p.kind = .search) :
    (members.filterMap clause?).map search = members := by
  induction members with
  | nil => rfl
  | cons p rest ih =>
    have later := ih fun other member => own other (List.mem_cons_of_mem _ member)
    cases p with
    | sql e => exact absurd (own _ (List.mem_cons_self ..)) (by simp [kind])
    | search c => simpa [clause?] using later

-- Members of another kind would be passed over, so the kinds have to agree.
theorem truth_join (v : Valuation) (op : Connective) {members : List Predicate} (own : ∀ p ∈ members, p.kind = k) :
    (join k op members).truth v = op.value (members.map (truth v)) := by
  cases k with
  | sql =>
    have moved : (members.filterMap expr?).map (Expr.truth v) = members.map (truth v) := by
      calc (members.filterMap expr?).map (Expr.truth v)
          = ((members.filterMap expr?).map sql).map (truth v) := by rw [List.map_map]; rfl
        _ = members.map (truth v) := by rw [exprs_of_kind own]
    rw [← moved]
    cases op
    · exact Expr.truth_all v _
    · exact Expr.truth_any v _
  | search =>
    have moved : (members.filterMap clause?).map (Clause.truth v) = members.map (truth v) := by
      calc (members.filterMap clause?).map (Clause.truth v)
          = ((members.filterMap clause?).map search).map (truth v) := by rw [List.map_map]; rfl
        _ = members.map (truth v) := by rw [clauses_of_kind own]
    rw [← moved]
    cases op
    · exact Clause.truth_all v _
    · exact Clause.truth_any v _

end Predicate

namespace CompiledQuery

-- What the conditions of the query come to together.
def truth (v : Valuation) : CompiledQuery → Truth
  | sql _ s => Connective.and.fold (s.conditions.map (Expr.truth v))
  | search r => Connective.and.fold (r.filters.map (Clause.truth v))

theorem truth_andPredicate (v : Valuation) {q narrowed : CompiledQuery} {p : Predicate}
    (accepted : q.andPredicate? p = some narrowed) : narrowed.truth v = (q.truth v).and (p.truth v) := by
  cases q with
  | sql d s =>
    cases p with
    | sql e =>
      cases Option.some.inj accepted
      simp only [truth, Select.andWhere, List.map_append, Connective.fold_append, Expr.truth_conjuncts]
      rfl
    | search c => cases accepted
  | search r =>
    cases p with
    | sql e => cases accepted
    | search c =>
      cases Option.some.inj accepted
      simp only [truth, SearchRequest.andFilter, List.map_append, Connective.fold_append, Clause.truth_conjuncts]
      rfl

end CompiledQuery
end FilterQuery
