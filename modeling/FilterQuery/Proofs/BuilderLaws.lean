import FilterQuery.Proofs.PredicateTruth

namespace FilterQuery

-- NULL is found or not, and so are rows, whatever a comparison comes to.
structure Assignment extends Valuation where
  isNull_known : ∀ e negated, test (.isNull e negated) ≠ .unknown
  existsIn_known : ∀ query negated, test (.existsIn query negated) ≠ .unknown

-- Plain tests may come to anything else.
def Assignment.ofPlain (plain : Expr → Truth) (query : Clause → Bool)
    (isNull_known : ∀ e, plain (.isNull e false) ≠ .unknown)
    (existsIn_known : ∀ body, plain (.existsIn body false) ≠ .unknown) : Assignment where
  toValuation := .ofPlain plain query
  isNull_known := by
    intro e negated known
    cases negated with
    | false => exact isNull_known e known
    | true =>
      refine isNull_known e ?_
      rw [← Truth.not_not (plain _), show (plain (.isNull e false)).not = .unknown from known]
      rfl
  existsIn_known := by
    intro body negated known
    cases negated with
    | false => exact existsIn_known body known
    | true =>
      refine existsIn_known body ?_
      rw [← Truth.not_not (plain _), show (plain (.existsIn body false)).not = .unknown from known]
      rfl

theorem Truth.not_eq_notTrue {t : Truth} : t.not = t.notTrue ↔ t ≠ .unknown := by
  cases t <;> simp [not, notTrue]

namespace Expr

-- The predicates that a violation negates as they are.
def isTwoValued : Expr → Bool
  | constant _ => true
  | isNull .. => true
  | existsIn .. => true
  | notTrue _ => true
  | _ => false

-- Wrapped in a test for not being true, or negated, which comes to the same unless unknown is negated.
theorem truth_violation (v : Valuation) (e : Expr) :
    e.violation.truth v = (e.truth v).notTrue ↔ (e.isTwoValued = true → e.truth v ≠ .unknown) := by
  have direct : ∀ e : Expr, e.negate.truth v = (e.truth v).notTrue ↔ e.truth v ≠ .unknown := by
    intro e
    rw [truth_negate, Truth.not_eq_notTrue]
  cases e with
  | constant b => simpa only [violation, isTwoValued, true_imp_iff] using direct (.constant b)
  | isNull e negated => simpa only [violation, isTwoValued, true_imp_iff] using direct (.isNull e negated)
  | existsIn query negated => simpa only [violation, isTwoValued, true_imp_iff] using direct (.existsIn query negated)
  | notTrue e => simpa only [violation, isTwoValued, true_imp_iff] using direct (.notTrue e)
  | _ => simp [violation, truth, isTwoValued]

theorem truth_known (a : Assignment) {e : Expr} (two : e.isTwoValued = true) : e.truth a.toValuation ≠ .unknown := by
  cases e with
  | constant b =>
    rw [truth]
    cases b <;> simp [Truth.ofBool]
  | isNull e negated => exact a.isNull_known e negated
  | existsIn query negated => exact a.existsIn_known query negated
  | notTrue e =>
    rw [truth]
    cases e.truth a.toValuation <;> simp [Truth.notTrue]
  | _ => cases two

end Expr

-- What the added conditions come to is what the expression comes to, and those before them stay.
theorem Select.andWhere_adds (v : Valuation) (s : Select) (e : Expr) :
    (∃ added, s.andWhere e = { s with conditions := s.conditions ++ added } ∧
      Connective.and.fold (added.map (Expr.truth v)) = e.truth v) ∧
    (s.andWhere e).whereExpr.truth v = (s.whereExpr.truth v).and (e.truth v) := by
  refine ⟨⟨e.conjuncts, rfl, e.truth_conjuncts v⟩, ?_⟩
  rw [whereExpr, whereExpr, Expr.truth_all, Expr.truth_all, Connective.value_and, Connective.value_and]
  rw [andWhere, List.map_append, Connective.fold_append, e.truth_conjuncts]
  rfl

theorem SearchRequest.andFilter_adds (v : Valuation) (r : SearchRequest) (c : Clause) :
    (∃ added, r.andFilter c = { r with filters := r.filters ++ added } ∧
      Connective.and.fold (added.map (Clause.truth v)) = c.truth v) ∧
    (r.andFilter c).filterClause.truth v = (r.filterClause.truth v).and (c.truth v) := by
  refine ⟨⟨c.conjuncts, rfl, c.truth_conjuncts v⟩, ?_⟩
  rw [filterClause, filterClause, Clause.truth_all, Clause.truth_all, Connective.value_and, Connective.value_and]
  rw [andFilter, List.map_append, Connective.fold_append, c.truth_conjuncts]
  rfl

theorem Connective.value_or (members : List Truth) :
    or.value members = if members.isEmpty then .true else or.fold members := by
  cases members <;> rfl

-- The laws of the builders. Only of a violation it matters that NULL tests and subqueries are never unknown.
theorem builders_exact (v : Valuation) :
    ((∀ es, (Expr.all es).truth v = Connective.and.fold (es.map (Expr.truth v))) ∧
      (∀ es, (Expr.any es).truth v = if es.isEmpty then .true else Connective.or.fold (es.map (Expr.truth v))) ∧
      (∀ e : Expr, e.negate.truth v = (e.truth v).not) ∧
      (∀ e : Expr, e.violation.truth v = (e.truth v).notTrue ↔ (e.isTwoValued = true → e.truth v ≠ .unknown)) ∧
      ∀ (s : Select) (e : Expr),
        (∃ added, s.andWhere e = { s with conditions := s.conditions ++ added } ∧
          Connective.and.fold (added.map (Expr.truth v)) = e.truth v) ∧
        (s.andWhere e).whereExpr.truth v = (s.whereExpr.truth v).and (e.truth v)) ∧
    (∀ (a : Assignment) (e : Expr), e.violation.truth a.toValuation = (e.truth a.toValuation).notTrue) ∧
    (∀ c : Clause, ∃ b, c.truth v = .ofBool b) ∧
    (∀ cs, (Clause.all cs).truth v = Connective.and.fold (cs.map (Clause.truth v))) ∧
    (∀ cs, (Clause.any cs).truth v = if cs.isEmpty then .true else Connective.or.fold (cs.map (Clause.truth v))) ∧
    (∀ c : Clause, c.negate.truth v = (c.truth v).not) ∧
    ∀ (r : SearchRequest) (c : Clause),
      (∃ added, r.andFilter c = { r with filters := r.filters ++ added } ∧
        Connective.and.fold (added.map (Clause.truth v)) = c.truth v) ∧
      (r.andFilter c).filterClause.truth v = (r.filterClause.truth v).and (c.truth v) := by
  refine ⟨⟨?_, ?_, Expr.truth_negate v, Expr.truth_violation v, Select.andWhere_adds v⟩, ?_,
    Clause.truth_definite v, ?_, ?_, Clause.truth_negate v, SearchRequest.andFilter_adds v⟩
  · intro es
    rw [Expr.truth_all, Connective.value_and]
  · intro es
    rw [Expr.truth_any, Connective.value_or, List.isEmpty_map]
  · intro a e
    exact (Expr.truth_violation a.toValuation e).mpr (Expr.truth_known a)
  · intro cs
    rw [Clause.truth_all, Connective.value_and]
  · intro cs
    rw [Clause.truth_any, Connective.value_or, List.isEmpty_map]

-- No comparison and no list tells anything, and neither NULL nor a row is ever found.
def Assignment.untold : Assignment :=
  .ofPlain (fun | .isNull .. | .existsIn .. => .false | _ => .unknown) (fun _ => false) (by simp) (by simp)

def overThirty : Expr := .binary (.column (some "users") "age") .gt (.value (.int 30))

def unnamed : Expr := .isNull (.column (some "users") "name") false

-- A lone member and members under a bare AND, negated either way, and a condition added behind another.
theorem overThirty_laws :
    let v := Assignment.untold.toValuation
    let members := [.and [overThirty, .constant true], unnamed]
    let users := { Select.new "users" with conditions := [.not unnamed] }
    let titled := Clause.query (.single "term" (.single "title" (.str "a")))
    (Expr.all members).truth v = .false ∧ (Expr.any members).truth v = .unknown ∧
      (Expr.any []).truth v = .true ∧
      overThirty.negate.truth v = .unknown ∧ overThirty.violation.truth v = .true ∧
      unnamed.violation.truth v = .true ∧ (Expr.violation (.not unnamed)).truth v = .false ∧
      (users.andWhere (.and members)).whereExpr.truth v = .false ∧
      (Clause.all [titled, .not titled]).truth v = .false ∧ (Clause.any [titled, .not titled]).truth v = .true ∧
      titled.negate.truth v = .true := by
  intro v members users titled
  obtain ⟨⟨all, any, negated, -, added⟩, violated, -, allClauses, anyClauses, negatedClause, -⟩ := builders_exact v
  refine ⟨?_, ?_, ?_, ?_, ?_, ?_, ?_, ?_, ?_, ?_, ?_⟩
  · rw [all]
    rfl
  · rw [any]
    rfl
  · rw [any]
    rfl
  · rw [negated]
    rfl
  · rw [violated]
    rfl
  · rw [violated]
    rfl
  · rw [violated]
    rfl
  · rw [(added users _).2]
    rfl
  · rw [allClauses]
    rfl
  · rw [anyClauses]
    rfl
  · rw [negatedClause]
    rfl

-- Were a NULL test unknown, its violation, the test turned around, would be unknown as well.
theorem unknownNull_violation :
    let v := Valuation.ofPlain (fun _ => .unknown) (fun _ => false)
    unnamed.truth v = .unknown ∧ unnamed.violation = .isNull (.column (some "users") "name") true ∧
      unnamed.violation.truth v = .unknown ∧
      ¬ ∀ (v : Valuation) (e : Expr), e.violation.truth v = (e.truth v).notTrue := by
  intro v
  refine ⟨rfl, rfl, rfl, ?_⟩
  intro law
  cases law v unnamed

end FilterQuery
