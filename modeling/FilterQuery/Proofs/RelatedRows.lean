import FilterQuery.Proofs.PredicateTruth
import FilterQuery.Proofs.RouteRuns

namespace FilterQuery

-- What a subquery selects from, its conditions aside.
structure Source where
  table : String
  binding : String
  joins : List Join

def Select.source (s : Select) : Source := ⟨s.table, s.binding, s.joins⟩

-- Rows or documents, and what is known of each. A row of a subquery goes with the rows around it, since the
-- subquery may name them.
structure Database where
  Row : Type
  -- What tests in their plain form come to.
  test : Row → Expr → Truth
  -- Whether a value is NULL is never unknown.
  definite : ∀ row e, test row (.isNull e false) ≠ .unknown
  -- What a subquery has to select from when it is evaluated on the row.
  rows : Row → Source → List Row
  query : Row → Json → Bool
  -- The documents embedded at the path.
  nested : Row → String → List Row

def paged (limit offset : Option Nat) (rows : List α) : List α :=
  match limit with
  | some n => (rows.drop (offset.getD 0)).take n
  | none => rows.drop (offset.getD 0)

namespace Truth

theorem not_of_definite {t : Truth} (definite : t ≠ unknown) : t.not = t.notTrue := by
  cases t with
  | unknown => exact absurd rfl definite
  | _ => rfl

theorem ofBool_ne_unknown (b : Bool) : ofBool b ≠ unknown := by cases b <;> simp [ofBool]

@[simp] theorem ofBool_eq_true {b : Bool} : ofBool b = true ↔ b = .true := by cases b <;> simp [ofBool]

theorem notTrue_ne_unknown (t : Truth) : t.notTrue ≠ unknown := by cases t <;> simp [notTrue]

@[simp] theorem notTrue_eq_true {t : Truth} : t.notTrue = true ↔ t ≠ true := by cases t <;> simp [notTrue]

theorem and_eq_true {a b : Truth} : a.and b = true ↔ a = true ∧ b = true := by cases a <;> cases b <;> simp [and]

end Truth

namespace Expr

mutual
def truthOn (d : Database) (row : d.Row) : Expr → Truth
  | and members => Connective.and.fold (truthsOn d row members)
  | or members => Connective.or.fold (truthsOn d row members)
  | not e => (e.truthOn d row).not
  | notTrue e => (e.truthOn d row).notTrue
  | constant b => .ofBool b
  | existsIn query negated => .ofBool (negated != findsRow d row query)
  | e => extended (d.test row) e

def truthsOn (d : Database) (row : d.Row) : List Expr → List Truth
  | [] => []
  | e :: rest => e.truthOn d row :: truthsOn d row rest

-- Whether a row is left on which the conditions are true.
def findsRow (d : Database) (row : d.Row) : Select → Bool
  | ⟨table, binding, _, joins, conditions, _, limit, offset⟩ =>
    !(paged limit offset ((d.rows row ⟨table, binding, joins⟩).filter fun r =>
      Connective.and.fold (truthsOn d r conditions) = .true)).isEmpty
end

theorem truthsOn_eq_map (d : Database) (row : d.Row) (members : List Expr) :
    truthsOn d row members = members.map (truthOn d row) := by
  induction members with
  | nil => rfl
  | cons e rest ih => rw [truthsOn, ih, List.map_cons]

end Expr

namespace Clause

mutual
def truthOn (d : Database) (doc : d.Row) : Clause → Truth
  | and members => Connective.and.fold (truthsOn d doc members)
  | or members => Connective.or.fold (truthsOn d doc members)
  | not c => (c.truthOn d doc).not
  | constant b => .ofBool b
  | query body => .ofBool (d.query doc body)
  | nested path c => .ofBool ((d.nested doc path).any fun embedded => c.truthOn d embedded = .true)

def truthsOn (d : Database) (doc : d.Row) : List Clause → List Truth
  | [] => []
  | c :: rest => c.truthOn d doc :: truthsOn d doc rest
end

theorem truthsOn_eq_map (d : Database) (doc : d.Row) (members : List Clause) :
    truthsOn d doc members = members.map (truthOn d doc) := by
  induction members with
  | nil => rfl
  | cons c rest ih => rw [truthsOn, ih, List.map_cons]

end Clause

-- What is known of one row.
def Database.valuation (d : Database) (row : d.Row) : Valuation where
  test := Expr.truthOn d row
  complement := by
    intro op other found left right
    cases op <;> cases found <;> simp [Expr.truthOn, Expr.extended]
  inList := by
    intro e list negated
    cases negated <;> simp [Expr.truthOn, Expr.extended]
  isNull := by
    intro e negated
    cases negated <;> simp [Expr.truthOn, Expr.extended]
  existsIn := by
    intro query negated
    cases negated <;> simp [Expr.truthOn]
  query c := c.truthOn d row = .true

namespace Expr

mutual
theorem truth_valuation (d : Database) (row : d.Row) (e : Expr) : e.truth (d.valuation row) = e.truthOn d row := by
  cases e with
  | and members => rw [truth, truthOn, truths_valuation d row members]
  | or members => rw [truth, truthOn, truths_valuation d row members]
  | not e => rw [truth, truthOn, truth_valuation d row e]
  | notTrue e => rw [truth, truthOn, truth_valuation d row e]
  | constant b => rw [truth, truthOn]
  | _ => simp only [truth, Database.valuation]

theorem truths_valuation (d : Database) (row : d.Row) (members : List Expr) :
    truths (d.valuation row) members = truthsOn d row members := by
  cases members with
  | nil => rfl
  | cons e rest => rw [truths, truthsOn, truth_valuation d row e, truths_valuation d row rest]
end

theorem truthOn_negate (d : Database) (row : d.Row) (e : Expr) : e.negate.truthOn d row = (e.truthOn d row).not := by
  rw [← truth_valuation, ← truth_valuation, truth_negate]

theorem truthOn_conjuncts (d : Database) (row : d.Row) (e : Expr) :
    Connective.and.fold (e.conjuncts.map (truthOn d row)) = e.truthOn d row := by
  rw [← truth_valuation, ← truth_conjuncts, List.map_congr_left fun e _ => truth_valuation d row e]

-- Where a negation would leave unknown unknown, the wrapping does not.
theorem truthOn_violation (d : Database) (row : d.Row) (e : Expr) :
    e.violation.truthOn d row = (e.truthOn d row).notTrue := by
  have direct : e.truthOn d row ≠ .unknown → e.negate.truthOn d row = (e.truthOn d row).notTrue := by
    intro definite
    rw [truthOn_negate, Truth.not_of_definite definite]
  cases e with
  | constant b => exact direct (by rw [truthOn]; exact Truth.ofBool_ne_unknown b)
  | existsIn query negated => exact direct (by rw [truthOn]; exact Truth.ofBool_ne_unknown _)
  | notTrue e => exact direct (by rw [truthOn]; exact Truth.notTrue_ne_unknown _)
  | isNull e negated =>
    refine direct ?_
    have known := d.definite row e
    cases negated with
    | false => exact known
    | true =>
      simp only [truthOn, extended]
      rw [Truth.not_of_definite known]
      exact Truth.notTrue_ne_unknown _
  | _ => simp only [violation, truthOn]

theorem findsRow_eq (d : Database) (row : d.Row) (s : Select) : findsRow d row s =
    !(paged s.limit s.offset ((d.rows row s.source).filter fun r =>
      Connective.and.fold (s.conditions.map (truthOn d r)) = .true)).isEmpty := by
  cases s
  simp only [findsRow, truthsOn_eq_map, Select.source]

-- Nothing is cut off, so some row that meets the conditions is enough.
theorem findsRow_unpaged (d : Database) (row : d.Row) {s : Select} (limit : s.limit = none) (offset : s.offset = none) :
    findsRow d row s = (d.rows row s.source).any fun r =>
      Connective.and.fold (s.conditions.map (truthOn d r)) = .true := by
  rw [findsRow_eq, limit, offset, Bool.eq_iff_iff]
  simp [paged, List.any_eq_true]

end Expr

namespace Clause

mutual
theorem truth_valuation (d : Database) (doc : d.Row) (c : Clause) : c.truth (d.valuation doc) = c.truthOn d doc := by
  cases c with
  | and members => rw [truth, truthOn, truths_valuation d doc members]
  | or members => rw [truth, truthOn, truths_valuation d doc members]
  | not c => rw [truth, truthOn, truth_valuation d doc c]
  | constant b => rw [truth, truthOn]
  | query body => simp [truth, truthOn, Database.valuation]
  | nested path c =>
    rw [truth, truthOn]
    simp only [Database.valuation, truthOn, Truth.ofBool_eq_true, Bool.decide_eq_true]

theorem truths_valuation (d : Database) (doc : d.Row) (members : List Clause) :
    truths (d.valuation doc) members = truthsOn d doc members := by
  cases members with
  | nil => rfl
  | cons c rest => rw [truths, truthsOn, truth_valuation d doc c, truths_valuation d doc rest]
end

theorem truthOn_negate (d : Database) (doc : d.Row) (c : Clause) : c.negate.truthOn d doc = (c.truthOn d doc).not := by
  rw [← truth_valuation, ← truth_valuation, truth_negate]

theorem truthOn_definite (d : Database) (doc : d.Row) (c : Clause) : c.truthOn d doc ≠ .unknown := by
  obtain ⟨b, same⟩ := c.truth_definite (d.valuation doc)
  rw [← truth_valuation, same]
  exact Truth.ofBool_ne_unknown b

end Clause

namespace Predicate

def truthOn (d : Database) (row : d.Row) : Predicate → Truth
  | sql e => e.truthOn d row
  | search c => c.truthOn d row

theorem truth_valuation (d : Database) (row : d.Row) (p : Predicate) : p.truth (d.valuation row) = p.truthOn d row := by
  cases p with
  | sql e => exact e.truth_valuation d row
  | search c => exact c.truth_valuation d row

theorem truthOn_negate (d : Database) (row : d.Row) (p : Predicate) :
    p.negate.truthOn d row = (p.truthOn d row).not := by
  rw [← truth_valuation, ← truth_valuation, truth_negate]

end Predicate

namespace CompiledQuery

def truthOn (d : Database) (row : d.Row) : CompiledQuery → Truth
  | sql _ s => Connective.and.fold (s.conditions.map (Expr.truthOn d row))
  | search r => Connective.and.fold (r.filters.map (Clause.truthOn d row))

theorem truth_valuation (d : Database) (row : d.Row) (q : CompiledQuery) :
    q.truth (d.valuation row) = q.truthOn d row := by
  cases q with
  | sql _ s => exact congrArg Connective.and.fold (List.map_congr_left fun e _ => e.truth_valuation d row)
  | search r => exact congrArg Connective.and.fold (List.map_congr_left fun c _ => c.truth_valuation d row)

-- What the query selects from the root.
def source : CompiledQuery → Source
  | sql _ s => s.source
  | search r => ⟨r.index, "", []⟩

-- The rows or documents that meet the conditions, before any are cut off.
def found (d : Database) (outer : d.Row) (q : CompiledQuery) : List d.Row :=
  (d.rows outer q.source).filter fun row => q.truthOn d row = .true

-- The rows of the scope that go with the parent row. Embedded documents need no correlation.
def related (scope : CompiledQuery) (d : Database) (row : d.Row) (parent binding : String) (link : Link) : List d.Row :=
  match scope with
  | sql _ s => (d.rows row s.source).filter fun r => (correlation parent binding link).truthOn d r = .true
  | search _ => d.nested row binding

end CompiledQuery

-- What a mode asks of the related rows, given what the inner predicate comes to on each.
def ToManyMode.Met (mode : ToManyMode) (inner : ρ → Truth) (rows : List ρ) : Prop :=
  match mode with
  | anyMatch => ∃ r ∈ rows, inner r = .true
  | allMatch => ∀ r ∈ rows, inner r = .true

namespace CompiledQuery

theorem findsRow_andWhere (d : Database) (row : d.Row) {s : Select} (plain : s.conditions = []) (limit : s.limit = none)
    (offset : s.offset = none) (parent binding : String) (link : Link) (e : Expr) :
    Expr.findsRow d row ((s.andWhere (correlation parent binding link)).andWhere e) =
      ((d.rows row s.source).filter fun r => (correlation parent binding link).truthOn d r = .true).any fun r =>
        e.truthOn d r = .true := by
  rw [Expr.findsRow_unpaged (s := (s.andWhere (correlation parent binding link)).andWhere e) d row limit offset,
    Bool.eq_iff_iff]
  have source : ((s.andWhere (correlation parent binding link)).andWhere e).source = s.source := rfl
  have conditions : ∀ r, Connective.and.fold
      (((s.andWhere (correlation parent binding link)).andWhere e).conditions.map (Expr.truthOn d r)) =
        ((correlation parent binding link).truthOn d r).and (e.truthOn d r) := by
    intro r
    simp only [Select.andWhere, plain, List.nil_append, List.map_append, Connective.fold_append, Expr.truthOn_conjuncts]
    rfl
  simp only [source, conditions, List.any_eq_true, decide_eq_true_eq, Truth.and_eq_true, List.mem_filter]
  constructor
  · rintro ⟨r, member, correlated, inner⟩
    exact ⟨r, ⟨member, correlated⟩, inner⟩
  · rintro ⟨r, ⟨member, correlated⟩, inner⟩
    exact ⟨r, member, correlated, inner⟩

theorem closeSelect_truthOn (d : Database) (row : d.Row) {s : Select} (plain : s.conditions = []) (limit : s.limit = none)
    (offset : s.offset = none) (parent binding : String) (link : Link) (mode : ToManyMode) (e : Expr) :
    (closeSelect s parent binding link mode e).truthOn d row ≠ .unknown ∧
      ((closeSelect s parent binding link mode e).truthOn d row = .true ↔
        mode.Met (e.truthOn d) ((d.rows row s.source).filter fun r =>
          (correlation parent binding link).truthOn d r = .true)) := by
  cases mode with
  | anyMatch =>
    rw [closeSelect, Expr.truthOn, findsRow_andWhere d row plain limit offset]
    refine ⟨Truth.ofBool_ne_unknown _, ?_⟩
    simp [ToManyMode.Met, and_assoc]
  | allMatch =>
    rw [closeSelect, Expr.truthOn, findsRow_andWhere d row plain limit offset]
    refine ⟨Truth.ofBool_ne_unknown _, ?_⟩
    simp [ToManyMode.Met, Expr.truthOn_violation]

theorem closeNested_truthOn (d : Database) (doc : d.Row) (binding : String) (mode : ToManyMode) (c : Clause) :
    (closeNested binding mode c).truthOn d doc = .true ↔ mode.Met (c.truthOn d) (d.nested doc binding) := by
  cases mode with
  | anyMatch => simp [closeNested, Clause.truthOn, ToManyMode.Met]
  | allMatch =>
    have violated : ∀ embedded, c.negate.truthOn d embedded = .true ↔ c.truthOn d embedded ≠ .true := by
      intro embedded
      rw [Clause.truthOn_negate, Truth.not_of_definite (c.truthOn_definite d embedded), Truth.notTrue_eq_true]
    rw [closeNested, Clause.truthOn_negate, Truth.not_of_definite (Clause.truthOn_definite d doc _), Truth.notTrue_eq_true]
    simp [Clause.truthOn, ToManyMode.Met, violated]

-- However a scope was filled with joins, its predicate is true or false, as the mode asks of the related rows.
theorem closeScope_met {q scope : CompiledQuery} {related : Queryable} {binding : String} {p closed : Predicate}
    (opened : scope.unjoined = (q.openScope related binding).unjoined)
    (accepted : scope.closeScope? parent binding link p mode = some closed) (d : Database) (row : d.Row) :
    closed.truthOn d row ≠ .unknown ∧
      (closed.truthOn d row = .true ↔ mode.Met (p.truthOn d) (scope.related d row parent binding link)) := by
  cases scope with
  | sql dialect s =>
    cases p with
    | search c => cases accepted
    | sql e =>
      cases Option.some.inj accepted
      cases q with
      | search r => cases opened
      | sql dialect' s' =>
        simp only [unjoined, openScope, sql.injEq, Select.new] at opened
        obtain ⟨_, fresh⟩ := opened
        have plain : s.conditions = [] := congrArg Select.conditions fresh
        have limit : s.limit = none := congrArg Select.limit fresh
        have offset : s.offset = none := congrArg Select.offset fresh
        exact closeSelect_truthOn d row plain limit offset parent binding link mode e
  | search r =>
    cases p with
    | sql e => cases accepted
    | search c =>
      cases Option.some.inj accepted
      exact ⟨Clause.truthOn_definite d row _, closeNested_truthOn d row binding mode c⟩

-- That holds on every row around the scope; negated, the predicate is the other of the two.
theorem closeScope_truthOn {q scope : CompiledQuery} {related : Queryable} {binding : String}
    (opened : scope.unjoined = (q.openScope related binding).unjoined) {p : Predicate} (own : p.kind = scope.kind)
    (parent : String) (link : Link) (mode : ToManyMode) :
    ∃ closed, scope.closeScope? parent binding link p mode = some closed ∧ ∀ (d : Database) (row : d.Row),
      closed.truthOn d row ≠ .unknown ∧
      (closed.truthOn d row = .true ↔ mode.Met (p.truthOn d) (scope.related d row parent binding link)) ∧
      closed.negate.truthOn d row = (closed.truthOn d row).notTrue := by
  obtain ⟨closed, accepted⟩ := closeScope_exact.mpr own
  refine ⟨closed, accepted, ?_⟩
  intro d row
  obtain ⟨definite, met⟩ := closeScope_met opened accepted d row
  refine ⟨definite, met, ?_⟩
  rw [Predicate.truthOn_negate, Truth.not_of_definite definite]

end CompiledQuery

def reviews : Queryable := Queryable.new "Review" "reviews" .postgres

def ofShop : Link := ⟨"Review", .many, "id", "shop_id"⟩

-- The reviews of a shop, one of them joined with its writer.
def shopReviews : CompiledQuery :=
  .sql .postgres { Select.new "reviews" with
    columns := [.template ⟨"1", []⟩ []]
    joins := [⟨.left, "people", "reviews__writer",
      correlation "reviews" "reviews__writer" ⟨"Person", .one, "writer_id", "id"⟩⟩] }

def fourStars : Predicate := .sql (.binary (.column (some "reviews") "stars") .eq (.value (.int 4)))

-- A shop with a review of four stars, one whose stars are not known and one of another shop. A row is what
-- its two tests come to, that of the stars and that of the shop.
def reviewed : Database where
  Row := Truth × Truth
  test row
    | .binary (.column _ "stars") _ _ => row.1
    | .binary (.column _ "shop_id") _ _ => row.2
    | _ => .true
  definite := by simp
  rows _ _ := [(.true, .true), (.unknown, .true), (.false, .false)]
  query _ _ := false
  nested _ _ := []

-- The unknown stars are no match, and they violate what all are asked for.
theorem fourStars_related :
    shopReviews.unjoined = ((CompiledQuery.forQueryable reviews).openScope reviews "reviews").unjoined ∧
      fourStars.kind = shopReviews.kind ∧ ∃ anyOne every,
        shopReviews.closeScope? "shops" "reviews" ofShop fourStars .anyMatch = some anyOne ∧
          shopReviews.closeScope? "shops" "reviews" ofShop fourStars .allMatch = some every ∧
            anyOne.truthOn reviewed (.true, .true) = .true ∧ every.truthOn reviewed (.true, .true) ≠ .true ∧
              every.negate.truthOn reviewed (.true, .true) = .true := by
  have opened : shopReviews.unjoined = ((CompiledQuery.forQueryable reviews).openScope reviews "reviews").unjoined := rfl
  have own : fourStars.kind = shopReviews.kind := rfl
  obtain ⟨anyOne, closed, known⟩ := CompiledQuery.closeScope_truthOn opened own "shops" ofShop .anyMatch
  obtain ⟨every, closed', known'⟩ := CompiledQuery.closeScope_truthOn opened own "shops" ofShop .allMatch
  have rows : shopReviews.related reviewed (.true, .true) "shops" "reviews" ofShop =
      [(.true, .true), (.unknown, .true)] := rfl
  obtain ⟨_, found, _⟩ := known reviewed (.true, .true)
  obtain ⟨_, violated, complement⟩ := known' reviewed (.true, .true)
  rw [rows] at found violated
  have matching : fourStars.truthOn reviewed (.true, .true) = .true := rfl
  have unknown : fourStars.truthOn reviewed (.unknown, .true) = .unknown := rfl
  have notEvery : every.truthOn reviewed (.true, .true) ≠ .true := by
    intro all
    have second := violated.mp all (.unknown, .true) (List.mem_cons_of_mem _ (List.mem_cons_self ..))
    exact absurd (unknown.symm.trans second) (by decide)
  refine ⟨opened, own, anyOne, every, closed, closed', found.mpr ⟨_, List.mem_cons_self .., matching⟩, notEvery, ?_⟩
  rw [complement, Truth.notTrue_eq_true]
  exact notEvery

end FilterQuery
