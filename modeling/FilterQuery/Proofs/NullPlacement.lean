import FilterQuery.Proofs.SortTerms
import FilterQuery.Proofs.Truth

namespace FilterQuery

-- The rows as a backend sees them: what tokens come to on a row, NULL being none, and how it sorts by itself.
structure Backend (Row α : Type) where
  value : List Token → Row → Option α
  holds : α → Bool
  order : α → α → Ordering
  nullsFirst : Direction → Bool

def Direction.turn : Direction → Ordering → Ordering
  | asc, o => o
  | desc, o => o.swap

def Nulls.leads (own : Bool) : Nulls → Bool
  | first => true
  | last => false
  | default => own

-- By the values in their direction, NULL on its side whatever the direction.
def comparePlaced (nullsFirst : Bool) (direction : Direction) (order : α → α → Ordering) : Option α → Option α → Ordering
  | none, none => .eq
  | none, some _ => if nullsFirst then .lt else .gt
  | some _, none => if nullsFirst then .gt else .lt
  | some v, some w => direction.turn (order v w)

-- What is asked for: the first key that tells two rows apart decides, where unplaced NULLs stand being given.
def compareKeys (value : Expr → Row → Option α) (order : α → α → Ordering) (own : Direction → Bool) :
    List SortKey → Row → Row → Ordering
  | [], _, _ => .eq
  | key :: rest, x, y =>
    (comparePlaced (key.nulls.leads (own key.direction)) key.direction order (value key.expr x) (value key.expr y)).then
      (compareKeys value order own rest x y)

namespace Backend

variable {Row α : Type} (b : Backend Row α)

def atom (row : Row) (ts : List Token) : Truth :=
  match beforeIsNull? ts with
  | some operand => .ofBool (b.value operand row).isNone
  | none =>
    match b.value ts row with
    | none => .unknown
    | some v => .ofBool (b.holds v)

mutual
def truth (row : Row) : Reading → Truth
  | .atom ts => b.atom row ts
  | .constant v => .ofBool v
  | .not t => (truth row t).not
  | .notTrue t => (truth row t).notTrue
  | .and members => Connective.and.fold (truths row members)
  | .or members => Connective.or.fold (truths row members)

def truths (row : Row) : List Reading → List Truth
  | [] => []
  | t :: rest => truth row t :: truths row rest
end

def test (row : Row) : NullTest → Truth
  | .missing ts => .ofBool (b.value ts row).isNone
  | .condition t => b.truth row t

def number (test : NullTest) (yes no : Nat) (row : Row) : Nat := if b.test row test = .true then yes else no

def compareTerm (term : SortTerm) (x y : Row) : Ordering :=
  match term.subject with
  | .operand ts =>
    comparePlaced (term.nulls.leads (b.nullsFirst term.direction)) term.direction b.order (b.value ts x) (b.value ts y)
  | .indicator test yes no => term.direction.turn (compare (b.number test yes no x) (b.number test yes no y))

def compareTerms : List SortTerm → Row → Row → Ordering
  | [], _, _ => .eq
  | term :: rest, x, y => (b.compareTerm term x y).then (compareTerms rest x y)

-- No row comes after one that it should come before.
def Sorted (terms : List SortTerm) (rows : List Row) : Prop := rows.Pairwise fun x y => b.compareTerms terms x y ≠ .gt

-- The keys have these values in the backend, and these are ordered so.
structure Evaluates (d : Dialect) (value : Expr → Row → Option α) (order : α → α → Ordering) (keys : List SortKey) :
    Prop where
  order : b.order = order
  value : ∀ key ∈ keys, b.value (key.expr.spelt d) = value key.expr

variable {b} {d : Dialect} {value : Expr → Row → Option α} {order : α → α → Ordering}

theorem compareTerms_append (left right : List SortTerm) (x y : Row) :
    b.compareTerms (left ++ right) x y = (b.compareTerms left x y).then (b.compareTerms right x y) := by
  induction left with
  | nil => rfl
  | cons term rest ih => simp [compareTerms, ih, Ordering.then_assoc]

theorem number_missing (ts : List Token) (yes no : Nat) (row : Row) :
    b.number (.missing ts) yes no row = if (b.value ts row).isNone then yes else no := by
  rw [number, test]
  cases (b.value ts row).isNone <;> rfl

-- Numbers that tell NULL from other values, then the values: where the backend has NULL by itself does not show.
theorem compare_indicated {nulls : Nulls} (placed : nulls ≠ .default) (own own' : Bool) (direction : Direction)
    (order : α → α → Ordering) (v w : Option α) :
    (compare (if v.isNone then nulls.numbers.1 else nulls.numbers.2)
        (if w.isNone then nulls.numbers.1 else nulls.numbers.2)).then (comparePlaced own direction order v w) =
      comparePlaced (nulls.leads own') direction order v w := by
  cases nulls with
  | default => exact absurd rfl placed
  | first | last => cases v <;> cases w <;> rfl

theorem compare_terms {key : SortKey} (same : b.value (key.expr.spelt d) = value key.expr) (ordered : b.order = order)
    (placed : key.nulls ≠ .default) (own : Direction → Bool) (x y : Row) :
    b.compareTerms (key.terms d) x y =
      comparePlaced (key.nulls.leads (own key.direction)) key.direction order (value key.expr x) (value key.expr y) := by
  unfold SortKey.terms
  split
  · have indicated := compare_indicated placed (b.nullsFirst key.direction) (own key.direction) key.direction order
      (value key.expr x) (value key.expr y)
    simpa [compareTerms, compareTerm, number_missing, Direction.turn, Nulls.leads, same, ordered] using indicated
  · have leads : key.nulls.leads (b.nullsFirst key.direction) = key.nulls.leads (own key.direction) := by
      cases nulls : key.nulls with
      | default => exact absurd nulls placed
      | first | last => rfl
    simp [compareTerms, compareTerm, leads, same, ordered]

theorem compareTerms_keys {keys : List SortKey} (evaluates : b.Evaluates d value order keys)
    (placed : ∀ key ∈ keys, key.nulls ≠ .default) (own : Direction → Bool) (x y : Row) :
    b.compareTerms (keys.flatMap (SortKey.terms d)) x y = compareKeys value order own keys x y := by
  induction keys with
  | nil => rfl
  | cons key rest ih =>
    have same := evaluates.value
    rw [List.forall_mem_cons] at same placed
    rw [List.flatMap_cons, compareTerms_append, compareKeys, compare_terms same.1 evaluates.order placed.1 own,
      ih ⟨evaluates.order, same.2⟩ placed.2]

end Backend

-- What a query is sorted by when it was composed: in any dialect its text holds together.
theorem Expr.Key.whole {e : Expr} (key : e.Key) (d : Dialect) : e.Whole d := by
  refine ⟨key.plain.1, ?_⟩
  cases key with
  | field table name =>
    rw [Expr.spelt, Render.spelled_operand rfl]
    cases table <;> rfl
  | related parent binding link related column direction =>
    have words : (Scan.of d "SELECT").finish = [.word "SELECT"] ∧ (Scan.of d "FROM").finish = [.word "FROM"] ∧
        (Scan.of d "AS").finish = [.word "AS"] ∧ (Scan.of d "WHERE").finish = [.word "WHERE"] ∧
        (Scan.of d "=").finish = [.word "="] ∧ (Scan.of d ".").finish = [.dot] ∧ (Scan.of d "(").finish = [.opening] ∧
        (Scan.of d ")").finish = [.closing] ∧
        (Scan.of d direction.aggregate).finish = [.word direction.aggregate] := by
      cases direction <;> cases d <;> exact ⟨rfl, rfl, rfl, rfl, rfl, rfl, rfl, rfl, rfl⟩
    by_cases own : binding = related.source
    all_goals
      simp [Expr.spelt, Render.expr, Render.select, CompiledQuery.aggregateSelect, correlation, Select.andWhere, Select.new,
        Expr.conjuncts, Render.members, Render.grouped, Render.fromPieces, Render.columnName, Render.joinPieces,
        Piece.keyword, Expr.isOr, Expr.isWeak, Render.asBinding, words, own, Dialect.pagination_none, BinOp.symbol]
      rfl

-- The clause of either dialect is read as terms that compare two rows as was asked for, and sorts the same rows.
theorem Select.sorted_alike {Row α : Type} {s : Select} (placed : ∀ key ∈ s.orders, key.nulls ≠ .default)
    {d d' : Dialect} (whole : ∀ key ∈ s.orders, key.expr.Whole d ∧ key.expr.Whole d')
    {value : Expr → Row → Option α} {order : α → α → Ordering} {b b' : Backend Row α}
    (evaluates : b.Evaluates d value order s.orders) (evaluates' : b'.Evaluates d' value order s.orders) :
    ∃ terms terms', s.SortsBy d terms ∧ s.SortsBy d' terms' ∧
      (∀ own x y, b.compareTerms terms x y = compareKeys value order own s.orders x y ∧
        b'.compareTerms terms' x y = compareKeys value order own s.orders x y) ∧
      ∀ rows, b.Sorted terms rows ↔ b'.Sorted terms' rows := by
  have read := (sortsBy_iff fun key member => (whole key member).1.plain).mpr
    (clause_terms fun key member => (whole key member).1)
  have read' := (sortsBy_iff fun key member => (whole key member).2.plain).mpr
    (clause_terms fun key member => (whole key member).2)
  have compared := fun own x y => Backend.compareTerms_keys evaluates placed own x y
  have compared' := fun own x y => Backend.compareTerms_keys evaluates' placed own x y
  refine ⟨_, _, read, read', fun own x y => ⟨compared own x y, compared' own x y⟩, ?_⟩
  intro rows
  simp only [Backend.Sorted, compared (fun _ => false), compared' (fun _ => false)]

-- Orders by when they are due, the latest first and those never due before all, then by the least price in them.
def dueOrders : Select :=
  let items : Queryable := ⟨"Item", "items", .mySql, "id", [], [], []⟩
  let least := CompiledQuery.aggregateSelect "orders" "orders_items" ⟨"Item", .many, "id", "order_id"⟩ items "price" .asc
  { Select.new "orders" with
    orders := [⟨.column (some "orders") "due", .desc, .first⟩, ⟨.scalar least, .asc, .last⟩] }

-- A row has the day and the price.
def dueValue : Expr → Option Nat × Option Nat → Option Nat
  | .column _ _, row => row.1
  | _, row => row.2

def dueBackend (nullsFirst : Bool) : Backend (Option Nat × Option Nat) Nat where
  value
    | .name _ :: _, row => row.1
    | _, row => row.2
  holds n := n ≠ 0
  order := compare
  nullsFirst _ := nullsFirst

theorem dueOrders_keys : ∀ key ∈ dueOrders.orders, key.expr.Key := by
  rw [dueOrders, List.forall_mem_cons, List.forall_mem_singleton]
  exact ⟨.field .., .related ..⟩

theorem dueBackend_evaluates (d : Dialect) (nullsFirst : Bool) :
    (dueBackend nullsFirst).Evaluates d dueValue compare dueOrders.orders := by
  refine ⟨rfl, ?_⟩
  have opening : (Scan.of d "(").finish = [.opening] := by cases d <;> rfl
  rw [dueOrders, List.forall_mem_cons, List.forall_mem_singleton]
  refine ⟨?_, ?_⟩
  · rw [Expr.spelt, Render.spelled_operand rfl]
    rfl
  · rw [Expr.spelt, Render.expr, List.cons_append, Piece.spelled_text, opening]
    rfl

-- SQLite, which has NULL first by itself, against PostgreSQL, which has it last going up.
theorem dueOrders_sorted_alike :
    (∀ key ∈ dueOrders.orders, key.nulls ≠ .default) ∧
    (∀ key ∈ dueOrders.orders, key.expr.Whole .sqlite ∧ key.expr.Whole .postgres) ∧
    (dueBackend true).Evaluates .sqlite dueValue compare dueOrders.orders ∧
    (dueBackend false).Evaluates .postgres dueValue compare dueOrders.orders ∧
    ∃ terms terms', dueOrders.SortsBy .sqlite terms ∧ dueOrders.SortsBy .postgres terms' ∧
      (dueBackend true).compareTerms terms (none, some 3) (some 7, none) = .lt ∧
      (dueBackend false).compareTerms terms' (none, some 3) (some 7, none) = .lt := by
  have placed : ∀ key ∈ dueOrders.orders, key.nulls ≠ .default := by simp [dueOrders]
  have whole : ∀ key ∈ dueOrders.orders, key.expr.Whole .sqlite ∧ key.expr.Whole .postgres :=
    fun key member => ⟨(dueOrders_keys key member).whole .sqlite, (dueOrders_keys key member).whole .postgres⟩
  have evaluates := dueBackend_evaluates .sqlite true
  have evaluates' := dueBackend_evaluates .postgres false
  obtain ⟨terms, terms', read, read', compared, _⟩ := Select.sorted_alike placed whole evaluates evaluates'
  have alike := compared (fun _ => false) (none, some 3) (some 7, none)
  exact ⟨placed, whole, evaluates, evaluates', terms, terms', read, read', alike.1, alike.2⟩

-- Orders that are neither known to be paid nor to be shipped, before all others.
def unsettledFirst : Select :=
  { Select.new "orders" with orders := [⟨.or [.column none "paid", .column none "shipped"], .asc, .first⟩] }

def Truth.ofValue : Option Bool → Truth
  | none => unknown
  | some b => ofBool b

def Truth.toValue : Truth → Option Bool
  | unknown => none
  | true => some .true
  | false => some .false

-- A row has both flags.
def flagsValue : Expr → Option Bool × Option Bool → Option Bool
  | .column _ "paid", row => row.1
  | .column _ _, row => row.2
  | _, row => ((Truth.ofValue row.1).or (.ofValue row.2)).toValue

def flagsBackend (nullsFirst : Direction → Bool) : Backend (Option Bool × Option Bool) Bool where
  value
    | [.name "paid"], row => row.1
    | [.name _], row => row.2
    | _, row => ((Truth.ofValue row.1).or (.ofValue row.2)).toValue
  holds b := b
  order := compare
  nullsFirst

theorem flagsBackend_evaluates (d : Dialect) (nullsFirst : Direction → Bool) :
    (flagsBackend nullsFirst).Evaluates d flagsValue compare unsettledFirst.orders := by
  refine ⟨rfl, ?_⟩
  have word : (Scan.of d " OR ").finish = [.word "OR"] := by cases d <;> rfl
  simp only [unsettledFirst, List.forall_mem_singleton, Expr.spelt, Render.expr, Render.members_cons]
  simp [Render.members, Render.grouped, Expr.isAnd, Render.expr, Render.columnName, word]
  rfl

theorem disjunction_misplaced : ¬∀ (s : Select) (d d' : Dialect)
    (value : Expr → Option Bool × Option Bool → Option Bool) (order : Bool → Bool → Ordering)
    (b b' : Backend (Option Bool × Option Bool) Bool), (∀ key ∈ s.orders, key.nulls ≠ .default) →
    b.Evaluates d value order s.orders → b'.Evaluates d' value order s.orders →
    ∃ terms terms', s.SortsBy d terms ∧ s.SortsBy d' terms' ∧
      ∀ own x y, b.compareTerms terms x y = compareKeys value order own s.orders x y ∧
        b'.compareTerms terms' x y = compareKeys value order own s.orders x y := by
  intro claimed
  have placed : ∀ key ∈ unsettledFirst.orders, key.nulls ≠ .default := by simp [unsettledFirst]
  obtain ⟨terms, _, read, _, compared⟩ := claimed unsettledFirst .mySql .postgres flagsValue compare _ _ placed
    (flagsBackend_evaluates .mySql fun _ => true) (flagsBackend_evaluates .postgres fun _ => false)
  have plain : ∀ key ∈ unsettledFirst.orders, key.expr.Plain .mySql := by
    simp [unsettledFirst, Expr.Plain, Expr.AllPlain]
  have text : Dialect.mySql.sortTerms? (Piece.spelled .mySql (Render.sortClause .mySql unsettledFirst.orders)) =
      some terms := (Select.sortsBy_iff plain).mp read
  -- NULL is asked of the last member alone.
  have misread : Dialect.mySql.sortTerms? (Piece.spelled .mySql (Render.sortClause .mySql unsettledFirst.orders)) =
      some [
        ⟨.indicator (.condition (.or [.and [.atom [.name "paid"]], .and [.atom [.name "shipped", .word "IS", .word "NULL"]]]))
          0 1, .asc, .default⟩,
        ⟨.operand [.name "paid", .word "OR", .name "shipped"], .asc, .default⟩] := rfl
  cases text.symm.trans misread
  have alike := (compared (fun _ => true) (none, some false) (some true, some true)).1
  exact absurd alike (by decide)

end FilterQuery
