import FilterQuery.Proofs.Placeholders
import FilterQuery.Proofs.StatementLandmarks

namespace FilterQuery

namespace Expr

def isTest : Expr → Bool
  | binary .. | inList .. | isNull .. | func .. | template .. => true
  | _ => false

-- Legible, with these landmarks and without subqueries.
structure Bears (d : Dialect) (found : List Landmark) (e : Expr) : Prop where
  plain : e.Plain d
  calm : e.Calm d
  landmarks : e.landmarks d = found
  subqueries : e.subqueryCount = 0

-- A test of one column.
structure Simple (d : Dialect) (e : Expr) : Prop where
  test : e.isTest = true
  bears : e.Bears d [.column]

theorem Simple.predicates {d : Dialect} {e : Expr} (simple : e.Simple d) : e.predicateCount = 1 := by
  have test := simple.test
  cases e <;> first | rfl | cases test

-- Rows of the binding that belong to a row of the parent.
def Tied (condition : Expr) : Prop := ∃ parent binding link, condition = correlation parent binding link

inductive Woven (d : Dialect) : Expr → Prop
  | test (simple : e.Simple d) : Woven d e
  | constant (b : Bool) : Woven d (.constant b)
  | and (each : ∀ e ∈ members, Woven d e) : Woven d (.and members)
  | or (each : ∀ e ∈ members, Woven d e) : Woven d (.or members)
  | not (inner : Woven d e) : Woven d (.not e)
  | notTrue (inner : Woven d e) : Woven d (.notTrue e)
  | rows (tied : Tied first) (joined : ∀ j ∈ joins, Tied j.condition) (each : ∀ e ∈ rest, Woven d e) (negated : Bool) :
    Woven d (.existsIn ⟨table, binding, [.template ⟨"1", []⟩ []], joins, first :: rest, [], none, none⟩ negated)

namespace Woven

variable {d : Dialect} {e : Expr} {members : List Expr}

theorem negate_test (simple : e.Simple d) : e.negate.Woven d := by
  obtain ⟨test, plain, calm, column, subqueries⟩ := simple
  have kept : Woven d (.not e) := .not (.test ⟨test, plain, calm, column, subqueries⟩)
  cases e with
  | binary left op right =>
    simp only [Expr.negate]
    split
    · rename_i complement found
      have words : d.plain complement.symbol = true ∧ d.links complement.symbol = true := by
        cases op <;> cases found <;> cases d <;> exact ⟨rfl, rfl⟩
      exact .test ⟨rfl, ⟨plain.1, words.1, plain.2.2⟩, ⟨calm.1, words.2, calm.2.2⟩, column, subqueries⟩
    · exact kept
  | inList e list negated => exact .test ⟨rfl, plain, calm, column, subqueries⟩
  | isNull e negated => exact .test ⟨rfl, plain, calm, column, subqueries⟩
  | func f args => exact kept
  | template text args => exact kept
  | _ => cases test

theorem negate (woven : e.Woven d) : e.negate.Woven d := by
  cases woven with
  | test simple => exact negate_test simple
  | constant b => exact .constant _
  | and each => exact .not (.and each)
  | or each => exact .not (.or each)
  | not inner => exact inner
  | notTrue inner => exact .not (.notTrue inner)
  | rows tied joined each negated => exact .rows tied joined each _

theorem violation (woven : e.Woven d) : e.violation.Woven d := by
  unfold Expr.violation
  split
  · exact .constant _
  · exact woven.negate
  · exact woven.negate
  · exact woven.negate
  · exact .notTrue woven

theorem andParts (woven : e.Woven d) : ∀ part ∈ e.andParts, part.Woven d := by
  unfold Expr.andParts
  split
  · simp
  · cases woven with
    | test simple => cases simple.test
    | and each => exact each
  · simpa using woven

theorem orParts (woven : e.Woven d) : ∀ part ∈ e.orParts, part.Woven d := by
  unfold Expr.orParts
  split
  · simp
  · cases woven with
    | test simple => cases simple.test
    | or each => exact each
  · simpa using woven

theorem conjunction (each : ∀ e ∈ members, e.Woven d) : (Expr.conjunction members).Woven d := by
  unfold Expr.conjunction
  split
  · exact .constant true
  · exact each _ (by simp)
  · exact .and each

theorem disjunction (each : ∀ e ∈ members, e.Woven d) : (Expr.disjunction members).Woven d := by
  unfold Expr.disjunction
  split
  · exact .constant false
  · exact each _ (by simp)
  · exact .or each

theorem all (each : ∀ e ∈ members, e.Woven d) : (Expr.all members).Woven d := by
  unfold Expr.all
  split
  · exact .constant false
  · refine conjunction fun part member => ?_
    obtain ⟨e, among, inside⟩ := List.mem_flatMap.mp member
    exact (each e among).andParts part inside

theorem any (each : ∀ e ∈ members, e.Woven d) : (Expr.any members).Woven d := by
  unfold Expr.any
  split
  · exact .constant true
  · refine disjunction fun part member => ?_
    obtain ⟨e, among, inside⟩ := List.mem_flatMap.mp member
    exact (each e among).orParts part inside

theorem conjuncts_each (each : ∀ e ∈ members, ∀ part ∈ e.conjuncts, part.Woven d) :
    ∀ part ∈ listConjuncts members, part.Woven d := by
  induction members with
  | nil => simp [listConjuncts]
  | cons e rest ih =>
    rw [List.forall_mem_cons] at each
    rw [listConjuncts, List.forall_mem_append]
    exact ⟨each.1, ih each.2⟩

theorem conjuncts (woven : e.Woven d) : ∀ part ∈ e.conjuncts, part.Woven d := by
  have alone : ∀ {e : Expr}, e.Woven d → e.conjuncts = [e] → ∀ part ∈ e.conjuncts, part.Woven d := by
    intro e woven same
    simpa [same] using woven
  induction woven with
  | @test e simple =>
    have test := simple.test
    cases e <;> first | cases test; done | exact alone (.test simple) rfl
  | constant b =>
    cases b with
    | true => simp [Expr.conjuncts]
    | false => exact alone (.constant false) rfl
  | and each ih => exact conjuncts_each ih
  | or each => exact alone (.or each) rfl
  | not inner => exact alone (.not inner) rfl
  | notTrue inner => exact alone (.notTrue inner) rfl
  | rows tied joined each negated => exact alone (.rows tied joined each negated) rfl

theorem tied_plain {condition : Expr} (tied : Tied condition) : condition.Plain d ∧ condition.Calm d := by
  obtain ⟨parent, binding, link, rfl⟩ := tied
  have words : d.plain "=" = true ∧ d.links "=" = true := by cases d <;> exact ⟨rfl, rfl⟩
  exact ⟨⟨trivial, words.1, trivial⟩, ⟨trivial, words.2, trivial⟩⟩

theorem joins_plain {joins : List Join} (joined : ∀ j ∈ joins, Tied j.condition) :
    Select.JoinsPlain d joins ∧ Select.JoinsCalm d joins := by
  induction joins with
  | nil => exact ⟨trivial, trivial⟩
  | cons j rest ih =>
    obtain ⟨kind, table, binding, condition⟩ := j
    rw [List.forall_mem_cons] at joined
    have first := tied_plain (d := d) joined.1
    exact ⟨⟨first.1, (ih joined.2).1⟩, ⟨first.2, (ih joined.2).2⟩⟩

theorem all_plain (each : ∀ e ∈ members, e.Plain d ∧ e.Calm d) : AllPlain d members ∧ AllCalm d members := by
  induction members with
  | nil => exact ⟨trivial, trivial⟩
  | cons e rest ih =>
    rw [List.forall_mem_cons] at each
    exact ⟨⟨each.1.1, (ih each.2).1⟩, ⟨each.1.2, (ih each.2).2⟩⟩

theorem one_plain (d : Dialect) : AllPlain d [.template ⟨"1", []⟩ []] := by
  cases d <;> exact ⟨⟨rfl, rfl, trivial⟩, trivial⟩

-- Legible, and with the landmarks of its parts.
theorem plain (woven : e.Woven d) : e.Plain d ∧ e.Calm d := by
  induction woven with
  | test simple => exact ⟨simple.bears.plain, simple.bears.calm⟩
  | constant b => exact ⟨trivial, trivial⟩
  | and each ih => exact all_plain ih
  | or each ih => exact all_plain ih
  | not inner ih => exact ih
  | notTrue inner ih => exact ih
  | rows tied joined each negated ih =>
    have first := tied_plain (d := d) tied
    have joins := joins_plain (d := d) joined
    have rest := all_plain ih
    exact ⟨⟨one_plain d, joins.1, ⟨first.1, rest.1⟩, trivial⟩, ⟨.one, joins.2, ⟨first.2, rest.2⟩, trivial⟩⟩

end Woven
end Expr

-- So many predicates, subqueries and keys to sort by stand behind the landmarks, the joins inside counted with the
-- subqueries.
structure Counted (found : List Landmark) (predicates subqueries keys : Nat) : Prop where
  predicates : found.count .column = predicates + found.count .source + 2 * found.count .joined +
    found.count .aggregate + found.count .nullsKey + found.count .fieldKey + found.count .relatedKey
  subqueries : subqueries + found.count .aggregate = found.count .source + found.count .joined + found.count .relatedKey
  keys : keys = found.count .fieldKey + found.count .relatedKey
  unpaged : found.count .limit = 0 ∧ found.count .offset = 0

namespace Counted

variable {d : Dialect} {found others : List Landmark}

theorem nothing : Counted [] 0 0 0 := ⟨rfl, rfl, rfl, rfl, rfl⟩

theorem perm (counted : Counted found p q k) (same : found.Perm others) : Counted others p q k := by
  obtain ⟨predicates, subqueries, keys, unpaged⟩ := counted
  refine ⟨?_, ?_, ?_, ?_⟩ <;> simpa only [← same.count_eq]

theorem append (first : Counted found p q k) (second : Counted others p' q' k') :
    Counted (found ++ others) (p + p') (q + q') (k + k') := by
  obtain ⟨predicates, subqueries, keys, unpaged⟩ := first
  obtain ⟨predicates', subqueries', keys', unpaged'⟩ := second
  refine ⟨?_, ?_, ?_, ?_⟩ <;> simp only [List.count_append] <;> omega

theorem all {members : List Expr}
    (each : ∀ e ∈ members, Counted (e.landmarks d) e.predicateCount e.subqueryCount 0) :
    Counted (Expr.listLandmarks d members) (Expr.listPredicateCount members) (Expr.listSubqueryCount members) 0 := by
  induction members with
  | nil => exact nothing
  | cons e rest ih =>
    rw [List.forall_mem_cons] at each
    exact each.1.append (ih each.2)

-- Each join is tied by two columns.
theorem joins {joins : List Join} (joined : ∀ j ∈ joins, Expr.Tied j.condition) :
    Counted (Select.joinLandmarks d joins) 0 joins.length 0 := by
  induction joins with
  | nil => exact nothing
  | cons j rest ih =>
    obtain ⟨kind, table, binding, condition⟩ := j
    rw [List.forall_mem_cons] at joined
    obtain ⟨⟨parent, name, link, rfl⟩, others⟩ := joined
    have own : Counted [.joined, .column, .column] 0 1 0 := ⟨rfl, rfl, rfl, rfl, rfl⟩
    have both := own.append (ih others)
    rwa [Nat.zero_add, Nat.add_comm] at both

-- A subquery counts for its correlation, which has two columns.
theorem within {joins : List Join} {rest : List Expr} (table binding parent name : String) (link : Link)
    (joined : ∀ j ∈ joins, Expr.Tied j.condition)
    (each : ∀ e ∈ rest, Counted (e.landmarks d) e.predicateCount e.subqueryCount 0) :
    Counted (Select.landmarks d
      ⟨table, binding, [.template ⟨"1", []⟩ []], joins, correlation parent name link :: rest, [], none, none⟩)
      (1 + Expr.listPredicateCount rest) (1 + (joins.length + Expr.listSubqueryCount rest)) 0 := by
  have unpaged : d.pageLandmarks none none = [] := by cases d <;> rfl
  have own : Counted [.source, .column, .column] 1 1 0 := ⟨rfl, rfl, rfl, rfl, rfl⟩
  have whole := own.append ((Counted.joins (d := d) joined).append (.all each))
  rw [Nat.zero_add] at whole
  refine whole.perm ?_
  simp only [Select.landmarks, Expr.listLandmarks, Expr.landmarks, Select.orderLandmarks, unpaged, correlation,
    List.nil_append, List.append_nil, List.cons_append, List.perm_cons]
  exact (List.perm_middle.trans (List.perm_middle.cons _)).symm

end Counted

theorem Expr.Woven.counted {d : Dialect} {e : Expr} (woven : e.Woven d) :
    Counted (e.landmarks d) e.predicateCount e.subqueryCount 0 := by
  induction woven with
  | test simple =>
    rw [simple.bears.landmarks, simple.predicates, simple.bears.subqueries]
    exact ⟨rfl, rfl, rfl, rfl, rfl⟩
  | constant b => exact .nothing
  | and each ih => exact .all ih
  | or each ih => exact .all ih
  | not inner ih => exact ih
  | notTrue inner ih => exact ih
  | @rows _ _ _ table binding tied joined each negated ih =>
    obtain ⟨parent, name, link, rfl⟩ := tied
    have whole := Counted.within table binding parent name link joined ih
    simpa [Expr.landmarks, Expr.predicateCount, Expr.selectPredicateCount, Expr.listPredicateCount, Expr.subqueryCount,
      Expr.selectJoinCount, Expr.listSubqueryCount, Expr.ordersSubqueryCount, correlation] using whole

-- A key to sort by: a column, or the least or greatest value of the related rows.
inductive Expr.Key : Expr → Prop
  | field (table : Option String) (name : String) : Key (.column table name)
  | related (parent binding : String) (link : Link) (related : Queryable) (column : String) (direction : Direction) :
    Key (.scalar (CompiledQuery.aggregateSelect parent binding link related column direction))

namespace Expr.Key

variable {d : Dialect} {e : Expr}

theorem plain (key : e.Key) : e.Plain d ∧ e.KeyCalm d := by
  cases key with
  | field table name => exact ⟨trivial, trivial⟩
  | related parent binding link related column direction =>
    have extreme : d.plain direction.aggregate = true := by cases direction <;> cases d <;> rfl
    have tied := Woven.tied_plain (d := d) ⟨parent, binding, link, rfl⟩
    exact ⟨⟨⟨⟨extreme, trivial, trivial⟩, trivial⟩, trivial, ⟨tied.1, trivial⟩, trivial⟩,
      ⟨.extreme .., trivial, ⟨tied.2, trivial⟩, trivial⟩⟩

theorem counted (key : e.Key) (direction : Direction) (nulls : Nulls) :
    Counted (Select.orderLandmarks d [⟨e, direction, nulls⟩]) 0 e.subqueryCount 1 := by
  rw [Select.orderLandmarks, Select.orderLandmarks]
  cases key with
  | field table name =>
    rw [landmarks, keyLandmark]
    split <;> exact ⟨rfl, rfl, rfl, rfl, rfl⟩
  | related parent binding link related column extreme =>
    have inner : (CompiledQuery.aggregateSelect parent binding link related column extreme).landmarks d =
        [.aggregate, .column, .source, .column, .column] := by
      cases extreme <;> cases d <;> rfl
    have own : subqueryCount (.scalar (CompiledQuery.aggregateSelect parent binding link related column extreme)) = 1 :=
      rfl
    have kind : keyLandmark (.scalar (CompiledQuery.aggregateSelect parent binding link related column extreme)) =
        .relatedKey := rfl
    rw [landmarks, kind, inner, own]
    split <;> exact ⟨rfl, rfl, rfl, rfl, rfl⟩

end Expr.Key

theorem Counted.orders {d : Dialect} {orders : List SortKey} (each : ∀ key ∈ orders, key.expr.Key) :
    Counted (Select.orderLandmarks d orders) 0 (Expr.ordersSubqueryCount orders) orders.length := by
  induction orders with
  | nil => exact nothing
  | cons first rest ih =>
    obtain ⟨e, direction, nulls⟩ := first
    rw [List.forall_mem_cons] at each
    have whole := (each.1.counted (d := d) direction nulls).append (ih each.2)
    rw [Nat.add_comm 1] at whole
    simpa [Select.orderLandmarks, Expr.ordersSubqueryCount] using whole

-- Each count of a page is a value of its own.
theorem Dialect.pageLandmarks_exact (d : Dialect) (limit offset : Option Nat) :
    (∀ l, l ≠ .limit → l ≠ .offset → (d.pageLandmarks limit offset).count l = 0) ∧
      (d.pageLandmarks limit offset).count .limit = limit.isSome.toNat ∧
      (d.pageLandmarks limit offset).count .limit + (d.pageLandmarks limit offset).count .offset =
        (d.pageValues limit offset).length := by
  refine ⟨?_, ?_⟩
  · intro l limited paged
    refine List.count_eq_zero.mpr fun member => ?_
    cases d <;> cases limit <;> cases offset <;> simp_all [pageLandmarks]
  · cases d <;> cases limit <;> cases offset <;> exact ⟨rfl, rfl⟩

-- A statement over all columns of its rows.
structure Select.Woven (d : Dialect) (s : Select) : Prop where
  columns : s.columns = []
  joins : ∀ j ∈ s.joins, Expr.Tied j.condition
  conditions : ∀ e ∈ s.conditions, e.Woven d
  orders : ∀ key ∈ s.orders, key.expr.Key

-- What the landmarks tell of such a statement.
structure Select.Measured (d : Dialect) (found : List Landmark) (s : Select) : Prop where
  predicates : found.count .column + 1 = s.predicateCount + found.count .source + 2 * found.count .joined +
    found.count .aggregate + found.count .nullsKey + found.count .fieldKey + found.count .relatedKey
  joins : s.joinCount + found.count .aggregate + 1 = found.count .source + found.count .joined + found.count .relatedKey
  orders : s.orders.length = found.count .fieldKey + found.count .relatedKey
  limit : found.count .limit = s.limit.isSome.toNat
  page : found.count .limit + found.count .offset = (d.pageValues s.limit s.offset).length

namespace Select.Woven

variable {d : Dialect} {s t : Select}

theorem orders_plain {orders : List SortKey} (each : ∀ key ∈ orders, key.expr.Key) :
    Select.OrdersPlain d orders ∧ Select.OrdersCalm d orders := by
  induction orders with
  | nil => exact ⟨trivial, trivial⟩
  | cons first rest ih =>
    obtain ⟨e, direction, nulls⟩ := first
    rw [List.forall_mem_cons] at each
    exact ⟨⟨each.1.plain.1, (ih each.2).1⟩, ⟨each.1.plain.2, (ih each.2).2⟩⟩

theorem plain (woven : s.Woven d) : s.Plain d ∧ s.Calm d := by
  obtain ⟨table, binding, columns, joins, conditions, orders, limit, offset⟩ := s
  obtain ⟨rfl, joined, each, keys⟩ := woven
  have ties := Expr.Woven.joins_plain (d := d) joined
  have tests := Expr.Woven.all_plain fun e member => (each e member).plain
  have sorts := orders_plain (d := d) keys
  exact ⟨⟨trivial, ties.1, tests.1, sorts.1⟩, ⟨.row, ties.2, tests.2, sorts.2⟩⟩

theorem measured (woven : s.Woven d) : s.Measured d (s.landmarks d) := by
  obtain ⟨table, binding, columns, joins, conditions, orders, limit, offset⟩ := s
  obtain ⟨rfl, joined, each, keys⟩ := woven
  have tied : Counted (Select.joinLandmarks d joins) 0 joins.length 0 := .joins joined
  have tested := tied.append (.all fun e (member : e ∈ conditions) => (each e member).counted)
  have sorts : Counted (Select.orderLandmarks d orders) 0 (Expr.ordersSubqueryCount orders) orders.length :=
    .orders keys
  have counted := tested.append sorts
  generalize whole : Select.joinLandmarks d joins ++ Expr.listLandmarks d conditions ++
    Select.orderLandmarks d orders = body at counted
  obtain ⟨predicates, subqueries, sorted, unlimited, unpaged⟩ := counted
  obtain ⟨others, limits, values⟩ := d.pageLandmarks_exact limit offset
  -- The statement has a source of its own before its joins, and its page behind its keys.
  have parts : Select.landmarks d ⟨table, binding, [], joins, conditions, orders, limit, offset⟩ =
      [.source] ++ (body ++ d.pageLandmarks limit offset) := by
    simp only [← whole, Select.landmarks, Expr.listLandmarks, List.nil_append, List.append_assoc]
  rw [parts]
  refine ⟨?_, ?_, ?_, ?_, ?_⟩
  all_goals
    simp (disch := decide) only [List.count_append, List.count_singleton, others, Select.predicateCount,
      Expr.selectPredicateCount, Select.joinCount, Expr.selectJoinCount, beq_iff_eq, reduceCtorEq, if_false, if_true]
    omega

-- Statements of one text have the same counts, and write as many counts of a page.
theorem counts_of_text (woven : s.Woven d) (woven' : t.Woven d) (same : (s.build d).sql = (t.build d).sql) :
    s.predicateCount = t.predicateCount ∧ s.joinCount = t.joinCount ∧ s.orders.length = t.orders.length ∧
      s.limit.isSome = t.limit.isSome ∧
      (d.pageValues s.limit s.offset).length = (d.pageValues t.limit t.offset).length := by
  have landmarks : s.landmarks d = t.landmarks d := by
    rw [← landmarks_shown woven.plain.1 woven.plain.2, same, landmarks_shown woven'.plain.1 woven'.plain.2]
  obtain ⟨predicates, joins, orders, limit, page⟩ := woven.measured
  obtain ⟨predicates', joins', orders', limit', page'⟩ := woven'.measured
  rw [← landmarks] at predicates' joins' orders' limit' page'
  refine ⟨by omega, by omega, by omega, ?_, by omega⟩
  have bits := limit.symm.trans limit'
  cases given : s.limit.isSome <;> cases given' : t.limit.isSome <;> simp_all

end Select.Woven
end FilterQuery
