import FilterQuery.Proofs.Truth
import FilterQuery.Query.Compiled

namespace FilterQuery

-- A column that is named outside the subqueries, or a subquery.
inductive Read where
  | column (table : Option String) (name : String)
  -- Whether the subquery finds a row.
  | rows (query : Select)
  -- The value that the subquery gives.
  | scalar (query : Select)

namespace Expr

mutual
def reads : Expr → List Read
  | column table name => [.column table name]
  | value _ => []
  | binary left _ right => left.reads ++ right.reads
  | inList e list _ => e.reads ++ listReads list
  | isNull e _ => e.reads
  | and members => listReads members
  | or members => listReads members
  | not e => e.reads
  | notTrue e => e.reads
  | func _ args => listReads args
  | template _ args => listReads args
  | existsIn query _ => [.rows query]
  | scalar query => [.scalar query]
  | constant _ => []

def listReads : List Expr → List Read
  | [] => []
  | e :: rest => e.reads ++ listReads rest
end

variable {x : Read} (e left right : Expr) (list : List Expr)

@[simp] theorem reads_column (table : Option String) (name : String) :
    (column table name).reads = [.column table name] := rfl

@[simp] theorem reads_value (v : Value) : (value v).reads = [] := rfl

@[simp] theorem reads_binary (op : BinOp) : (binary left op right).reads = left.reads ++ right.reads := rfl

@[simp] theorem reads_inList (negated : Bool) : (inList e list negated).reads = e.reads ++ listReads list := rfl

@[simp] theorem reads_isNull (negated : Bool) : (isNull e negated).reads = e.reads := rfl

@[simp] theorem reads_not : (not e).reads = e.reads := rfl

@[simp] theorem reads_func (name : String) : (func name list).reads = listReads list := rfl

@[simp] theorem reads_template (text : Template) : (template text list).reads = listReads list := rfl

@[simp] theorem reads_constant (b : Bool) : (constant b).reads = [] := rfl

@[simp] theorem listReads_nil : listReads [] = [] := rfl

@[simp] theorem listReads_cons : listReads (e :: list) = e.reads ++ listReads list := rfl

theorem mem_listReads {members : List Expr} : x ∈ listReads members ↔ ∃ e ∈ members, x ∈ e.reads := by
  induction members with
  | nil => simp
  | cons e rest ih => simp [ih]

theorem reads_negate (e : Expr) : e.negate.reads = e.reads := by
  cases e with
  | binary left op right =>
    rw [negate]
    split <;> rfl
  | _ => rfl

theorem reads_violation (e : Expr) : e.violation.reads = e.reads := by
  cases e <;> rfl

theorem mem_reads_andParts {e part : Expr} (among : part ∈ e.andParts) (read : x ∈ part.reads) : x ∈ e.reads := by
  unfold andParts at among
  split at among
  · cases among
  · exact mem_listReads.mpr ⟨part, among, read⟩
  · rw [List.mem_singleton.mp among] at read
    exact read

theorem mem_reads_orParts {e part : Expr} (among : part ∈ e.orParts) (read : x ∈ part.reads) : x ∈ e.reads := by
  unfold orParts at among
  split at among
  · cases among
  · exact mem_listReads.mpr ⟨part, among, read⟩
  · rw [List.mem_singleton.mp among] at read
    exact read

theorem mem_reads_conjunction {members : List Expr} (read : x ∈ (conjunction members).reads) :
    ∃ e ∈ members, x ∈ e.reads := by
  match members with
  | [] => cases read
  | [e] => exact ⟨e, List.mem_singleton.mpr rfl, read⟩
  | e :: next :: rest => exact mem_listReads.mp read

theorem mem_reads_disjunction {members : List Expr} (read : x ∈ (disjunction members).reads) :
    ∃ e ∈ members, x ∈ e.reads := by
  match members with
  | [] => cases read
  | [e] => exact ⟨e, List.mem_singleton.mpr rfl, read⟩
  | e :: next :: rest => exact mem_listReads.mp read

theorem mem_reads_all {members : List Expr} (read : x ∈ (all members).reads) : ∃ e ∈ members, x ∈ e.reads := by
  unfold all at read
  split at read
  · cases read
  · obtain ⟨part, among, read⟩ := mem_reads_conjunction read
    obtain ⟨e, member, among⟩ := List.mem_flatMap.mp among
    exact ⟨e, member, mem_reads_andParts among read⟩

theorem mem_reads_any {members : List Expr} (read : x ∈ (any members).reads) : ∃ e ∈ members, x ∈ e.reads := by
  unfold any at read
  split at read
  · cases read
  · obtain ⟨part, among, read⟩ := mem_reads_disjunction read
    obtain ⟨e, member, among⟩ := List.mem_flatMap.mp among
    exact ⟨e, member, mem_reads_orParts among read⟩

mutual
theorem mem_reads_conjuncts (e : Expr) {part : Expr} (among : part ∈ e.conjuncts) (read : x ∈ part.reads) :
    x ∈ e.reads := by
  cases e with
  | constant b =>
    cases b with
    | true => cases among
    | false =>
      rw [List.mem_singleton.mp among] at read
      exact read
  | and members => exact mem_listReads_conjuncts members among read
  | _ =>
    rw [List.mem_singleton.mp among] at read
    exact read

theorem mem_listReads_conjuncts (members : List Expr) {part : Expr} (among : part ∈ listConjuncts members)
    (read : x ∈ part.reads) : x ∈ listReads members := by
  cases members with
  | nil => cases among
  | cons e rest =>
    rw [listReads]
    rcases List.mem_append.mp among with here | later
    · exact List.mem_append_left _ (mem_reads_conjuncts e here read)
    · exact List.mem_append_right _ (mem_listReads_conjuncts rest later read)
end

end Expr

-- The reads of a predicate; clauses of search requests read no tables.
def Predicate.reads : Predicate → List Read
  | sql e => e.reads
  | search _ => []

namespace Predicate

theorem reads_negate (p : Predicate) : p.negate.reads = p.reads := by
  cases p with
  | sql e => exact e.reads_negate
  | search c => rfl

theorem mem_reads_join {x : Read} {members : List Predicate} (kind : QueryKind) (op : Connective)
    (read : x ∈ (join kind op members).reads) : ∃ p ∈ members, x ∈ p.reads := by
  have given : ∀ {e : Expr}, e ∈ members.filterMap expr? → x ∈ e.reads → ∃ p ∈ members, x ∈ p.reads := by
    intro e among read
    obtain ⟨p, member, same⟩ := List.mem_filterMap.mp among
    cases p with
    | sql own =>
      cases Option.some.inj same
      exact ⟨_, member, read⟩
    | search c => cases same
  cases kind with
  | search => cases op <;> cases read
  | sql =>
    cases op with
    | and =>
      obtain ⟨e, among, read⟩ := Expr.mem_reads_all read
      exact given among read
    | or =>
      obtain ⟨e, among, read⟩ := Expr.mem_reads_any read
      exact given among read

end Predicate

namespace Select

-- What is written in a SELECT outside its subqueries.
def exprs (s : Select) : List Expr :=
  s.columns ++ s.joins.map Join.condition ++ s.conditions ++ s.orders.map SortKey.expr

-- What its tables are addressed under.
def names (s : Select) : List String := s.binding :: s.joins.map Join.binding

-- The SELECTs at any depth, each with the names of those around it.
inductive Holds (s : Select) : List String → Select → Prop
  | self : Holds s [] s
  | inner (outer : Holds s around t) (written : e ∈ t.exprs) (read : .rows u ∈ e.reads ∨ .scalar u ∈ e.reads) :
      Holds s (t.names ++ around) u

end Select

def Select.tests (s : Select) : List Expr := s.conditions ++ s.orders.map SortKey.expr

-- A column without a qualifier is of the binding without text. Of a subquery the conditions and the sort keys
-- count.
inductive Read.Mentions (name : String) : Read → Prop
  | column (named : table.getD "" = name) : Mentions name (.column table field)
  | rows (written : e ∈ query.tests) (read : x ∈ e.reads) (inner : Mentions name x) : Mentions name (.rows query)
  | scalar (written : e ∈ query.tests) (read : x ∈ e.reads) (inner : Mentions name x) : Mentions name (.scalar query)

namespace Read

variable {name : String}

theorem mentions_column : (column table field).Mentions name ↔ table.getD "" = name := by
  constructor
  · rintro ⟨named⟩
    exact named
  · exact .column

theorem mentions_rows {query : Select} :
    (rows query).Mentions name ↔ ∃ e ∈ query.tests, ∃ x ∈ e.reads, x.Mentions name := by
  constructor
  · rintro ⟨⟩
    exact ⟨_, ‹_›, _, ‹_›, ‹_›⟩
  · rintro ⟨e, written, x, read, inner⟩
    exact .rows written read inner

end Read

def Expr.Mentions (name : String) (e : Expr) : Prop := ∃ x ∈ e.reads, x.Mentions name

def Predicate.Mentions (name : String) (p : Predicate) : Prop := ∃ x ∈ p.reads, x.Mentions name

namespace Select

inductive Needs (s : Select) : Join → Prop
  | read (member : j ∈ s.joins) (written : e ∈ s.tests) (mentioned : e.Mentions j.binding) : Needs s j
  -- The condition of another join that is needed names it.
  | passed (member : j ∈ s.joins) (needed : s.Needs k) (other : k ≠ j) (mentioned : k.condition.Mentions j.binding) :
    Needs s j

theorem Needs.member {s : Select} (needed : s.Needs j) : j ∈ s.joins := by
  cases needed <;> assumption

-- A need starts from a test.
theorem Needs.tested {s : Select} (needed : s.Needs j) : s.tests ≠ [] := by
  induction needed with
  | read _ written _ => exact List.ne_nil_of_mem written
  | passed _ _ _ _ ih => exact ih

-- Nothing is joined that is not needed, at any depth.
def Economical (s : Select) : Prop := ∀ around t, s.Holds around t → ∀ j ∈ t.joins, t.Needs j

variable {s t u : Select} {e : Expr}

theorem Holds.within (written : e ∈ s.exprs) (read : .rows u ∈ e.reads ∨ .scalar u ∈ e.reads)
    (holds : u.Holds around t) :
    ∃ outer, s.Holds outer t := by
  induction holds with
  | self => exact ⟨_, .inner .self written read⟩
  | inner _ deeper inside ih =>
    obtain ⟨_, outer⟩ := ih
    exact ⟨_, .inner outer deeper inside⟩

theorem Holds.outermost (holds : s.Holds around t) : t = s ∨ ∃ e ∈ s.exprs, ∃ u,
    (.rows u ∈ e.reads ∨ .scalar u ∈ e.reads) ∧ ∃ inner, u.Holds inner t := by
  induction holds with
  | self => exact .inl rfl
  | inner _ deeper inside ih =>
    rcases ih with rfl | ⟨e, written, u, read, _, outer⟩
    · exact .inr ⟨_, deeper, _, inside, _, .self⟩
    · exact .inr ⟨e, written, u, read, _, .inner outer deeper inside⟩

theorem economical_exact : s.Economical ↔ (∀ j ∈ s.joins, s.Needs j) ∧
    ∀ e ∈ s.exprs, ∀ u, .rows u ∈ e.reads ∨ .scalar u ∈ e.reads → u.Economical := by
  constructor
  · intro economical
    refine ⟨economical _ _ .self, ?_⟩
    intro e written u read around t holds
    obtain ⟨_, outer⟩ := holds.within written read
    exact economical _ _ outer
  · rintro ⟨here, inside⟩ around t holds
    rcases holds.outermost with rfl | ⟨e, written, u, read, _, deeper⟩
    · exact here
    · exact inside e written u read _ _ deeper

-- Where no SELECT is read in the columns and in the conditions of the joins, it is a matter of the tests.
theorem economical_of_tests (bare : ∀ e ∈ s.columns, e.reads = [])
    (tied : ∀ j ∈ s.joins, ∀ u, .rows u ∉ j.condition.reads ∧ .scalar u ∉ j.condition.reads) :
    s.Economical ↔ (∀ j ∈ s.joins, s.Needs j) ∧
      ∀ e ∈ s.tests, ∀ u, .rows u ∈ e.reads ∨ .scalar u ∈ e.reads → u.Economical := by
  rw [economical_exact]
  refine and_congr_right fun _ => ⟨?_, ?_⟩
  · intro inside e written
    refine inside e ?_
    simpa only [exprs, tests, List.mem_append, List.append_assoc] using .inr (.inr (List.mem_append.mp written))
  · intro inside e written u read
    simp only [exprs, List.mem_append, List.mem_map, or_assoc] at written
    rcases written with column | ⟨j, member, rfl⟩ | condition | order
    · simp [bare e column] at read
    · exact (read.elim (tied j member u).1 (tied j member u).2).elim
    · exact inside e (List.mem_append_left _ condition) u read
    · exact inside e (List.mem_append_right _ (List.mem_map.mpr order)) u read

end Select

def Predicate.Economical (p : Predicate) : Prop := ∀ u, .rows u ∈ p.reads ∨ .scalar u ∈ p.reads → u.Economical

end FilterQuery
