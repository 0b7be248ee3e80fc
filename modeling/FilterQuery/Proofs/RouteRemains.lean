import FilterQuery.Proofs.LeafTests
import FilterQuery.Proofs.SelectNames

namespace FilterQuery

namespace Route

variable {c : FilterContext}

-- Whether the predicate of the route is no constant.
def lasts (c : FilterContext) (scope : Scope) (q : CompiledQuery) (route : Route) : Bool :=
  (route.gives? c scope q).any fun p => decide p.Undecided

theorem lasts_exact {route : Route} {scope : Scope} {q base joined : CompiledQuery} {p : Predicate}
    (same : q.dialect? = base.dialect?) (compiled : route.compile c scope q = .ok (p, joined)) :
    route.lasts c scope base = true ↔ p.Undecided := by
  rw [lasts, ← gives_of_dialect route same, gives_exact.mpr ⟨joined, compiled⟩]
  simp

mutual
-- The paths that what is left names in the SELECT around it. A subquery names the row that it is looked up for.
def left (c : FilterContext) (scope : Scope) (q : CompiledQuery) : Route → List FieldPath
  | test l => if (test l).lasts c scope q then [scope.path] else []
  | negate inner => inner.left c scope q
  | join op parts => if (join op parts).lasts c scope q then allLeft c scope q parts else []
  | through head inner =>
    match c.resolver.cross? c.adapter scope.queryable head with
    | none => []
    | some hop =>
      match hop.link.cardinality with
      | .one => inner.left c (scope.enter q head hop) q
      | .many => [scope.path]

def allLeft (c : FilterContext) (scope : Scope) (q : CompiledQuery) : List Route → List FieldPath
  | [] => []
  | part :: rest => part.left c scope q ++ allLeft c scope q rest
end

mutual
-- The SELECTs of to-many associations that are left, at any depth: where each starts and what is walked there.
def opened (c : FilterContext) (scope : Scope) (q : CompiledQuery) : Route → List (Scope × Route)
  | test _ => []
  | negate inner => inner.opened c scope q
  | join op parts => if (join op parts).lasts c scope q then allOpened c scope q parts else []
  | through head inner =>
    match c.resolver.cross? c.adapter scope.queryable head with
    | none => []
    | some hop =>
      match hop.link.cardinality with
      | .one => inner.opened c (scope.enter q head hop) q
      | .many => (scope.enter q head hop, inner) :: inner.opened c (scope.enter q head hop) q

def allOpened (c : FilterContext) (scope : Scope) (q : CompiledQuery) : List Route → List (Scope × Route)
  | [] => []
  | part :: rest => part.opened c scope q ++ allOpened c scope q rest
end

-- Whatever is joined here is on the way to something that is left.
def Covers (c : FilterContext) (root : Queryable) (q : CompiledQuery) (scope : Scope) (route : Route) : Prop :=
  ∀ b ∈ route.wants c root scope q, ∃ path ∈ route.left c scope q, path.Below b.path

section Crossing

variable {root : Queryable} {scope : Scope} {q : CompiledQuery} (inner : Route)

theorem wants_one (crossed : c.resolver.cross? c.adapter scope.queryable head = some hop)
    (one : hop.link.cardinality = .one) : (through head inner).wants c root scope q =
      Bound.of root scope [] q head hop :: inner.wants c root (scope.enter q head hop) q := by
  rw [wants, crossed]
  simp only [one]

theorem wants_many (crossed : c.resolver.cross? c.adapter scope.queryable head = some hop)
    (many : hop.link.cardinality = .many) : (through head inner).wants c root scope q = [] := by
  rw [wants, crossed]
  simp only [many]

theorem left_one (crossed : c.resolver.cross? c.adapter scope.queryable head = some hop)
    (one : hop.link.cardinality = .one) :
    (through head inner).left c scope q = inner.left c (scope.enter q head hop) q := by
  rw [left, crossed]
  simp only [one]

theorem left_many (crossed : c.resolver.cross? c.adapter scope.queryable head = some hop)
    (many : hop.link.cardinality = .many) : (through head inner).left c scope q = [scope.path] := by
  rw [left, crossed]
  simp only [many]

theorem opened_one (crossed : c.resolver.cross? c.adapter scope.queryable head = some hop)
    (one : hop.link.cardinality = .one) :
    (through head inner).opened c scope q = inner.opened c (scope.enter q head hop) q := by
  rw [opened, crossed]
  simp only [one]

theorem opened_many (crossed : c.resolver.cross? c.adapter scope.queryable head = some hop)
    (many : hop.link.cardinality = .many) : (through head inner).opened c scope q =
      (scope.enter q head hop, inner) :: inner.opened c (scope.enter q head hop) q := by
  rw [opened, crossed]
  simp only [many]

end Crossing
end Route

-- To-one associations all the way from the scope.
def Scope.Leads (r : Resolver) (a : Adapter) (scope : Scope) (path : FieldPath) : Prop :=
  ∃ rest, path.segments = scope.path.segments ++ rest ∧ r.ToOne a scope.queryable rest

namespace Scope.Leads

variable {r : Resolver} {a : Adapter} {scope : Scope} {q : CompiledQuery} {path : FieldPath}

theorem segments_child {above : FieldPath} {name : String} {rest : List String} :
    (above.child name).segments ++ rest = above.segments ++ name :: rest := by
  rw [FieldPath.child, List.append_assoc, List.singleton_append]

theorem enter (crossed : r.cross? a scope.queryable head = some hop) (one : hop.link.cardinality = .one) :
    (scope.enter q head hop).Leads r a path ↔ scope.Leads r a path ∧ path.Below (scope.path.child head) := by
  constructor
  · rintro ⟨rest, shape, along⟩
    exact ⟨⟨head :: rest, shape.trans segments_child, hop, crossed, one, along⟩, rest, shape⟩
  · rintro ⟨⟨rest, shape, along⟩, further, shape'⟩
    rw [shape, segments_child, List.append_cancel_left_eq] at shape'
    subst shape'
    obtain ⟨hop', crossed', _, along⟩ := along
    cases crossed.symm.trans crossed'
    exact ⟨further, shape.trans segments_child.symm, along⟩

theorem not_many (crossed : r.cross? a scope.queryable head = some hop) (many : hop.link.cardinality = .many)
    (below : path.Below (scope.path.child head)) : ¬scope.Leads r a path := by
  rintro ⟨rest, shape, along⟩
  obtain ⟨further, shape'⟩ := below
  rw [shape, segments_child, List.append_cancel_left_eq] at shape'
  subst shape'
  obtain ⟨hop', crossed', one, _⟩ := along
  cases crossed.symm.trans crossed'
  rw [many] at one
  cases one

end Scope.Leads

-- What is bound from the scope, each after what it follows from.
structure Strung (r : Resolver) (base : CompiledQuery) (root : Queryable) (scope : Scope) (paths : List FieldPath)
    (bs : List Bound) : Prop where
  byPath : ∀ b ∈ bs, b.root = root ∧ b.ByPath r base
  leads : ∀ b ∈ bs, b.path ∈ paths ∧ scope.Leads r root.adapter b.path
  follows : ∀ b ∈ bs, ∃ before name, b.path = before.child name ∧
    (before = scope.path ∨ ∃ near ∈ bs, near.path = before)

namespace Strung

variable {r : Resolver} {base : CompiledQuery} {root : Queryable} {scope : Scope} {paths paths' : List FieldPath}
  {bs bs' : List Bound}

theorem none : Strung r base root scope paths [] := ⟨by simp, by simp, by simp⟩

theorem append (first : Strung r base root scope paths bs) (second : Strung r base root scope paths' bs') :
    Strung r base root scope (paths ++ paths') (bs ++ bs') := by
  refine ⟨?_, ?_, ?_⟩ <;> intro b member <;> rcases List.mem_append.mp member with here | later
  · exact first.byPath b here
  · exact second.byPath b later
  · exact (first.leads b here).imp_left (List.mem_append_left _)
  · exact (second.leads b later).imp_left (List.mem_append_right _)
  · obtain ⟨before, name, shape, own⟩ := first.follows b here
    exact ⟨before, name, shape, own.imp_right fun ⟨near, known, same⟩ => ⟨near, List.mem_append_left _ known, same⟩⟩
  · obtain ⟨before, name, shape, own⟩ := second.follows b later
    exact ⟨before, name, shape, own.imp_right fun ⟨near, known, same⟩ => ⟨near, List.mem_append_right _ known, same⟩⟩

theorem enter_one (placed : scope.Placed r root.adapter root base)
    (crossed : r.cross? root.adapter scope.queryable head = some hop) (one : hop.link.cardinality = .one)
    (deeper : Strung r base root (scope.enter base head hop) paths bs) :
    Strung r base root scope (scope.path.child head :: paths) (Bound.of root scope [] base head hop :: bs) := by
  have here : scope.Leads r root.adapter (scope.path.child head) := ⟨[head], rfl, hop, crossed, one, trivial⟩
  refine ⟨?_, ?_, ?_⟩ <;> intro b member <;> rcases List.mem_cons.mp member with rfl | among
  · exact ⟨rfl, scope.path, head, scope.queryable, rfl, placed.reached, crossed, placed.bound, rfl⟩
  · exact deeper.byPath b among
  · exact ⟨List.mem_cons_self .., here⟩
  · obtain ⟨known, along⟩ := deeper.leads b among
    exact ⟨List.mem_cons_of_mem _ known, ((Scope.Leads.enter crossed one).mp along).1⟩
  · exact ⟨scope.path, head, rfl, .inl rfl⟩
  · obtain ⟨before, name, shape, rfl | ⟨near, known, same⟩⟩ := deeper.follows b among
    · exact ⟨_, name, shape, .inr ⟨_, List.mem_cons_self .., rfl⟩⟩
    · exact ⟨before, name, shape, .inr ⟨near, List.mem_cons_of_mem _ known, same⟩⟩

end Strung

theorem qualifier_text (binding : String) : (qualifier binding).getD "" = binding := by
  unfold qualifier
  split
  · rename_i empty
    rw [String.isEmpty_iff.mp empty]
    rfl
  · rfl

theorem correlation_mentions {name parent binding : String} {link : Link} :
    (correlation parent binding link).Mentions name ↔ name = binding ∨ name = parent := by
  unfold Expr.Mentions
  simp only [mem_correlation_reads, or_and_right, exists_or, exists_eq_left, Read.mentions_column, Option.getD_some,
    eq_comm (a := name)]

theorem related_mentions {name parent binding : String} {hop : Hop} {joins : List Join} {rest : List Expr} :
    (Read.rows (.related parent binding hop joins rest)).Mentions name ↔
      (name = binding ∨ name = parent) ∨ ∃ part ∈ rest, part.Mentions name := by
  have tests : (Select.related parent binding hop joins rest).tests = correlation parent binding hop.link :: rest :=
    List.append_nil _
  rw [Read.mentions_rows, tests]
  simp only [List.mem_cons, exists_eq_or_imp]
  exact or_congr correlation_mentions Iff.rfl

theorem Expr.mem_conjuncts_reads {e : Expr} {x : Read} : (∃ part ∈ e.conjuncts, x ∈ part.reads) ↔ x ∈ e.reads := by
  constructor
  · rintro ⟨part, among, read⟩
    exact mem_reads_conjuncts e among read
  · exact reads_conjuncts e

theorem CompiledQuery.dialect_openScope (q : CompiledQuery) (related : Queryable) (binding : String) :
    (q.openScope related binding).dialect? = q.dialect? := by
  cases q <;> rfl

-- The SELECT that is closed holds what its predicate reads, and the correlation.
theorem CompiledQuery.closeScope_reads {below q : CompiledQuery} {parent binding : String} {hop : Hop}
    {mode : ToManyMode} {plain p : Predicate} (sql : q.kind = .sql)
    (opened : below.unjoined = (q.openScope hop.related binding).unjoined)
    (closed : below.closeScope? parent binding hop.link plain mode = some p) :
    ∃ rest, p.reads = [.rows (.related parent binding hop below.joins rest)] ∧
      ∀ x, (∃ part ∈ rest, x ∈ part.reads) ↔ x ∈ plain.reads := by
  cases q with
  | search r => cases sql
  | sql d s =>
    cases below with
    | search r => cases opened
    | sql d' s' =>
      cases plain with
      | search clause => cases closed
      | sql e =>
        cases Option.some.inj closed
        obtain ⟨table, name, columns, joins, conditions, orders, limit, offset⟩ := s'
        simp only [unjoined, openScope, Select.new, CompiledQuery.sql.injEq, Select.mk.injEq, true_and] at opened
        obtain ⟨-, rfl, rfl, rfl, rfl, rfl, rfl, rfl⟩ := opened
        cases mode with
        | anyMatch => exact ⟨e.conjuncts, rfl, fun x => Expr.mem_conjuncts_reads⟩
        | allMatch =>
          refine ⟨e.violation.conjuncts, rfl, fun x => ?_⟩
          rw [Expr.mem_conjuncts_reads, Expr.reads_violation]
          rfl

namespace Route

variable {c : FilterContext} {root : Queryable} {base : CompiledQuery}

mutual
theorem wants_strung (route : Route) {scope : Scope} (served : c.adapter = root.adapter)
    (placed : scope.Placed c.resolver root.adapter root base) :
    Strung c.resolver base root scope (route.hops scope.path) (route.wants c root scope base) := by
  cases route with
  | test l => exact .none
  | negate inner => exact wants_strung inner served placed
  | join op parts => exact allWants_strung parts served placed
  | through head inner =>
    rw [wants, hops]
    cases crossed : c.resolver.cross? c.adapter scope.queryable head with
    | none => exact .none
    | some hop =>
      cases cardinality : hop.link.cardinality with
      | many =>
        simp only [cardinality]
        exact .none
      | one =>
        simp only [cardinality]
        rw [served] at crossed
        exact .enter_one placed crossed cardinality (wants_strung inner served (placed.enter_placed crossed rfl))

theorem allWants_strung (parts : List Route) {scope : Scope} (served : c.adapter = root.adapter)
    (placed : scope.Placed c.resolver root.adapter root base) :
    Strung c.resolver base root scope (listHops scope.path parts) (allWants c root scope base parts) := by
  cases parts with
  | nil => exact .none
  | cons part rest => exact .append (wants_strung part served placed) (allWants_strung rest served placed)
end

mutual
-- What is left names the row that the scope starts from, or what is joined on the way from it.
theorem left_wanted (route : Route) (root : Queryable) {scope : Scope} {q : CompiledQuery} {path : FieldPath}
    (kept : path ∈ route.left c scope q) : path = scope.path ∨ ∃ b ∈ route.wants c root scope q, b.path = path := by
  cases route with
  | test l =>
    rw [left] at kept
    split at kept
    · exact .inl (List.mem_singleton.mp kept)
    · cases kept
  | negate inner => exact left_wanted inner root kept
  | join op parts =>
    rw [left] at kept
    split at kept
    · exact allLeft_wanted parts root kept
    · cases kept
  | through head inner =>
    rw [left] at kept
    rw [wants]
    cases crossed : c.resolver.cross? c.adapter scope.queryable head with
    | none => simp [crossed] at kept
    | some hop =>
      simp only [crossed] at kept
      cases cardinality : hop.link.cardinality with
      | many =>
        simp only [cardinality] at kept
        exact .inl (List.mem_singleton.mp kept)
      | one =>
        simp only [cardinality] at kept ⊢
        rcases left_wanted inner root kept with rfl | ⟨b, known, same⟩
        · exact .inr ⟨_, List.mem_cons_self .., rfl⟩
        · exact .inr ⟨b, List.mem_cons_of_mem _ known, same⟩

theorem allLeft_wanted (parts : List Route) (root : Queryable) {scope : Scope} {q : CompiledQuery} {path : FieldPath}
    (kept : path ∈ allLeft c scope q parts) :
    path = scope.path ∨ ∃ b ∈ allWants c root scope q parts, b.path = path := by
  cases parts with
  | nil => cases kept
  | cons part rest =>
    rcases List.mem_append.mp kept with here | later
    · exact (left_wanted part root here).imp_right fun ⟨b, known, same⟩ => ⟨b, List.mem_append_left _ known, same⟩
    · exact (allLeft_wanted rest root later).imp_right fun ⟨b, known, same⟩ => ⟨b, List.mem_append_right _ known, same⟩
end

-- What the predicate of a route names: the bindings of what is left, and names of subqueries.
structure Names (c : FilterContext) (base : CompiledQuery) (scope : Scope) (kept crossed : List FieldPath)
    (mentions : String → Prop) : Prop where
  left : ∀ path ∈ kept, mentions (base.bindingAt path)
  only : ∀ name, mentions name → ∃ path, base.bindingAt path = name ∧
    (path ∈ kept ∨ path ∈ crossed ∧ ¬scope.Leads c.resolver c.adapter path)

namespace Names

variable {scope : Scope} {kept kept' crossed crossed' : List FieldPath} {mentions mentions' : String → Prop}

theorem none (never : ∀ name, ¬mentions name) : Names c base scope [] crossed mentions :=
  ⟨by simp, fun name mentioned => absurd mentioned (never name)⟩

theorem append (first : Names c base scope kept crossed mentions)
    (second : Names c base scope kept' crossed' mentions') :
    Names c base scope (kept ++ kept') (crossed ++ crossed') fun name => mentions name ∨ mentions' name := by
  refine ⟨?_, ?_⟩
  · intro path member
    exact (List.mem_append.mp member).imp (first.left path) (second.left path)
  · rintro name (mentioned | mentioned)
    · obtain ⟨path, named, own⟩ := first.only name mentioned
      exact ⟨path, named, own.imp (List.mem_append_left _) (.imp_left (List.mem_append_left _))⟩
    · obtain ⟨path, named, own⟩ := second.only name mentioned
      exact ⟨path, named, own.imp (List.mem_append_right _) (.imp_left (List.mem_append_right _))⟩

theorem congr (names : Names c base scope kept crossed mentions) (same : ∀ name, mentions' name ↔ mentions name) :
    Names c base scope kept crossed mentions' := by
  refine ⟨fun path member => (same _).mpr (names.left path member), ?_⟩
  intro name mentioned
  exact names.only name ((same name).mp mentioned)

end Names

section Parts

variable (sql : base.kind = .sql)
include sql

-- A SELECT of its own names the row it is looked up for, and otherwise what is behind the association.
theorem closed_names {scope : Scope} {q below : CompiledQuery} {plain p : Predicate} (inner : Route)
    (served : c.adapter = root.adapter) (placed : scope.Placed c.resolver root.adapter root base)
    (same : q.dialect? = base.dialect?) (crossed : c.resolver.cross? c.adapter scope.queryable head = some hop)
    (many : hop.link.cardinality = .many)
    (opened : below.unjoined = (q.openScope hop.related (q.bindingFor (scope.path.child head))).unjoined)
    (closed : below.closeScope? scope.binding (q.bindingFor (scope.path.child head)) hop.link plain c.mode = some p)
    (inside : Names c base (scope.enter base head hop) (inner.left c (scope.enter base head hop) base)
      (inner.hops (scope.path.child head)) plain.Mentions) :
    Names c base scope ((through head inner).left c scope base) ((through head inner).hops scope.path) p.Mentions := by
  have kind := CompiledQuery.kind_of_dialect same
  have entered := placed.enter_placed (q := base) (served ▸ crossed) rfl
  obtain ⟨rest, reads, given⟩ := CompiledQuery.closeScope_reads (kind.trans sql) opened closed
  have means : ∀ name, p.Mentions name ↔
      (name = base.bindingAt (scope.path.child head) ∨ name = scope.binding) ∨ plain.Mentions name := by
    intro name
    have bound : base.bindingAt (scope.path.child head) = q.bindingFor (scope.path.child head) :=
      entered.bound.symm.trans (CompiledQuery.bindingFor_of_kind kind.symm _)
    rw [Predicate.Mentions, reads, bound]
    simp only [List.mem_singleton, exists_eq_left, related_mentions, Expr.Mentions, Predicate.Mentions, ← given]
    refine or_congr_right ⟨?_, ?_⟩
    · rintro ⟨part, member, x, read, mentioned⟩
      exact ⟨x, ⟨part, member, read⟩, mentioned⟩
    · rintro ⟨x, ⟨part, member, read⟩, mentioned⟩
      exact ⟨part, member, x, read, mentioned⟩
  have behind : ∀ path ∈ (through head inner).hops scope.path, path ∈ (through head inner).hops scope.path ∧
      ¬scope.Leads c.resolver c.adapter path := by
    refine fun path known => ⟨known, Scope.Leads.not_many crossed many ?_⟩
    rcases List.mem_cons.mp known with rfl | deeper
    · exact ⟨[], (List.append_nil _).symm⟩
    · exact below_of_hops inner deeper
  rw [left_many inner crossed many]
  refine ⟨fun path member => ?_, fun name mentioned => ?_⟩
  · rw [List.mem_singleton.mp member, ← placed.bound]
    exact (means _).mpr (.inl (.inr rfl))
  · rcases (means name).mp mentioned with (rfl | rfl) | deeper
    · exact ⟨_, rfl, .inr (behind _ (List.mem_cons_self ..))⟩
    · exact ⟨scope.path, placed.bound.symm, .inl (List.mem_singleton_self _)⟩
    · obtain ⟨path, named, kept | ⟨known, _⟩⟩ := inside.only name deeper
      · refine ⟨path, named, .inr (behind path ?_)⟩
        rcases inner.left_wanted root kept with rfl | ⟨b, wanted, rfl⟩
        · exact List.mem_cons_self ..
        · exact List.mem_cons_of_mem _ ((wants_strung inner served entered).leads b wanted).1
      · exact ⟨path, named, .inr (behind path (List.mem_cons_of_mem _ known))⟩

variable (own : c.adapter.kind = .sql)
include own

theorem test_names {l : Leaf} {scope : Scope} {q joined : CompiledQuery} {p : Predicate}
    (bound : scope.binding = base.bindingAt scope.path) (same : q.dialect? = base.dialect?)
    (compiled : (test l).compile c scope q = .ok (p, joined)) :
    Names c base scope ((test l).left c scope base) [] p.Mentions := by
  have kind := (CompiledQuery.kind_of_dialect same).trans sql
  have lasts := lasts_exact same compiled
  have ours := (compile_own (own.trans kind.symm) compiled).trans kind
  obtain ⟨tested, rfl⟩ := test_parts.mp compiled
  rw [left]
  split
  · rename_i live
    obtain ⟨name, _, read⟩ := FilterContext.test_keeps tested ours (lasts.mp live)
    have mentioned : p.Mentions (base.bindingAt scope.path) := ⟨_, read, .column (by rw [qualifier_text, bound])⟩
    refine ⟨fun path member => List.mem_singleton.mp member ▸ mentioned, ?_⟩
    rintro name' ⟨x, read, mentioned⟩
    obtain ⟨_, _, rfl⟩ := FilterContext.test_reads tested read
    rw [Read.mentions_column, qualifier_text, bound] at mentioned
    exact ⟨scope.path, mentioned, .inl (List.mem_singleton_self _)⟩
  · rename_i dead
    refine .none ?_
    rintro name ⟨x, read, _⟩
    exact dead (lasts.mpr (Predicate.undecided_of_reads read))

theorem join_names {op : Connective} {parts : List Route} {scope : Scope} {q joined : CompiledQuery} {ps : List Predicate}
    (same : q.dialect? = base.dialect?) (inside : compileAll c scope parts q = .ok (ps, joined))
    (each : Names c base scope (allLeft c scope base parts) (listHops scope.path parts)
      fun name => ∃ p ∈ ps, p.Mentions name) :
    Names c base scope ((join op parts).left c scope base) (listHops scope.path parts)
      (Predicate.join q.kind op ps).Mentions := by
  have kind := (CompiledQuery.kind_of_dialect same).trans sql
  have compiled : (join op parts).compile c scope q = .ok (Predicate.join q.kind op ps, joined) :=
    join_parts.mpr ⟨ps, inside, rfl⟩
  have lasts := lasts_exact same compiled
  have ours := compileAll_own parts (own.trans kind.symm) inside
  rw [left]
  split
  · rename_i live
    refine each.congr fun name => ?_
    constructor
    · rintro ⟨x, read, mentioned⟩
      obtain ⟨p, member, read⟩ := Predicate.mem_reads_join _ op read
      exact ⟨p, member, x, read, mentioned⟩
    · rintro ⟨p, member, x, read, mentioned⟩
      exact ⟨x, Predicate.reads_join ours (lasts.mp live) member read, mentioned⟩
  · rename_i dead
    refine .none ?_
    rintro name ⟨x, read, _⟩
    exact dead (lasts.mpr (Predicate.undecided_of_reads read))

end Parts

-- The scope that is entered may be told from the query at the start, whatever has been joined since.
theorem through_way {inner : Route} {scope : Scope} {q joined : CompiledQuery} {p : Predicate}
    (same : q.dialect? = base.dialect?) (compiled : (through head inner).compile c scope q = .ok (p, joined)) :
    ∃ hop, c.resolver.cross? c.adapter scope.queryable head = some hop ∧
      (hop.link.cardinality = .one ∧ (∃ mid, mid.dialect? = base.dialect? ∧
          inner.compile c (scope.enter base head hop) mid = .ok (p, joined)) ∨
        hop.link.cardinality = .many ∧ ∃ plain below, inner.compile c (scope.enter base head hop)
            (q.openScope hop.related (q.bindingFor (scope.path.child head))) = .ok (plain, below) ∧
          below.closeScope? scope.binding (q.bindingFor (scope.path.child head)) hop.link plain c.mode = some p) := by
  obtain ⟨hop, crossed, way⟩ := through_parts.mp compiled
  have binding := CompiledQuery.bindingFor_of_kind (CompiledQuery.kind_of_dialect same) (scope.path.child head)
  have entered : scope.enter q head hop = scope.enter base head hop := by rw [Scope.enter, Scope.enter, binding]
  rw [entered] at way
  refine ⟨hop, crossed, way.imp ?_ ?_⟩
  · rintro ⟨one, inside⟩
    have bound := CompiledQuery.dialect_of_unjoined
      (q.unjoined_bindToOne scope.binding (q.bindingFor (scope.path.child head)) hop.link hop.related)
    exact ⟨one, _, bound.trans same, inside⟩
  · rintro ⟨many, _, plain, below, inside, closed⟩
    exact ⟨many, plain, below, inside, closed⟩

mutual
theorem compile_names (route : Route) {scope : Scope} {q joined : CompiledQuery} {p : Predicate}
    (sql : base.kind = .sql) (own : c.adapter.kind = .sql) (served : c.adapter = root.adapter)
    (placed : scope.Placed c.resolver root.adapter root base)
    (same : q.dialect? = base.dialect?) (compiled : route.compile c scope q = .ok (p, joined)) :
    Names c base scope (route.left c scope base) (route.hops scope.path) p.Mentions := by
  cases route with
  | test l => exact test_names sql own placed.bound same compiled
  | negate inner =>
    obtain ⟨plain, inside, rfl⟩ := negate_parts.mp compiled
    refine (compile_names inner sql own served placed same inside).congr fun name => ?_
    rw [Predicate.Mentions, Predicate.reads_negate, Predicate.Mentions]
  | join op parts =>
    obtain ⟨ps, inside, rfl⟩ := join_parts.mp compiled
    exact join_names sql own same inside (compileAll_names parts sql own served placed same inside)
  | through head inner =>
    obtain ⟨hop, crossed, ⟨one, mid, kept, inside⟩ | ⟨many, plain, below, inside, closed⟩⟩ := through_way same compiled
    · have placed' := placed.enter_placed (q := base) (served ▸ crossed) rfl
      obtain ⟨left, only⟩ := compile_names inner sql own served placed' kept inside
      rw [left_one inner crossed one]
      refine ⟨left, fun name mentioned => ?_⟩
      obtain ⟨path, named, kept | ⟨known, astray⟩⟩ := only name mentioned
      · exact ⟨path, named, .inl kept⟩
      · refine ⟨path, named, .inr ⟨List.mem_cons_of_mem _ known, fun leads => astray ?_⟩⟩
        exact (Scope.Leads.enter crossed one).mpr ⟨leads, below_of_hops inner known⟩
    · have placed' := placed.enter_placed (q := base) (served ▸ crossed) rfl
      have opened := compile_joins inner inside
      have there := compile_names inner sql own served placed' ((CompiledQuery.dialect_openScope ..).trans same) inside
      exact closed_names sql inner served placed same crossed many opened closed there

theorem compileAll_names (parts : List Route) {scope : Scope} {q joined : CompiledQuery} {ps : List Predicate}
    (sql : base.kind = .sql) (own : c.adapter.kind = .sql) (served : c.adapter = root.adapter)
    (placed : scope.Placed c.resolver root.adapter root base)
    (same : q.dialect? = base.dialect?) (compiled : compileAll c scope parts q = .ok (ps, joined)) :
    Names c base scope (allLeft c scope base parts) (listHops scope.path parts)
      fun name => ∃ p ∈ ps, p.Mentions name := by
  cases parts with
  | nil =>
    obtain ⟨rfl, _⟩ := nil_parts.mp compiled
    exact .none (by simp)
  | cons part rest =>
    obtain ⟨p, mid, others, here, later, rfl⟩ := cons_parts.mp compiled
    have kept : mid.dialect? = base.dialect? :=
      (CompiledQuery.dialect_of_unjoined (compile_joins part here)).trans same
    have first := compile_names part sql own served placed same here
    refine (first.append (compileAll_names rest sql own served placed kept later)).congr fun name => ?_
    simp only [List.mem_cons, exists_eq_or_imp]
end

end Route
end FilterQuery
