import FilterQuery.Proofs.Conservation
import FilterQuery.Proofs.Reordering
import FilterQuery.Proofs.RouteRemains

namespace FilterQuery

namespace FieldPath

variable {path above top : FieldPath}

theorem below_refl (path : FieldPath) : path.Below path := ⟨[], (List.append_nil _).symm⟩

theorem Below.trans (below : path.Below above) (further : above.Below top) : path.Below top := by
  obtain ⟨rest, shape⟩ := below
  obtain ⟨more, shape'⟩ := further
  exact ⟨more ++ rest, by rw [shape, shape', List.append_assoc]⟩

theorem child_below (path : FieldPath) (name : String) : (path.child name).Below path := ⟨[name], rfl⟩

theorem Below.length_le (below : path.Below above) : above.length ≤ path.length := by
  obtain ⟨rest, shape⟩ := below
  simp [length, shape]

theorem below_of_child_below (below : (path.child name).Below above) : path.child name = above ∨ path.Below above := by
  obtain ⟨rest, shape⟩ := below
  rcases List.eq_nil_or_concat' rest with rfl | ⟨front, last, rfl⟩
  · rw [List.append_nil] at shape
    cases above
    exact .inl (congrArg FieldPath.mk shape)
  · rw [← List.append_assoc] at shape
    exact .inr ⟨front, List.append_inj_left' shape rfl⟩

end FieldPath

-- The condition of the join ties its own binding to that of the path before.
theorem Bound.ByPath.tied {r : Resolver} {base : CompiledQuery} {b : Bound} (byPath : b.ByPath r base) :
    b.binding = base.bindingAt b.path ∧
      ∃ before name, b.path = before.child name ∧ b.parent = base.bindingAt before := by
  obtain ⟨before, name, _, shape, _, _, parent, binding⟩ := byPath
  refine ⟨?_, before, name, shape, parent⟩
  have named : b.path.isEmpty = false := by simp [shape, FieldPath.isEmpty, FieldPath.child]
  rw [binding, CompiledQuery.bindingAt, named, if_neg Bool.false_ne_true]

namespace Strung

variable {r : Resolver} {base : CompiledQuery} {root : Queryable} {scope : Scope} {paths kept : List FieldPath}
  {bs : List Bound}

theorem longer (strung : Strung r base root scope paths bs) (member : b ∈ bs) : scope.path.length < b.path.length := by
  obtain ⟨before, name, shape, own⟩ := strung.follows b member
  rw [shape, Surroundings.length_child]
  rcases own with rfl | ⟨near, known, rfl⟩
  · exact Nat.lt_succ_self _
  · obtain ⟨_, rest, along, _⟩ := strung.leads near known
    exact Nat.lt_succ_of_le (FieldPath.Below.length_le ⟨rest, along⟩)

theorem join_of_path (strung : Strung r base root scope paths bs) (member : b ∈ bs) (member' : b' ∈ bs)
    (same : b.path = b'.path) : b.join = b'.join :=
  Bound.join_of_path (strung.byPath b member).2 (strung.byPath b' member').2
    ((strung.byPath b member).1.trans (strung.byPath b' member').1.symm) same

end Strung

-- No two of the paths have one binding.
def CompiledQuery.TellsPaths (base : CompiledQuery) (known : FieldPath → Prop) : Prop :=
  ∀ path, known path → ∀ other, known other → base.bindingAt path = base.bindingAt other → path = other

-- What a SELECT joins along paths, and what its tests name.
structure Select.JoinsAlong (base : CompiledQuery) (scope : Scope) (known : FieldPath → Prop) (kept : List FieldPath)
    (bs : List Bound) (t : Select) : Prop where
  joins : ∀ j, j ∈ t.joins ↔ ∃ b ∈ bs, b.join = j
  wanted : ∀ b ∈ bs, known b.path
  rooted : ∀ path ∈ kept, path = scope.path ∨ ∃ b ∈ bs, b.path = path
  left : ∀ path ∈ kept, ∃ e ∈ t.tests, e.Mentions (base.bindingAt path)
  only : ∀ e ∈ t.tests, ∀ name, e.Mentions name → ∃ path, known path ∧ base.bindingAt path = name ∧
    (path ∈ kept ∨ ∀ b ∈ bs, b.path ≠ path)

namespace Select.JoinsAlong

variable {r : Resolver} {base : CompiledQuery} {root : Queryable} {scope : Scope} {paths kept : List FieldPath}
  {bs : List Bound} {known : FieldPath → Prop} {t : Select}

-- What is needed leads down to something that is left.
theorem left_below (along : t.JoinsAlong base scope known kept bs) (strung : Strung r base root scope paths bs)
    (tells : base.TellsPaths known) (here : known scope.path) (needed : t.Needs j) :
    ∀ b ∈ bs, b.join = j → ∃ path ∈ kept, path.Below b.path := by
  induction needed with
  | @read j e member written mentioned =>
    rintro b wanted rfl
    have bound := (strung.byPath b wanted).2.tied.1
    obtain ⟨path, told, named, left | other⟩ := along.only e written _ mentioned
    · have same := tells _ told _ (along.wanted b wanted) (named.trans bound)
      exact ⟨path, left, same ▸ path.below_refl⟩
    · exact absurd (tells _ (along.wanted b wanted) _ told (bound.symm.trans named.symm)) (other b wanted)
  | @passed j k member needed other mentioned ih =>
    rintro b wanted rfl
    obtain ⟨b', wanted', rfl⟩ := (along.joins k).mp needed.member
    obtain ⟨path, left, below⟩ := ih b' wanted' rfl
    obtain ⟨bound', before, name, shape, parent⟩ := (strung.byPath b' wanted').2.tied
    have bound := (strung.byPath b wanted).2.tied.1
    refine ⟨path, left, below.trans ?_⟩
    rcases correlation_mentions.mp mentioned with same | same
    · have paths := tells _ (along.wanted b wanted) _ (along.wanted b' wanted') (bound.symm.trans (same.trans bound'))
      exact absurd (strung.join_of_path wanted wanted' paths).symm other
    · have before_known : known before := by
        obtain ⟨before', _, shape', own⟩ := strung.follows b' wanted'
        obtain ⟨rfl, _⟩ := FieldPath.child_inj (shape.symm.trans shape')
        rcases own with rfl | ⟨near, among, rfl⟩
        · exact here
        · exact along.wanted near among
      have paths := tells _ (along.wanted b wanted) _ before_known (bound.symm.trans (same.trans parent))
      rw [shape, paths]
      exact before.child_below name

-- A join that is needed passes its need on to those it follows from.
theorem needs_above (along : t.JoinsAlong base scope known kept bs) (strung : Strung r base root scope paths bs)
    (tells : base.TellsPaths known) (member : b ∈ bs) (above : a ∈ bs) (needed : t.Needs b.join)
    (below : b.path.Below a.path) : t.Needs a.join := by
  obtain ⟨bound, before, name, shape, parent⟩ := (strung.byPath b member).2.tied
  rcases FieldPath.below_of_child_below (shape ▸ below) with same | nearer
  · rwa [← strung.join_of_path member above (shape.trans same)]
  · obtain ⟨before', name', shape', own⟩ := strung.follows b member
    obtain ⟨rfl, _⟩ := FieldPath.child_inj (shape.symm.trans shape')
    rcases own with rfl | ⟨near, among, rfl⟩
    · exact absurd (strung.longer above) (Nat.not_lt.mpr nearer.length_le)
    · have bound' := (strung.byPath near among).2.tied.1
      have apart : b.join ≠ near.join := by
        intro same
        have bindings : b.binding = near.binding := congrArg Join.binding same
        have paths := tells _ (along.wanted b member) _ (along.wanted near among)
          (bound.symm.trans (bindings.trans bound'))
        have longer := Surroundings.length_child near.path name
        rw [← shape, paths] at longer
        omega
      have named : near.binding = b.parent := bound'.trans parent.symm
      have passed : t.Needs near.join :=
        .passed ((along.joins _).mpr ⟨near, among, rfl⟩) needed apart (correlation_mentions.mpr (.inr named))
      exact needs_above along strung tells among above passed nearer
  termination_by b.path.length
  decreasing_by
    rw [shape, Surroundings.length_child]
    exact Nat.lt_succ_self _

theorem needs_exact (along : t.JoinsAlong base scope known kept bs) (strung : Strung r base root scope paths bs)
    (tells : base.TellsPaths known) (here : known scope.path) :
    (∀ j ∈ t.joins, t.Needs j) ↔ ∀ b ∈ bs, ∃ path ∈ kept, path.Below b.path := by
  constructor
  · intro all b member
    exact along.left_below strung tells here (all _ ((along.joins _).mpr ⟨b, member, rfl⟩)) b member rfl
  · intro covered j joined
    obtain ⟨b, member, rfl⟩ := (along.joins j).mp joined
    obtain ⟨path, left, below⟩ := covered b member
    rcases along.rooted path left with rfl | ⟨last, among, rfl⟩
    · exact absurd (strung.longer member) (Nat.not_lt.mpr below.length_le)
    · obtain ⟨e, written, mentioned⟩ := along.left _ left
      rw [← (strung.byPath last among).2.tied.1] at mentioned
      have needed : t.Needs last.join := .read ((along.joins _).mpr ⟨last, among, rfl⟩) written mentioned
      exact along.needs_above strung tells among member needed below

end Select.JoinsAlong

-- Each binding is joined once, and so is each path.
theorem Gains.joins_exact {r : Resolver} {base q next : CompiledQuery} {root : Queryable} {scope : Scope}
    {paths : List FieldPath} {bs : List Bound} {known : FieldPath → Prop} (gains : Gains bs q next) (fresh : q.joins = [])
    (strung : Strung r base root scope paths bs) (tells : base.TellsPaths known) (wanted : ∀ b ∈ bs, known b.path)
    (j : Join) : j ∈ next.joins ↔ ∃ b ∈ bs, b.join = j := by
  obtain ⟨all, folded, _, within, covers⟩ := Bound.foldl_addTo bs [] List.nodup_nil
  rw [List.map_nil] at folded
  rw [gains.joins, fresh, folded, List.mem_map]
  constructor
  · rintro ⟨b, member, same⟩
    exact ⟨b, within b member, same⟩
  · rintro ⟨b, member, rfl⟩
    obtain ⟨b', member', bindings⟩ := covers b member
    have among := within b' member'
    have paths := tells _ (wanted b' among) _ (wanted b member)
      ((strung.byPath b' among).2.tied.1.symm.trans (bindings.trans (strung.byPath b member).2.tied.1))
    exact ⟨b', member', strung.join_of_path among member paths⟩

theorem Gains.joins_none {q next : CompiledQuery} (gains : Gains bs q next) (fresh : q.joins = []) :
    next.joins = [] ↔ bs = [] := by
  obtain ⟨all, folded, _, within, covers⟩ := Bound.foldl_addTo bs [] List.nodup_nil
  rw [List.map_nil] at folded
  rw [gains.joins, fresh, folded, List.map_eq_nil_iff]
  simp only [List.eq_nil_iff_forall_not_mem]
  constructor
  · intro absent b member
    obtain ⟨b', among, _⟩ := covers b member
    exact absent b' among
  · intro absent b member
    exact absent b (within b member)

-- What a connective keeps is what its parts read.
theorem Predicate.economical_join {k : QueryKind} {op : Connective} {ps : List Predicate} (own : ∀ p ∈ ps, p.kind = k)
    (undecided : (join k op ps).Undecided) : (join k op ps).Economical ↔ ∀ p ∈ ps, p.Economical := by
  constructor
  · rintro all p member u (read | read)
    · exact all u (.inl (reads_join own undecided member read))
    · exact all u (.inr (reads_join own undecided member read))
  · rintro each u (read | read) <;> obtain ⟨p, member, inside⟩ := mem_reads_join k op read
    · exact each p member u (.inl inside)
    · exact each p member u (.inr inside)

namespace Route

variable {c : FilterContext} {root : Queryable} {base : CompiledQuery} {known : FieldPath → Prop}

-- A SELECT that holds what a route compiles to, and otherwise names nothing but rows around it.
theorem economical_select {route : Route} {scope : Scope} {t : Select} {p : Predicate}
    (served : c.adapter = root.adapter)
    (names : Names c base scope (route.left c scope base) (route.hops scope.path) p.Mentions)
    (strung : Strung c.resolver base root scope (route.hops scope.path) (route.wants c root scope base))
    (tells : base.TellsPaths known) (here : known scope.path) (within : ∀ path ∈ route.hops scope.path, known path)
    (joins : ∀ j, j ∈ t.joins ↔ ∃ b ∈ route.wants c root scope base, b.join = j) (bare : ∀ e ∈ t.columns, e.reads = [])
    (outer : List Read) (reads : ∀ x, (∃ e ∈ t.tests, x ∈ e.reads) ↔ x ∈ outer ∨ x ∈ p.reads)
    (aside : ∀ x ∈ outer, ∃ path field, known path ∧ path.length ≤ scope.path.length ∧
      x = .column (some (base.bindingAt path)) field) :
    t.Economical ↔ route.Covers c root base scope ∧ p.Economical := by
  have wanted : ∀ b ∈ route.wants c root scope base, known b.path := fun b member => within _ (strung.leads b member).1
  have along : t.JoinsAlong base scope known (route.left c scope base) (route.wants c root scope base) := by
    refine ⟨joins, wanted, fun path left => route.left_wanted root left, ?_, ?_⟩
    · intro path left
      obtain ⟨x, read, mentioned⟩ := names.left path left
      obtain ⟨e, written, read⟩ := (reads x).mpr (.inr read)
      exact ⟨e, written, x, read, mentioned⟩
    · rintro e written name ⟨x, read, mentioned⟩
      rcases (reads x).mp ⟨e, written, read⟩ with around | own
      · obtain ⟨path, field, told, short, rfl⟩ := aside x around
        refine ⟨path, told, Read.mentions_column.mp mentioned, .inr ?_⟩
        rintro b member rfl
        exact absurd (strung.longer member) (Nat.not_lt.mpr short)
      · obtain ⟨path, named, left | ⟨crossed, astray⟩⟩ := names.only name ⟨x, own, mentioned⟩
        · refine ⟨path, ?_, named, .inl left⟩
          rcases route.left_wanted root left with rfl | ⟨b, member, rfl⟩
          · exact here
          · exact wanted b member
        · refine ⟨path, within path crossed, named, .inr ?_⟩
          rintro b member rfl
          exact astray (served ▸ (strung.leads b member).2)
  have tied : ∀ j ∈ t.joins, ∀ u, .rows u ∉ j.condition.reads ∧ .scalar u ∉ j.condition.reads := by
    intro j member u
    obtain ⟨b, _, rfl⟩ := (joins j).mp member
    simp [Bound.join, mem_correlation_reads]
  rw [Select.economical_of_tests bare tied, along.needs_exact strung tells here]
  refine and_congr Iff.rfl ⟨?_, ?_⟩
  · rintro inside u (read | read)
    · obtain ⟨e, written, read⟩ := (reads _).mpr (.inr read)
      exact inside e written u (.inl read)
    · obtain ⟨e, written, read⟩ := (reads _).mpr (.inr read)
      exact inside e written u (.inr read)
  · have own : ∀ x, (∀ table field, x ≠ .column table field) → (∃ e ∈ t.tests, x ∈ e.reads) → x ∈ p.reads := by
      intro x subquery given
      rcases (reads x).mp given with around | own
      · obtain ⟨_, _, _, _, rfl⟩ := aside x around
        exact absurd rfl (subquery _ _)
      · exact own
    rintro inside e written u (read | read)
    · exact inside u (.inl (own _ (by simp) ⟨e, written, read⟩))
    · exact inside u (.inr (own _ (by simp) ⟨e, written, read⟩))

-- The SELECT of a to-many association joins for what is left behind the association.
theorem economical_closed {scope : Scope} {q below : CompiledQuery} {plain p : Predicate} (inner : Route)
    (sql : base.kind = .sql) (own : c.adapter.kind = .sql) (served : c.adapter = root.adapter)
    (tells : base.TellsPaths known) (placed : scope.Placed c.resolver root.adapter root base) (here : known scope.path)
    (within : ∀ path ∈ (through head inner).hops scope.path, known path) (same : q.dialect? = base.dialect?)
    (crossed : c.resolver.cross? c.adapter scope.queryable head = some hop)
    (inside : inner.compile c (scope.enter base head hop)
      (q.openScope hop.related (q.bindingFor (scope.path.child head))) = .ok (plain, below))
    (closed : below.closeScope? scope.binding (q.bindingFor (scope.path.child head)) hop.link plain c.mode = some p) :
    p.Economical ↔ inner.Covers c root base (scope.enter base head hop) ∧ plain.Economical := by
  have kind := CompiledQuery.kind_of_dialect same
  have placed' := placed.enter_placed (q := base) (served ▸ crossed) rfl
  have fresh : (q.openScope hop.related (q.bindingFor (scope.path.child head))).joins = [] := by cases q <;> rfl
  have dialect := (q.dialect_openScope hop.related (q.bindingFor (scope.path.child head))).trans same
  have kind' := CompiledQuery.kind_of_dialect dialect
  have bound : q.bindingFor (scope.path.child head) = base.bindingAt (scope.path.child head) :=
    (CompiledQuery.bindingFor_of_kind kind _).trans placed'.bound
  have deeper : ∀ path ∈ inner.hops (scope.path.child head), known path :=
    fun path member => within path (List.mem_cons_of_mem _ member)
  have strung := inner.wants_strung served placed'
  obtain ⟨rest, reads, given⟩ := CompiledQuery.closeScope_reads (kind.trans sql) (compile_joins inner inside) closed
  have joins := Gains.joins_exact (compile_gains (kind'.trans sql) kind' inside) fresh strung tells
    fun b member => deeper _ (strung.leads b member).1
  have tests : (Select.related scope.binding (q.bindingFor (scope.path.child head)) hop below.joins rest).tests =
      correlation scope.binding (q.bindingFor (scope.path.child head)) hop.link :: rest := List.append_nil _
  have alone : p.Economical ↔
      (Select.related scope.binding (q.bindingFor (scope.path.child head)) hop below.joins rest).Economical := by
    rw [Predicate.Economical, reads]
    simp
  rw [alone]
  refine economical_select served (inner.compile_names sql own served placed' dialect inside) strung tells
    (within _ (List.mem_cons_self ..)) deeper joins (List.forall_mem_singleton.mpr rfl)
    (correlation scope.binding (q.bindingFor (scope.path.child head)) hop.link).reads ?_ ?_
  · intro x
    rw [tests, ← given]
    simp only [List.mem_cons, exists_eq_or_imp]
  · intro x around
    rcases mem_correlation_reads.mp around with rfl | rfl
    · exact ⟨_, _, within _ (List.mem_cons_self ..), Nat.le_refl _, by rw [bound]⟩
    · refine ⟨scope.path, _, here, ?_, by rw [placed.bound]⟩
      exact (FieldPath.child_below scope.path head).length_le

mutual
theorem compile_economical (route : Route) {scope : Scope} {q joined : CompiledQuery} {p : Predicate}
    (sql : base.kind = .sql) (own : c.adapter.kind = .sql) (served : c.adapter = root.adapter)
    (tells : base.TellsPaths known) (placed : scope.Placed c.resolver root.adapter root base) (here : known scope.path)
    (within : ∀ path ∈ route.hops scope.path, known path) (same : q.dialect? = base.dialect?)
    (compiled : route.compile c scope q = .ok (p, joined)) :
    p.Economical ↔ ∀ part ∈ route.opened c scope base, part.2.Covers c root base part.1 := by
  cases route with
  | test l =>
    obtain ⟨tested, rfl⟩ := test_parts.mp compiled
    have columns : p.Economical := by
      rintro u (read | read) <;> obtain ⟨_, _, ⟨⟩⟩ := FilterContext.test_reads tested read
    simp [columns, opened]
  | negate inner =>
    obtain ⟨plain, inside, rfl⟩ := negate_parts.mp compiled
    rw [Predicate.Economical, Predicate.reads_negate]
    exact compile_economical inner sql own served tells placed here within same inside
  | join op parts =>
    obtain ⟨ps, inside, rfl⟩ := join_parts.mp compiled
    have each := compileAll_economical parts sql own served tells placed here within same inside
    have lasts := lasts_exact same compiled
    have ours := compileAll_own parts (own.trans ((CompiledQuery.kind_of_dialect same).trans sql).symm) inside
    rw [opened]
    split
    · rename_i live
      rw [← each]
      exact Predicate.economical_join ours (lasts.mp live)
    · rename_i dead
      have quiet : (Predicate.join q.kind op ps).Economical := by
        rintro u (read | read)
        · exact absurd (lasts.mpr (Predicate.undecided_of_reads read)) dead
        · exact absurd (lasts.mpr (Predicate.undecided_of_reads read)) dead
      simp [quiet]
  | through head inner =>
    obtain ⟨hop, crossed, way⟩ := through_way same compiled
    have placed' := placed.enter_placed (q := base) (served ▸ crossed) rfl
    have child := within _ (List.mem_cons_self ..)
    have deeper : ∀ path ∈ inner.hops (scope.path.child head), known path :=
      fun path member => within path (List.mem_cons_of_mem _ member)
    rcases way with ⟨one, mid, kept, inside⟩ | ⟨many, plain, below, inside, closed⟩
    · rw [opened_one inner crossed one]
      exact compile_economical inner sql own served tells placed' child deeper kept inside
    · rw [opened_many inner crossed many, List.forall_mem_cons,
        economical_closed inner sql own served tells placed here within same crossed inside closed]
      refine and_congr_right fun _ => ?_
      exact compile_economical inner sql own served tells placed' child deeper
        ((CompiledQuery.dialect_openScope ..).trans same) inside

theorem compileAll_economical (parts : List Route) {scope : Scope} {q joined : CompiledQuery} {ps : List Predicate}
    (sql : base.kind = .sql) (own : c.adapter.kind = .sql) (served : c.adapter = root.adapter)
    (tells : base.TellsPaths known) (placed : scope.Placed c.resolver root.adapter root base) (here : known scope.path)
    (within : ∀ path ∈ listHops scope.path parts, known path) (same : q.dialect? = base.dialect?)
    (compiled : compileAll c scope parts q = .ok (ps, joined)) :
    (∀ p ∈ ps, p.Economical) ↔ ∀ part ∈ allOpened c scope base parts, part.2.Covers c root base part.1 := by
  cases parts with
  | nil =>
    obtain ⟨rfl, _⟩ := nil_parts.mp compiled
    simp [allOpened]
  | cons part rest =>
    obtain ⟨p, mid, others, first, later, rfl⟩ := cons_parts.mp compiled
    rw [listHops, List.forall_mem_append] at within
    have kept := (CompiledQuery.dialect_of_unjoined (compile_joins part first)).trans same
    rw [allOpened, List.forall_mem_append, List.forall_mem_cons,
      compile_economical part sql own served tells placed here within.1 same first,
      compileAll_economical rest sql own served tells placed here within.2 kept later]
end

end Route
end FilterQuery
