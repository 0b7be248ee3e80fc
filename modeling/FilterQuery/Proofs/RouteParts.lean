import FilterQuery.Compile.Filter

namespace FilterQuery

theorem bind_exact {outcome : Except ε α} {next : α → Except ε β} :
    outcome >>= next = .ok b ↔ ∃ a, outcome = .ok a ∧ next a = .ok b := by
  cases outcome with
  | error fault => simp [bind, Except.bind]
  | ok a => simp [bind, Except.bind]

theorem bind_fault {outcome : Except ε α} {next : α → Except ε β} :
    outcome >>= next = .error e ↔ outcome = .error e ∨ ∃ a, outcome = .ok a ∧ next a = .error e := by
  cases outcome with
  | error fault => simp [bind, Except.bind]
  | ok a => simp [bind, Except.bind]

theorem ok_of_isOk {outcome : Except ε α} (succeeded : outcome.isOk = true) : ∃ a, outcome = .ok a := by
  cases outcome with
  | error fault => cases succeeded
  | ok a => exact ⟨a, rfl⟩

theorem ok_of_toOption {outcome : Except ε α} (given : outcome.toOption = some a) : outcome = .ok a := by
  cases outcome with
  | error fault => cases given
  | ok b => exact congrArg Except.ok (Option.some.inj given)

namespace Resolver

-- The association of that name, when its target is registered.
def cross? (r : Resolver) (a : Adapter) (q : Queryable) (name : String) : Option Hop := do
  let f ← (a.fields q).find? (·.name == name)
  let link ← f.link?
  let related ← r.registry.get? link.target
  pure ⟨link, related⟩

def reach? (r : Resolver) (a : Adapter) (q : Queryable) : List String → Option Queryable
  | [] => some q
  | name :: rest => (r.cross? a q name).bind fun hop => r.reach? a hop.related rest

theorem reach_append (r : Resolver) (a : Adapter) (q : Queryable) (left right : List String) :
    r.reach? a q (left ++ right) = (r.reach? a q left).bind fun mid => r.reach? a mid right := by
  induction left generalizing q with
  | nil => rfl
  | cons name rest ih =>
    rw [List.cons_append, reach?, reach?]
    cases r.cross? a q name with
    | none => rfl
    | some hop => exact ih hop.related

theorem reach_child {r : Resolver} {a : Adapter} {q mid : Queryable} {hop : Hop}
    (reached : r.reach? a q path = some mid) (crossed : r.cross? a mid name = some hop) :
    r.reach? a q (path ++ [name]) = some hop.related := by
  rw [reach_append, reached, Option.bind_some, reach?, crossed]
  rfl

theorem field_exact {r : Resolver} {a : Adapter} {q : Queryable} {name : String} {path : FieldPath} {f : Field} :
    r.field a q name path = .ok f ↔ (a.fields q).find? (·.name == name) = some f := by
  unfold field
  rw [Catalog.fields_eq]
  split <;> simp [*]

theorem hop_exact {r : Resolver} {f : Field} {path : FieldPath} {hop : Hop} :
    r.hop f path = .ok hop ↔ ∃ link, f.link? = some link ∧ ∃ related, r.registry.get? link.target = some related ∧
      hop = ⟨link, related⟩ := by
  unfold Resolver.hop
  split
  · simp [*]
  · rename_i link linked
    split
    · rename_i related known
      simp [linked, known, eq_comm]
    · simp [*]

theorem cross_exact {r : Resolver} {a : Adapter} {q : Queryable} {name : String} (path : FieldPath) {hop : Hop} :
    (∃ f, r.field a q name path = .ok f ∧ r.hop f path = .ok hop) ↔ r.cross? a q name = some hop := by
  simp only [field_exact, hop_exact, cross?, Option.bind_eq_bind, Option.bind_eq_some_iff, Option.pure_def,
    Option.some.injEq, eq_comm (a := hop)]

end Resolver

-- The field is named in faults only.
theorem Operand.coerce_exact {field : String} {op : Operator} {ty : SemanticType} {members : Option (List String)}
    {raw : Json} {operand : Operand} :
    coerce field op ty members raw = .ok operand ↔ ofArity (op.arity ty) op ty members raw = .ok operand := by
  unfold coerce
  split <;> simp [*]

namespace FilterContext

theorem typed_parts {c : FilterContext} {scope : Scope} {path : FieldPath} {f : Field} {ty : SemanticType} {l : Leaf}
    {p : Predicate} : c.typed scope path f ty l = .ok p ↔
    c.adapter.implements ty l.operator = true ∧ c.requireFeature ty l.operator = .ok () ∧
      ∃ operand, Operand.coerce path.dotted l.operator ty f.enumMembers l.value = .ok operand ∧
        c.adapter.predicate? f l.operator operand ⟨some scope.binding, c.options.unit⟩ = some p := by
  unfold typed
  cases offered : c.adapter.implements ty l.operator with
  | false => simp [throw, throwThe, MonadExceptOf.throw, bind, Except.bind]
  | true =>
    simp only [Bool.not_true, Bool.false_eq_true, if_false, bind_exact, true_and]
    constructor
    · intro given
      obtain ⟨_, held, operand, coerced, built⟩ := given
      refine ⟨held, operand, coerced, ?_⟩
      split at built
      · rename_i found
        cases built
        exact found
      · cases built
    · intro given
      obtain ⟨held, operand, coerced, built⟩ := given
      refine ⟨(), held, operand, coerced, ?_⟩
      rw [built]
      rfl

theorem test_parts {c : FilterContext} {scope : Scope} {l : Leaf} {p : Predicate} : c.test scope l = .ok p ↔
    ∃ name f ty, l.field.head? = some name ∧ (c.adapter.fields scope.queryable).find? (·.name == name) = some f ∧
      f.type? = some ty ∧ c.typed scope (scope.path.append l.field) f ty l = .ok p := by
  unfold test
  cases l.field.head? with
  | none => simp [throw, throwThe, MonadExceptOf.throw]
  | some name =>
    simp only [bind_exact, Resolver.field_exact, Option.some.injEq]
    constructor
    · intro given
      obtain ⟨f, named, typed⟩ := given
      split at typed
      · cases typed
      · rename_i ty scalar
        exact ⟨name, f, ty, rfl, named, scalar, typed⟩
    · intro given
      obtain ⟨_, f, ty, rfl, named, scalar, typed⟩ := given
      refine ⟨f, named, ?_⟩
      rw [scalar]
      exact typed

end FilterContext

-- Where relative paths start once an association is crossed.
def Scope.enter (scope : Scope) (q : CompiledQuery) (head : String) (hop : Hop) : Scope :=
  ⟨hop.related, scope.path.child head, q.bindingFor (scope.path.child head)⟩

namespace Route

variable {c : FilterContext} {scope : Scope} {q joined : CompiledQuery} {p : Predicate}

theorem test_parts : (test l).compile c scope q = .ok (p, joined) ↔ c.test scope l = .ok p ∧ joined = q := by
  simp only [compile, bind_exact, pure, Except.pure, Except.ok.injEq, Prod.mk.injEq]
  constructor
  · intro given
    obtain ⟨built, tested, rfl, rfl⟩ := given
    exact ⟨tested, rfl⟩
  · intro given
    obtain ⟨tested, rfl⟩ := given
    exact ⟨p, tested, rfl, rfl⟩

theorem negate_parts {inner : Route} : (negate inner).compile c scope q = .ok (p, joined) ↔
    ∃ plain, inner.compile c scope q = .ok (plain, joined) ∧ p = plain.negate := by
  simp only [compile, bind_exact, pure, Except.pure, Except.ok.injEq, Prod.mk.injEq]
  constructor
  · intro given
    obtain ⟨⟨plain, after⟩, compiled, rfl, rfl⟩ := given
    exact ⟨plain, compiled, rfl⟩
  · intro given
    obtain ⟨plain, compiled, rfl⟩ := given
    exact ⟨(plain, joined), compiled, rfl, rfl⟩

theorem join_parts : (join op parts).compile c scope q = .ok (p, joined) ↔
    ∃ ps, compileAll c scope parts q = .ok (ps, joined) ∧ p = Predicate.join q.kind op ps := by
  simp only [compile, bind_exact, pure, Except.pure, Except.ok.injEq, Prod.mk.injEq]
  constructor
  · intro given
    obtain ⟨⟨ps, after⟩, compiled, rfl, rfl⟩ := given
    exact ⟨ps, compiled, rfl⟩
  · intro given
    obtain ⟨ps, compiled, rfl⟩ := given
    exact ⟨(ps, joined), compiled, rfl, rfl⟩

theorem nil_parts : compileAll c scope [] q = .ok (ps, joined) ↔ ps = [] ∧ joined = q := by
  simp only [compileAll, pure, Except.pure, Except.ok.injEq, Prod.mk.injEq]
  constructor
  · intro given
    obtain ⟨rfl, rfl⟩ := given
    exact ⟨rfl, rfl⟩
  · intro given
    obtain ⟨rfl, rfl⟩ := given
    exact ⟨rfl, rfl⟩

theorem cons_parts : compileAll c scope (part :: rest) q = .ok (ps, joined) ↔
    ∃ p mid others, part.compile c scope q = .ok (p, mid) ∧ compileAll c scope rest mid = .ok (others, joined) ∧
      ps = p :: others := by
  simp only [compileAll, bind_exact, pure, Except.pure, Except.ok.injEq, Prod.mk.injEq]
  constructor
  · intro given
    obtain ⟨⟨p, mid⟩, here, ⟨others, after⟩, later, rfl, rfl⟩ := given
    exact ⟨p, mid, others, here, later, rfl⟩
  · intro given
    obtain ⟨p, mid, others, here, later, rfl⟩ := given
    exact ⟨(p, mid), here, (others, joined), later, rfl, rfl⟩

-- A to-one association joins and goes on in the same query, a to-many one starts a query of its own.
theorem through_parts {inner : Route} : (through head inner).compile c scope q = .ok (p, joined) ↔
    ∃ hop, c.resolver.cross? c.adapter scope.queryable head = some hop ∧
      (hop.link.cardinality = .one ∧ inner.compile c (scope.enter q head hop)
          (q.bindToOne scope.binding (q.bindingFor (scope.path.child head)) hop.link hop.related) = .ok (p, joined) ∨
        hop.link.cardinality = .many ∧ joined = q ∧ ∃ p' below, inner.compile c (scope.enter q head hop)
          (q.openScope hop.related (q.bindingFor (scope.path.child head))) = .ok (p', below) ∧
          below.closeScope? scope.binding (q.bindingFor (scope.path.child head)) hop.link p' c.mode = some p) := by
  rw [compile]
  simp only [bind_exact]
  constructor
  · intro given
    obtain ⟨f, named, hop, led, rest⟩ := given
    refine ⟨hop, (Resolver.cross_exact _).mp ⟨f, named, led⟩, ?_⟩
    cases cardinality : hop.link.cardinality with
    | one =>
      rw [cardinality] at rest
      exact .inl ⟨rfl, rest⟩
    | many =>
      simp only [cardinality, bind_exact] at rest
      obtain ⟨⟨p', below⟩, compiled, closing⟩ := rest
      refine .inr ⟨rfl, ?_⟩
      split at closing
      · rename_i closed accepted
        cases closing
        exact ⟨rfl, p', below, compiled, accepted⟩
      · cases closing
  · intro given
    obtain ⟨hop, crossed, way⟩ := given
    obtain ⟨f, named, led⟩ := (Resolver.cross_exact (scope.path.child head)).mpr crossed
    refine ⟨f, named, hop, led, ?_⟩
    rcases way with ⟨cardinality, compiled⟩ | ⟨cardinality, rfl, p', below, compiled, accepted⟩
    · rw [cardinality]
      exact compiled
    · simp only [cardinality, bind_exact]
      refine ⟨(p', below), compiled, ?_⟩
      rw [accepted]
      rfl

end Route

namespace Resolver

theorem applyFilter_parts {r : Resolver} {base narrowed : CompiledQuery} {q : Queryable} {filter : FilterNode}
    {options : CompileOptions} : r.applyFilter base q filter options = .ok narrowed ↔
    filter.validate = .ok () ∧ options.access.check filter.referencedPaths = .ok () ∧
      r.checkDepths filter.referencedPaths = .ok () ∧
      (filter.isEmpty = true ∧ narrowed = base ∨
        filter.isEmpty = false ∧ ∃ a, r.adapterFor q = .ok a ∧ ∃ p joined,
          (Route.ofNode r.settings.reorder filter).compile ⟨r, a, options⟩ (.root q base.rootBinding) base =
            .ok (p, joined) ∧ joined.andPredicate? p = some narrowed) := by
  unfold applyFilter
  cases empty : filter.isEmpty with
  | true =>
    simp only [bind_exact, if_true, pure, Except.pure, Except.ok.injEq, true_and, Bool.true_eq_false, false_and, or_false]
    constructor
    · intro given
      obtain ⟨_, valid, _, permitted, _, shallow, same⟩ := given
      exact ⟨valid, permitted, shallow, same.symm⟩
    · intro given
      obtain ⟨valid, permitted, shallow, same⟩ := given
      exact ⟨(), valid, (), permitted, (), shallow, same.symm⟩
  | false =>
    simp only [bind_exact, Bool.false_eq_true, if_false, false_and, false_or, true_and]
    constructor
    · intro given
      obtain ⟨_, valid, _, permitted, _, shallow, a, served, ⟨p, joined⟩, compiled, accepted⟩ := given
      refine ⟨valid, permitted, shallow, a, served, p, joined, compiled, ?_⟩
      split at accepted
      · rename_i found
        cases accepted
        exact found
      · cases accepted
    · intro given
      obtain ⟨valid, permitted, shallow, a, served, p, joined, compiled, accepted⟩ := given
      refine ⟨(), valid, (), permitted, (), shallow, a, served, (p, joined), compiled, ?_⟩
      rw [accepted]
      rfl

theorem compileFilter_parts {r : Resolver} {q : Queryable} {filter : FilterNode} {options : CompileOptions}
    {query : CompiledQuery} : r.compileFilter q filter options = .ok query ↔
    (∃ a, r.adapterFor q = .ok a) ∧ r.applyFilter (.forQueryable q) q filter options = .ok query := by
  simp only [compileFilter, bind_exact, exists_and_right]

theorem valid_of_compiled {r : Resolver} {q : Queryable} {filter : FilterNode} {options : CompileOptions}
    {query : CompiledQuery} (accepted : r.compileFilter q filter options = .ok query) : filter.validate = .ok () :=
  (applyFilter_parts.mp (compileFilter_parts.mp accepted).2).1

end Resolver
end FilterQuery
