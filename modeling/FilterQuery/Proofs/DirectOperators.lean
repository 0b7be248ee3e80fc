import FilterQuery.Proofs.LeafVerdict

namespace FilterQuery

-- Adapters handle what names them, so the one that is found is the one that was asked for.
theorem AdapterSet.forQueryable_registered {s : AdapterSet} {a : Adapter} {q : Queryable} (registered : a ∈ s.adapters)
    (handled : a.handles q = true) : s.forQueryable q = .ok a := by
  have named : q.adapter = a := by simpa [Adapter.handles] using handled
  cases found : s.adapters.find? (·.handles q) with
  | none => exact absurd handled (List.find?_eq_none.mp found a registered)
  | some b =>
    have served : s.forQueryable q = .ok b := by rw [forQueryable, found]
    rw [served, ← forQueryable_exact served, named]

namespace Adapter

variable {a : Adapter}

-- Where the operator applies to the query, without a binding of its own.
def boundAt (query : CompiledQuery) (options : ApplyOptions) : ApplyOptions :=
  match options.binding with
  | some _ => options
  | none => options.bindTo query.rootBinding

-- What is applied is the predicate of the operator, when there is one and it is of the query's kind.
theorem applyOperator_eq (a : Adapter) (query : CompiledQuery) (f : Field) (op : Operator) (operand : Operand)
    (options : ApplyOptions) : a.applyOperator query f op operand options =
      ((a.predicate? f op operand (boundAt query options)).bind query.andPredicate?).elim (.noMatch query)
        .applied := by
  unfold applyOperator boundAt
  cases options.binding <;> dsimp only
  all_goals
    split
    · rename_i built
      rw [built, Option.bind_none, Option.elim_none]
    · rename_i p built
      rw [built, Option.bind_some]
      split
      · rename_i narrows
        rw [narrows, Option.elim_some]
      · rename_i foreign
        rw [foreign, Option.elim_none]

theorem applyOperator_applied {query : CompiledQuery} {f : Field} {options : ApplyOptions} {p : Predicate}
    (built : a.predicate? f op operand (boundAt query options) = some p)
    (narrows : query.andPredicate? p = some narrowed) :
    a.applyOperator query f op operand options = .applied narrowed := by
  rw [applyOperator_eq, built, Option.bind_some, narrows, Option.elim_some]

-- A predicate of another kind does not go into the query.
theorem applyOperator_foreign {query : CompiledQuery} (f : Field) (op : Operator) (operand : Operand)
    (options : ApplyOptions) (foreign : query.kind ≠ a.kind) :
    a.applyOperator query f op operand options = .noMatch query := by
  have unfit : (a.predicate? f op operand (boundAt query options)).bind query.andPredicate? = none := by
    rw [Option.bind_eq_none_iff]
    intro p built
    cases narrows : query.andPredicate? p with
    | none => rfl
    | some narrowed =>
      have same := CompiledQuery.andPredicate_exact.mp ⟨narrowed, narrows⟩
      exact absurd (same.symm.trans (predicate_kind built)) foreign
  rw [applyOperator_eq, unfit, Option.elim_none]

-- An association has no type, and an operator that is not offered for the type has no predicate.
theorem predicate_unserved {f : Field} (unserved : ∀ ty, f.type? = some ty → a.implements ty op = false)
    (operand : Operand) (options : ApplyOptions) : a.predicate? f op operand options = none := by
  unfold predicate?
  split
  · rename_i ty scalar
    simp [unserved ty scalar]
  · rfl

theorem applyOperator_unserved {f : Field} (unserved : ∀ ty, f.type? = some ty → a.implements ty op = false)
    (query : CompiledQuery) (operand : Operand) (options : ApplyOptions) :
    a.applyOperator query f op operand options = .noMatch query := by
  rw [applyOperator_eq, predicate_unserved unserved, Option.bind_none, Option.elim_none]

end Adapter

namespace Resolver

variable {r : Resolver} {a : Adapter} {q : Queryable} {options : CompileOptions}

-- A filter of one leaf on a field of the root adds the predicate of the leaf and nothing else.
theorem compileFilter_single {op : Operator} {raw : Json} {query : CompiledQuery} (served : r.adapterFor q = .ok a)
    (named : (a.fields q).find? (·.name == name) = some f) (scalar : f.type? = some ty)
    (permitted : options.access.allows ⟨[name]⟩ = true) :
    r.compileFilter q (.leaf ⟨⟨[name]⟩, op, raw⟩) options = .ok query ↔
      ∃ p, FilterContext.typed ⟨r, a, options⟩ (.root q (CompiledQuery.forQueryable q).rootBinding) ⟨[name]⟩ f ty
        ⟨⟨[name]⟩, op, raw⟩ = .ok p ∧ (CompiledQuery.forQueryable q).andPredicate? p = some query := by
  let l : Leaf := ⟨⟨[name]⟩, op, raw⟩
  let c : FilterContext := ⟨r, a, options⟩
  have checked : options.access.check (FilterNode.leaf l).referencedPaths = .ok () := by
    rw [FieldAccess.check_exact, FilterNode.forall_referencedPaths]
    simpa [FilterNode.leaves, l] using permitted
  have shallow : r.checkDepths (FilterNode.leaf l).referencedPaths = .ok () := by
    rw [checkDepths_exact, FilterNode.forall_referencedPaths]
    simp [FilterNode.leaves, l, checkDepth, FieldPath.length]
  have route : Route.ofNode r.settings.reorder (.leaf l) = .test l := Route.ofNode_flat _ rfl
  have tested : ∀ scope : Scope, scope.queryable = q → ∀ p, c.test scope l = .ok p ↔
      c.typed scope (scope.path.append l.field) f ty l = .ok p := by
    rintro scope rfl p
    rw [FilterContext.test_parts]
    constructor
    · rintro ⟨name', f', ty', first, named', scalar', typed⟩
      cases first
      cases named.symm.trans named'
      cases scalar.symm.trans scalar'
      exact typed
    · intro typed
      exact ⟨name, f, ty, rfl, named, scalar, typed⟩
  rw [compileFilter_parts, applyFilter_parts]
  constructor
  · rintro ⟨_, _, _, _, ⟨empty, _⟩ | ⟨_, a', served', p, joined, compiled, narrows⟩⟩
    · cases empty
    · cases served.symm.trans served'
      rw [route] at compiled
      obtain ⟨built, rfl⟩ := Route.test_parts.mp compiled
      exact ⟨p, (tested _ rfl p).mp built, narrows⟩
  · rintro ⟨p, typed, narrows⟩
    refine ⟨⟨a, served⟩, rfl, checked, shallow, .inr ⟨rfl, a, served, p, _, ?_, narrows⟩⟩
    rw [route]
    exact Route.test_parts.mpr ⟨(tested _ rfl p).mpr typed, rfl⟩

theorem compileFilter_applies {raw : Json} (served : r.adapterFor q = .ok a)
    (named : (a.fields q).find? (·.name == name) = some f) (scalar : f.type? = some ty)
    (offered : a.implements ty op = true) (permitted : options.access.allows ⟨[name]⟩ = true)
    (ungated : options.capability = none) (coerced : Operand.coerce label op ty f.enumMembers raw = .ok operand) :
    ∃ query, r.compileFilter q (.leaf ⟨⟨[name]⟩, op, raw⟩) options = .ok query ∧
      a.applyOperator (.forQueryable q) f op operand ⟨none, options.unit⟩ = .applied query := by
  let base := CompiledQuery.forQueryable q
  let bound : ApplyOptions := ⟨some base.rootBinding, options.unit⟩
  have own : a.kind = base.kind := by
    rw [CompiledQuery.kind_forQueryable, AdapterSet.forQueryable_exact served]
  obtain ⟨p, built⟩ := Adapter.predicate_built scalar offered coerced bound
  obtain ⟨query, narrows⟩ := CompiledQuery.andPredicate_exact.mpr ((Adapter.predicate_kind built).trans own)
  have ready : FilterContext.requireFeature ⟨r, a, options⟩ ty op = .ok () := by
    rw [FilterContext.requireFeature, ungated]
  have read : Operand.coerce (FieldPath.mk [name]).dotted op ty f.enumMembers raw = .ok operand :=
    Operand.coerce_exact.mpr (Operand.coerce_exact.mp coerced)
  refine ⟨query, ?_, Adapter.applyOperator_applied built narrows⟩
  exact (compileFilter_single served named scalar permitted).mpr
    ⟨p, FilterContext.typed_parts.mpr ⟨offered, ready, operand, read, built⟩, narrows⟩

end Resolver

-- Both doors lead to one query, whatever the operand and the unit. What the adapter does not serve stays out,
-- and the query is handed back.
theorem Adapter.applyOperator_agrees {r : Resolver} {a : Adapter} {q : Queryable} {options : CompileOptions}
    (registered : a ∈ r.adapters.adapters) (handled : a.handles q = true) (ungated : options.capability = none) :
    (∀ name f ty op raw label operand, (a.fields q).find? (·.name == name) = some f → f.type? = some ty →
      a.implements ty op = true → options.access.allows ⟨[name]⟩ = true →
      Operand.coerce label op ty f.enumMembers raw = .ok operand →
      ∃ query, r.compileFilter q (.leaf ⟨⟨[name]⟩, op, raw⟩) options = .ok query ∧
        a.applyOperator (.forQueryable q) f op operand ⟨none, options.unit⟩ = .applied query) ∧
    ∀ (query : CompiledQuery) (f : Field) (op : Operator) (operand : Operand) (applied : ApplyOptions),
      ((∀ ty, f.type? = some ty → a.implements ty op = false) ∨ query.kind ≠ a.kind) →
        a.applyOperator query f op operand applied = .noMatch query := by
  have served : r.adapterFor q = .ok a := AdapterSet.forQueryable_registered registered handled
  constructor
  · intro name f ty op raw label operand named scalar offered permitted coerced
    exact Resolver.compileFilter_applies served named scalar offered permitted ungated coerced
  · rintro query f op operand applied (unserved | foreign)
    · exact applyOperator_unserved unserved query operand applied
    · exact applyOperator_foreign f op operand applied foreign

-- No member of an empty list leaves the query as it is, and that counts as applied.
theorem albumNamed_agrees : ∃ f : Field,
    Adapter.sqlite ∈ albumResolver.adapters.adapters ∧ Adapter.sqlite.handles album = true ∧
      CompileOptions.standard.capability = none ∧ (Adapter.sqlite.fields album).find? (·.name == "name") = some f ∧
        f.type? = some .string ∧
    albumResolver.compileFilter album (albumNamed .notIn (.arr [])) .standard = .ok (.forQueryable album) ∧
    Adapter.sqlite.applyOperator (.forQueryable album) f .notIn (.list []) .empty = .applied (.forQueryable album) ∧
    Adapter.sqlite.applyOperator (.forQueryable album) f .similar (.pattern "a") .empty =
      .noMatch (.forQueryable album) := by
  have registered : Adapter.sqlite ∈ albumResolver.adapters.adapters := by decide
  have handled : Adapter.sqlite.handles album = true := by decide
  obtain ⟨f, named, scalar⟩ : ∃ f, (Adapter.sqlite.fields album).find? (·.name == "name") = some f ∧
      f.type? = some .string := by decide +kernel
  have ungated : CompileOptions.standard.capability = none := rfl
  obtain ⟨agrees, unserved⟩ := Adapter.applyOperator_agrees registered handled ungated
  obtain ⟨query, compiled, applied⟩ :=
    agrees "name" f .string .notIn (.arr []) "name" (.list []) named scalar rfl rfl rfl
  have kept : Adapter.sqlite.applyOperator (.forQueryable album) f .notIn (.list []) .empty =
      .applied (.forQueryable album) := by
    have built : Adapter.sqlite.predicate? f .notIn (.list []) (Adapter.boundAt (.forQueryable album) .empty) =
        some (.sql (.constant true)) := by
      rw [Adapter.predicate?, scalar]
      rfl
    exact Adapter.applyOperator_applied built rfl
  have same : query = .forQueryable album := by
    cases applied.symm.trans kept
    rfl
  rw [same] at compiled
  refine ⟨f, registered, handled, ungated, named, scalar, compiled, kept, unserved _ f _ _ _ (.inl ?_)⟩
  intro ty typed
  cases scalar.symm.trans typed
  rfl

end FilterQuery
