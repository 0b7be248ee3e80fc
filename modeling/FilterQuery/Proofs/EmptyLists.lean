import FilterQuery.Proofs.DirectOperators
import FilterQuery.Proofs.PopulatedQueries
import FilterQuery.Proofs.RelatedRows
import FilterQuery.Proofs.RouteAlike

namespace FilterQuery

-- The operator that an empty list settles so.
def Operator.settling : Bool → Operator
  | false => isIn
  | true => notIn

-- What a leaf that lists nothing comes to.
def Leaf.settled? (l : Leaf) : Option Bool :=
  match l.operator, l.value with
  | .isIn, .arr [] => some false
  | .notIn, .arr [] => some true
  | _, _ => none

theorem Leaf.settled_exact {l : Leaf} : l.settled? = some b ↔ l.operator = .settling b ∧ l.value = .arr [] := by
  constructor
  · unfold settled?
    split <;> rintro ⟨⟩ <;> exact ⟨‹_›, ‹_›⟩
  · rintro ⟨listed, empty⟩
    rw [settled?, listed, empty]
    cases b <;> rfl

theorem Operand.coerce_empty (label : String) (b : Bool) (ty : SemanticType) (members : Option (List String)) :
    Operand.coerce label (.settling b) ty members (.arr []) = .ok (.list []) := by
  cases b <;> rfl

namespace Adapter

variable {a : Adapter} {f : Field} {options : ApplyOptions}

-- Whatever the type, and whatever a value of it would be wrapped in.
theorem leaf_settled (a : Adapter) (f : Field) (ty : SemanticType) (options : ApplyOptions) (b : Bool) :
    a.leaf f ty (.settling b) (.list []) options = some (.constant a.kind b) := by
  cases a <;> cases ty <;> cases b <;> rfl

theorem predicate_settled (scalar : f.type? = some ty) (offered : a.implements ty (.settling b) = true) :
    a.predicate? f (.settling b) (.list []) options = some (.constant a.kind b) := by
  rw [predicate?, scalar]
  simp only [offered, if_true]
  exact leaf_settled ..

theorem settled_of_predicate (built : a.predicate? f (.settling b) (.list []) options = some p) :
    p = .constant a.kind b := by
  unfold predicate? at built
  split at built
  · split at built
    · exact Option.some.inj (built.symm.trans (leaf_settled ..))
    · cases built
  · cases built

-- No connection is too old for it.
theorem requiredFeature_settling (offered : a.implements ty (.settling b) = true) :
    a.requiredFeature ty (.settling b) = none := by
  have plain : ty.isArray = false := by
    cases ty with
    | array element => cases a <;> cases element <;> cases b <;> cases offered
    | _ => rfl
  cases a <;> cases ty <;> cases b <;> first | rfl | cases offered | cases plain

end Adapter

theorem Predicate.truth_constant (v : Valuation) (k : QueryKind) (b : Bool) : (constant k b).truth v = .ofBool b := by
  cases k
  · rw [constant, truth, Expr.truth]
  · rw [constant, truth, Clause.truth]

theorem FilterContext.leafPredicate_settled {c : FilterContext} {root : Queryable} {base : CompiledQuery} {l : Leaf}
    (built : c.leafPredicate? root base l = some p) (settled : l.settled? = some b) : p = .constant c.adapter.kind b := by
  obtain ⟨listed, empty⟩ := Leaf.settled_exact.mp settled
  unfold leafPredicate? at built
  simp only [Option.bind_eq_bind, Option.bind_eq_some_iff, listed, empty, Operand.coerce_empty] at built
  obtain ⟨_, _, _, _, f, _, ty, _, operand, coerced, built⟩ := built
  cases coerced
  exact Adapter.settled_of_predicate built

namespace CompiledQuery

variable {q query : CompiledQuery}

theorem found_false (accepted : q.andPredicate? (.constant k false) = some query) (d : Database) (outer : d.Row) :
    query.found d outer = [] := by
  refine List.filter_eq_nil_iff.mpr ?_
  intro row _
  rw [← truth_valuation, truth_andPredicate _ accepted, Predicate.truth_constant]
  cases q.truth (d.valuation row) <;> decide

end CompiledQuery

-- What the leaf comes to when the others come to what they may.
def Leaf.settledOr (truth : Leaf → Truth) (l : Leaf) : Truth := l.settled?.elim (truth l) .ofBool

namespace Resolver

variable {r : Resolver} {a : Adapter} {q : Queryable} {options : CompileOptions} {query : CompiledQuery}

theorem compileFilter_settled {filter : FilterNode} (accepted : r.compileFilter q filter options = .ok query)
    (toOne : ∀ l ∈ filter.leaves, r.CrossesToOne q.adapter q l.field.segments) :
    ∃ leafOf : Leaf → Predicate,
      (∀ l ∈ filter.leaves,
        FilterContext.leafPredicate? ⟨r, q.adapter, options⟩ q (.forQueryable q) l = some (leafOf l)) ∧
      ∀ v, query.truth v = filter.kleene (Leaf.settledOr fun l => (leafOf l).truth v) := by
  obtain ⟨leafOf, known, means⟩ := applyFilter_truth (compileFilter_parts.mp accepted).2
    (CompiledQuery.kind_forQueryable q).symm toOne
  refine ⟨leafOf, known, fun v => ?_⟩
  rw [means v, CompiledQuery.truth_forQueryable, Truth.true_and]
  refine filter.kleene_congr ?_
  intro l member
  unfold Leaf.settledOr
  cases settled : l.settled? with
  | none => rfl
  | some b => rw [FilterContext.leafPredicate_settled (known l member) settled, Predicate.truth_constant, Option.elim_some]

theorem compileFilter_lone (served : r.adapterFor q = .ok a)
    (named : (a.fields q).find? (·.name == name) = some f) (scalar : f.type? = some ty)
    (offered : a.implements ty (.settling b) = true) (permitted : options.access.allows ⟨[name]⟩ = true) :
    ∃ query, r.compileFilter q (.leaf ⟨⟨[name]⟩, .settling b, .arr []⟩) options = .ok query ∧
      (CompiledQuery.forQueryable q).andPredicate? (.constant (CompiledQuery.forQueryable q).kind b) = some query := by
  have own : (CompiledQuery.forQueryable q).kind = a.kind := by
    rw [CompiledQuery.kind_forQueryable, AdapterSet.forQueryable_exact served]
  have fits : (Predicate.constant a.kind b).kind = (CompiledQuery.forQueryable q).kind := by
    rw [own]
    cases a <;> rfl
  obtain ⟨query, narrows⟩ := CompiledQuery.andPredicate_exact.mpr fits
  have ready : FilterContext.requireFeature ⟨r, a, options⟩ ty (.settling b) = .ok () := by
    rw [FilterContext.requireFeature, Adapter.requiredFeature_settling offered]
    cases options.capability <;> rfl
  refine ⟨query, (compileFilter_single served named scalar permitted).mpr ⟨_, ?_, narrows⟩, own ▸ narrows⟩
  exact FilterContext.typed_parts.mpr
    ⟨offered, ready, _, Operand.coerce_empty .., Adapter.predicate_settled scalar offered⟩

-- An empty list settles its leaf, also under NOT, and alone it either leaves the query as it is or has it find
-- nothing. What is compiled by filters and orders has no test of membership in nothing, at any depth.
theorem compileFilter_emptyLists (r : Resolver) (q : Queryable) :
    (∀ filter options query, r.compileFilter q filter options = .ok query →
      (∀ l ∈ filter.leaves, r.CrossesToOne q.adapter q l.field.segments) →
      ∃ leafOf : Leaf → Predicate,
        (∀ l ∈ filter.leaves,
          FilterContext.leafPredicate? ⟨r, q.adapter, options⟩ q (.forQueryable q) l = some (leafOf l)) ∧
        ∀ v, query.truth v = filter.kleene (Leaf.settledOr fun l => (leafOf l).truth v)) ∧
    (∀ a name f ty options, r.adapterFor q = .ok a → (a.fields q).find? (·.name == name) = some f →
      f.type? = some ty → options.access.allows ⟨[name]⟩ = true →
      (a.implements ty .notIn = true →
        r.compileFilter q (.leaf ⟨⟨[name]⟩, .notIn, .arr []⟩) options = .ok (.forQueryable q)) ∧
      (a.implements ty .isIn = true → ∃ query,
        r.compileFilter q (.leaf ⟨⟨[name]⟩, .isIn, .arr []⟩) options = .ok query ∧
          ∀ (d : Database) (outer : d.Row), query.found d outer = [])) ∧
    ∀ steps query, QueryStep.runAll r (.forQueryable q) steps = .ok query → query.Populated := by
  refine ⟨fun filter options query accepted toOne => compileFilter_settled accepted toOne, ?_, ?_⟩
  · intro a name f ty options served named scalar permitted
    refine ⟨fun offered => ?_, fun offered => ?_⟩
    · obtain ⟨query, accepted, narrows⟩ := compileFilter_lone (b := true) served named scalar offered permitted
      cases narrows.symm.trans (CompiledQuery.forQueryable q).andPredicate_true
      exact accepted
    · obtain ⟨query, accepted, narrows⟩ := compileFilter_lone (b := false) served named scalar offered permitted
      exact ⟨query, accepted, CompiledQuery.found_false narrows⟩
  · intro steps query ran
    exact QueryStep.runAll_populated (CompiledQuery.forQueryable_populated q) ran

end Resolver

def unnamedOr (other : Leaf) : FilterNode :=
  .combine .or [.combine .not [albumNamed .notIn (.arr [])], .leaf other]

-- Under NOT the list that leaves nothing out lets nothing through, and the other leaf decides.
theorem unnamedOr_settled : ∃ f query other,
    albumResolver.adapterFor album = .ok .sqlite ∧ (Adapter.sqlite.fields album).find? (·.name == "name") = some f ∧
      f.type? = some .string ∧
    albumResolver.compileFilter album (unnamedOr ⟨⟨["name"]⟩, .eq, .str "a"⟩) .standard = .ok query ∧
    FilterContext.leafPredicate? ⟨albumResolver, .sqlite, .standard⟩ album (.forQueryable album)
      ⟨⟨["name"]⟩, .eq, .str "a"⟩ = some other ∧
    (∀ v, query.truth v = other.truth v) ∧ query.Populated ∧
    albumResolver.compileFilter album (albumNamed .notIn (.arr [])) .standard = .ok (.forQueryable album) ∧
    ∃ nothing, albumResolver.compileFilter album (albumNamed .isIn (.arr [])) .standard = .ok nothing ∧
      ∀ (d : Database) (outer : d.Row), nothing.found d outer = [] := by
  let l : Leaf := ⟨⟨["name"]⟩, .eq, .str "a"⟩
  obtain ⟨f, named, scalar⟩ : ∃ f, (Adapter.sqlite.fields album).find? (·.name == "name") = some f ∧
      f.type? = some .string := by decide +kernel
  have succeeded : (albumResolver.compileFilter album (unnamedOr l) .standard).isOk = true := by decide +kernel
  obtain ⟨query, accepted⟩ := ok_of_isOk succeeded
  have permitted : CompileOptions.standard.access.allows ⟨["name"]⟩ = true := rfl
  obtain ⟨settles, lone, populated⟩ := Resolver.compileFilter_emptyLists albumResolver album
  obtain ⟨without, within⟩ := lone .sqlite "name" f .string .standard rfl named scalar permitted
  have toOne : ∀ l' ∈ (unnamedOr l).leaves, albumResolver.CrossesToOne album.adapter album l'.field.segments := by
    intro l' member
    rcases List.mem_pair.mp member with rfl | rfl <;> trivial
  obtain ⟨leafOf, known, means⟩ := settles _ _ query accepted toOne
  have decided : ∀ v, query.truth v = (leafOf l).truth v := by
    intro v
    rw [means v]
    show Connective.or.value [(Truth.ofBool true).not, (leafOf l).truth v] = _
    cases (leafOf l).truth v <;> rfl
  have ran : QueryStep.runAll albumResolver (.forQueryable album) [.filter album (unnamedOr l) .standard] = .ok query :=
    bind_exact.mpr ⟨query, (Resolver.compileFilter_parts.mp accepted).2, rfl⟩
  refine ⟨f, query, leafOf l, rfl, named, scalar, accepted, known l ?_, decided, populated _ query ran, ?_, ?_⟩
  · exact List.mem_pair.mpr (.inr rfl)
  · exact without (by decide)
  · exact within (by decide)

end FilterQuery
