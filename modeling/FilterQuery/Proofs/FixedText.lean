import FilterQuery.Proofs.FilterShapes
import FilterQuery.Proofs.LeafAcceptance
import FilterQuery.Proofs.MaskedText
import FilterQuery.Proofs.RouteRuns

namespace FilterQuery
namespace Route

variable {c : FilterContext}

theorem test_masked {scope : Scope} {l l' : Leaf} {p p' : Predicate} (sql : c.adapter ≠ .search)
    (same : l.outline = l'.outline) (tested : c.test scope l = .ok p) (tested' : c.test scope l' = .ok p') :
    p.masked = p'.masked := by
  obtain ⟨field, operator, value⟩ := Leaf.mk.inj same
  obtain ⟨name, f, ty, named, found, scalar, typed⟩ := FilterContext.test_parts.mp tested
  obtain ⟨name', f', ty', named', found', scalar', typed'⟩ := FilterContext.test_parts.mp tested'
  rw [← field, named] at named'
  cases named'
  rw [found] at found'
  cases found'
  rw [scalar] at scalar'
  cases scalar'
  obtain ⟨_, _, operand, coerced, built⟩ := FilterContext.typed_parts.mp typed
  obtain ⟨_, _, operand', coerced', built'⟩ := FilterContext.typed_parts.mp typed'
  rw [← operator] at value built' coerced'
  have shape := Operand.ofArity_outline value (Operand.coerce_exact.mp coerced) (Operand.coerce_exact.mp coerced')
  have alike := Adapter.predicate_veiled sql f l.operator shape ⟨some scope.binding, c.options.unit⟩
  rw [built, built'] at alike
  exact Option.some.inj alike

mutual
-- Runs over routes of one outline go the same way, and what they build differs in values only.
theorem compile_masked (route route' : Route) {scope : Scope} {q q' joined joined' : CompiledQuery} {p p' : Predicate}
    (sql : c.adapter ≠ .search) (same : route.outline = route'.outline) (alike : q.masked = q'.masked)
    (compiled : route.compile c scope q = .ok (p, joined))
    (compiled' : route'.compile c scope q' = .ok (p', joined')) :
    p.masked = p'.masked ∧ joined.masked = joined'.masked := by
  cases route with
  | test l =>
    cases route' <;> simp only [outline, reduceCtorEq, test.injEq] at same
    obtain ⟨tested, rfl⟩ := test_parts.mp compiled
    obtain ⟨tested', rfl⟩ := test_parts.mp compiled'
    exact ⟨test_masked sql same tested tested', alike⟩
  | negate inner =>
    cases route' <;> simp only [outline, reduceCtorEq, negate.injEq] at same
    obtain ⟨plain, inside, rfl⟩ := negate_parts.mp compiled
    obtain ⟨plain', inside', rfl⟩ := negate_parts.mp compiled'
    obtain ⟨masked, joins⟩ := compile_masked inner _ sql same alike inside inside'
    refine ⟨?_, joins⟩
    rw [Predicate.negate_masked, Predicate.negate_masked, masked]
  | join op parts =>
    cases route' <;> simp only [outline, reduceCtorEq, join.injEq] at same
    obtain ⟨rfl, same⟩ := same
    obtain ⟨ps, inside, rfl⟩ := join_parts.mp compiled
    obtain ⟨ps', inside', rfl⟩ := join_parts.mp compiled'
    obtain ⟨masked, joins⟩ := compileAll_masked parts _ sql same alike inside inside'
    refine ⟨?_, joins⟩
    rw [Predicate.join_masked, Predicate.join_masked, masked, CompiledQuery.kind_of_masked alike]
  | through head inner =>
    cases route' <;> simp only [outline, reduceCtorEq, through.injEq] at same
    obtain ⟨rfl, same⟩ := same
    obtain ⟨hop, crossed, way⟩ := through_parts.mp compiled
    obtain ⟨hop', crossed', way'⟩ := through_parts.mp compiled'
    rw [crossed] at crossed'
    cases crossed'
    have bound := CompiledQuery.bindingFor_of_kind (CompiledQuery.kind_of_masked alike) (scope.path.child head)
    have entered : scope.enter q head hop = scope.enter q' head hop := by rw [Scope.enter, Scope.enter, bound]
    rw [← entered, ← bound] at way'
    rcases way with ⟨one, inside⟩ | ⟨many, rfl, plain, below, inside, closed⟩
    · rcases way' with ⟨_, inside'⟩ | ⟨many, _⟩
      · refine compile_masked inner _ sql same ?_ inside inside'
        rw [CompiledQuery.bindToOne_masked, CompiledQuery.bindToOne_masked, alike]
      · rw [one] at many
        cases many
    · rcases way' with ⟨one, _⟩ | ⟨_, rfl, plain', below', inside', closed'⟩
      · rw [one] at many
        cases many
      · have opened : (joined.openScope hop.related (joined.bindingFor (scope.path.child head))).masked =
            (joined'.openScope hop.related (joined.bindingFor (scope.path.child head))).masked := by
          rw [CompiledQuery.openScope_masked, CompiledQuery.openScope_masked, alike]
        obtain ⟨masked, joins⟩ := compile_masked inner _ sql same opened inside inside'
        refine ⟨Option.some.inj ?_, alike⟩
        rw [← Option.map_some, ← closed, CompiledQuery.closeScope_masked, masked, joins,
          ← CompiledQuery.closeScope_masked, closed', Option.map_some]

theorem compileAll_masked (parts parts' : List Route) {scope : Scope} {q q' joined joined' : CompiledQuery}
    {ps ps' : List Predicate} (sql : c.adapter ≠ .search) (same : outlineAll parts = outlineAll parts')
    (alike : q.masked = q'.masked) (compiled : compileAll c scope parts q = .ok (ps, joined))
    (compiled' : compileAll c scope parts' q' = .ok (ps', joined')) :
    ps.map Predicate.masked = ps'.map Predicate.masked ∧ joined.masked = joined'.masked := by
  cases parts with
  | nil =>
    cases parts' <;> simp only [outlineAll, reduceCtorEq] at same
    obtain ⟨rfl, rfl⟩ := nil_parts.mp compiled
    obtain ⟨rfl, rfl⟩ := nil_parts.mp compiled'
    exact ⟨rfl, alike⟩
  | cons part rest =>
    cases parts' <;> simp only [outlineAll, reduceCtorEq, List.cons.injEq] at same
    obtain ⟨here, later⟩ := same
    obtain ⟨p, mid, others, first, further, rfl⟩ := cons_parts.mp compiled
    obtain ⟨p', mid', others', first', further', rfl⟩ := cons_parts.mp compiled'
    obtain ⟨masked, between⟩ := compile_masked part _ sql here alike first first'
    obtain ⟨all, joins⟩ := compileAll_masked rest _ sql later between further further'
    rw [List.map_cons, List.map_cons, masked, all]
    exact ⟨rfl, joins⟩
end

end Route

namespace Resolver

variable {r : Resolver} {q : Queryable} {filter filter' : FilterNode} {options : CompileOptions}
  {query query' : CompiledQuery}

theorem compileFilter_masked (sql : q.adapter ≠ .search) (same : filter.outline = filter'.outline)
    (compiled : r.compileFilter q filter options = .ok query)
    (compiled' : r.compileFilter q filter' options = .ok query') : query.masked = query'.masked := by
  obtain ⟨_, applied⟩ := compileFilter_parts.mp compiled
  obtain ⟨_, applied'⟩ := compileFilter_parts.mp compiled'
  obtain ⟨_, _, _, way⟩ := applyFilter_parts.mp applied
  obtain ⟨_, _, _, way'⟩ := applyFilter_parts.mp applied'
  rw [← filter.isEmpty_outline, same, filter'.isEmpty_outline] at way
  rcases way with ⟨empty, rfl⟩ | ⟨filled, a, served, p, joined, run, narrows⟩
  · rcases way' with ⟨_, rfl⟩ | ⟨filled, _⟩
    · rfl
    · rw [empty] at filled
      cases filled
  · rcases way' with ⟨empty, _⟩ | ⟨_, a', served', p', joined', run', narrows'⟩
    · rw [empty] at filled
      cases filled
    · rw [served] at served'
      cases served'
      have own : a ≠ .search := AdapterSet.forQueryable_exact served ▸ sql
      have routes : (Route.ofNode r.settings.reorder filter).outline =
          (Route.ofNode r.settings.reorder filter').outline := by
        rw [← Route.ofNode_outline, same, Route.ofNode_outline]
      obtain ⟨masked, joins⟩ := Route.compile_masked (c := ⟨r, a, options⟩) _ _ own routes rfl run run'
      have both : (joined.andPredicate? p).map CompiledQuery.masked =
          (joined'.andPredicate? p').map CompiledQuery.masked := by
        rw [CompiledQuery.andPredicate_masked, CompiledQuery.andPredicate_masked, masked, joins]
      rw [narrows, narrows'] at both
      exact Option.some.inj both

-- Operands reach the parameters and nothing else: whatever they hold, filters of one shape have one text.
theorem compileFilter_text (sql : q.adapter ≠ .search) (same : filter.SameShape filter')
    (compiled : r.compileFilter q filter options = .ok query)
    (compiled' : r.compileFilter q filter' options = .ok query') :
    query.render.text = query'.render.text ∧ query.render.params.length = query'.render.params.length :=
  CompiledQuery.render_masked (compileFilter_masked sql (filter.outline_of_sameShape filter' same) compiled compiled')

end Resolver

-- A title of the text given, no other title or length among those listed, on an album with a name.
def titledNotAmong (title : String) (titles : List String) (seconds : List Int) : FilterNode :=
  .combine .and [
    .leaf ⟨⟨["tracks", "title"]⟩, .startsWith, .str title⟩,
    .combine .not [.combine .or [
      .leaf ⟨⟨["tracks", "title"]⟩, .isIn, .arr (titles.map .str)⟩,
      .leaf ⟨⟨["tracks", "seconds"]⟩, .isIn, .arr (seconds.map .int)⟩]],
    .leaf ⟨⟨["name"]⟩, .isNull, .bool false⟩]

theorem titledNotAmong_sameShape (title title' : String) {titles titles' : List String} {seconds seconds' : List Int}
    (names : titles.length = titles'.length) (lengths : seconds.length = seconds'.length) :
    (titledNotAmong title titles seconds).SameShape (titledNotAmong title' titles' seconds') := by
  have started : (Leaf.mk ⟨["tracks", "title"]⟩ .startsWith (.str title)).SameShape
      ⟨⟨["tracks", "title"]⟩, .startsWith, .str title'⟩ := by
    constructor <;> simp [Operator.countsMembers]
  have named : (Leaf.mk ⟨["tracks", "title"]⟩ .isIn (.arr (titles.map .str))).SameShape
      ⟨⟨["tracks", "title"]⟩, .isIn, .arr (titles'.map .str)⟩ := by
    constructor <;> simp [Json.count, names]
  have timed : (Leaf.mk ⟨["tracks", "seconds"]⟩ .isIn (.arr (seconds.map .int))).SameShape
      ⟨⟨["tracks", "seconds"]⟩, .isIn, .arr (seconds'.map .int)⟩ := by
    constructor <;> simp [Json.count, lengths]
  have flagged : (Leaf.mk ⟨["name"]⟩ .isNull (.bool false)).SameShape ⟨⟨["name"]⟩, .isNull, .bool false⟩ :=
    ⟨rfl, rfl, Iff.rfl, fun _ => rfl, fun _ => rfl⟩
  simp [titledNotAmong, FilterNode.SameShape, FilterNode.AllSameShape, started, named, timed, flagged]

theorem titledNotAmong_text :
    album.adapter ≠ .search ∧
      (titledNotAmong "a" ["b", "c"] [60, 90]).SameShape (titledNotAmong "%' OR 1 = 1 --" ["?1", ""] [0, -1]) ∧
      ∃ query query', albumResolver.compileFilter album (titledNotAmong "a" ["b", "c"] [60, 90]) .standard = .ok query ∧
        albumResolver.compileFilter album (titledNotAmong "%' OR 1 = 1 --" ["?1", ""] [0, -1]) .standard = .ok query' ∧
        query.render.text = query'.render.text ∧ query.render.params.length = query'.render.params.length := by
  have sql : album.adapter ≠ .search := by decide
  have same : (titledNotAmong "a" ["b", "c"] [60, 90]).SameShape
      (titledNotAmong "%' OR 1 = 1 --" ["?1", ""] [0, -1]) :=
    titledNotAmong_sameShape _ _ rfl rfl
  have accepted : (albumResolver.compileFilter album (titledNotAmong "a" ["b", "c"] [60, 90]) .standard).isOk = true := by
    decide +kernel
  have accepted' : (albumResolver.compileFilter album
      (titledNotAmong "%' OR 1 = 1 --" ["?1", ""] [0, -1]) .standard).isOk = true := by
    decide +kernel
  obtain ⟨query, compiled⟩ := ok_of_isOk accepted
  obtain ⟨query', compiled'⟩ := ok_of_isOk accepted'
  exact ⟨sql, same, query, query', compiled, compiled', Resolver.compileFilter_text sql same compiled compiled'⟩

end FilterQuery
