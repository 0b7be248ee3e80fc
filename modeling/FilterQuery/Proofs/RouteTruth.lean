import FilterQuery.Proofs.JoinNeeds

namespace FilterQuery

-- A LEFT JOIN with the one related row neither drops a row nor gives it twice.
def Database.KeepsRows (d : Database) : Prop := ∀ row s, d.rows row s = d.rows row { s with joins := [] }

namespace ToManyMode

def meets (mode : ToManyMode) (inner : ρ → Truth) (rows : List ρ) : Bool :=
  match mode with
  | anyMatch => rows.any fun r => inner r = .true
  | allMatch => rows.all fun r => inner r = .true

theorem meets_exact {mode : ToManyMode} {inner : ρ → Truth} {rows : List ρ} :
    mode.meets inner rows = true ↔ mode.Met inner rows := by
  cases mode <;> simp [meets, Met]

theorem allMatch_meets {inner : ρ → Truth} (always : ∀ r, inner r = .true) (rows : List ρ) :
    allMatch.meets inner rows = true :=
  meets_exact.mpr fun r _ => always r

end ToManyMode

theorem Truth.eq_ofBool {t : Truth} {b : Bool} (definite : t ≠ .unknown) (same : t = .true ↔ b = .true) :
    t = .ofBool b := by
  cases t with
  | unknown => exact absurd rfl definite
  | true => rw [same.mp rfl]; rfl
  | false =>
    cases b with
    | false => rfl
    | true => cases same.mpr rfl

theorem CompiledQuery.rows_of_unjoined {d : Database} (keeps : d.KeepsRows) {q other : CompiledQuery}
    (same : q.unjoined = other.unjoined) (outer : d.Row) : d.rows outer q.source = d.rows outer other.source := by
  have plain : ∀ q : CompiledQuery, { q.source with joins := [] } = q.unjoined.source := by
    intro q
    cases q <;> rfl
  rw [keeps outer q.source, keeps outer other.source, plain, plain, same]

theorem CompiledQuery.related_of_unjoined {d : Database} (keeps : d.KeepsRows) {q other : CompiledQuery}
    (same : q.unjoined = other.unjoined) (row : d.Row) (parent binding : String) (link : Link) :
    q.related d row parent binding link = other.related d row parent binding link := by
  cases q <;> cases other <;> try cases same
  · exact congrArg (List.filter _) (rows_of_unjoined keeps same row)
  · rfl

theorem Connective.value_perm (op : Connective) {members others : List Truth} (moved : members.Perm others) :
    op.value members = op.value others := by
  by_cases empty : members = []
  · subst empty
    rw [moved.nil_eq]
  · have nonempty : others ≠ [] := by
      rintro rfl
      exact empty moved.eq_nil
    rw [value_of_ne_nil op empty, value_of_ne_nil op nonempty, op.fold_perm moved]

namespace Route

mutual
-- Nothing is asked where a test is refused or an association leads nowhere: that does not compile.
def truthOn (c : FilterContext) (d : Database) (scope : Scope) (q : CompiledQuery) : Route → d.Row → Truth
  | test l, row =>
    match c.test scope l with
    | .ok p => p.truthOn d row
    | .error _ => .true
  | negate inner, row => (inner.truthOn c d scope q row).not
  | join op parts, row => op.value (truthsOn c d scope q parts row)
  | through head inner, row =>
    match c.resolver.cross? c.adapter scope.queryable head with
    | none => .true
    | some hop =>
      let binding := q.bindingFor (scope.path.child head)
      match hop.link.cardinality with
      | .one => inner.truthOn c d (scope.enter q head hop) q row
      | .many =>
        let opened := q.openScope hop.related binding
        .ofBool (c.mode.meets (inner.truthOn c d (scope.enter q head hop) opened)
          (opened.related d row scope.binding binding hop.link))

def truthsOn (c : FilterContext) (d : Database) (scope : Scope) (q : CompiledQuery) : List Route → d.Row → List Truth
  | [], _ => []
  | part :: rest, row => part.truthOn c d scope q row :: truthsOn c d scope q rest row
end

variable {c : FilterContext} {d : Database}

theorem truthsOn_eq_map (scope : Scope) (q : CompiledQuery) (parts : List Route) (row : d.Row) :
    truthsOn c d scope q parts row = parts.map (truthOn c d scope q · row) := by
  induction parts with
  | nil => rfl
  | cons part rest ih => rw [truthsOn, ih, List.map_cons]

theorem truthOn_one {scope : Scope} {q : CompiledQuery} (inner : Route) (row : d.Row)
    (crossed : c.resolver.cross? c.adapter scope.queryable head = some hop) (one : hop.link.cardinality = .one) :
    (through head inner).truthOn c d scope q row = inner.truthOn c d (scope.enter q head hop) q row := by
  rw [truthOn, crossed]
  simp only [one]

theorem truthOn_many {scope : Scope} {q : CompiledQuery} (inner : Route) (row : d.Row)
    (crossed : c.resolver.cross? c.adapter scope.queryable head = some hop) (many : hop.link.cardinality = .many) :
    (through head inner).truthOn c d scope q row =
      .ofBool (c.mode.meets
        (inner.truthOn c d (scope.enter q head hop) (q.openScope hop.related (q.bindingFor (scope.path.child head))))
        ((q.openScope hop.related (q.bindingFor (scope.path.child head))).related d row scope.binding
          (q.bindingFor (scope.path.child head)) hop.link)) := by
  rw [truthOn, crossed]
  simp only [many]

mutual
-- The query may have joined more than the one that the route is told for.
theorem compile_truthOn (route : Route) (keeps : d.KeepsRows) {scope : Scope} {q base joined : CompiledQuery}
    {p : Predicate} (same : q.unjoined = base.unjoined) (own : c.adapter.kind = base.kind)
    (compiled : route.compile c scope q = .ok (p, joined)) (row : d.Row) :
    p.truthOn d row = route.truthOn c d scope base row := by
  have kind := CompiledQuery.kind_of_unjoined same
  cases route with
  | test l =>
    obtain ⟨tested, _⟩ := test_parts.mp compiled
    rw [truthOn, tested]
  | negate inner =>
    obtain ⟨plain, inside, rfl⟩ := negate_parts.mp compiled
    rw [Predicate.truthOn_negate, truthOn, compile_truthOn inner keeps same own inside]
  | join op parts =>
    obtain ⟨ps, inside, rfl⟩ := join_parts.mp compiled
    have kinds := compileAll_own parts (own.trans kind.symm) inside
    rw [truthOn, ← compileAll_truthOn parts keeps same own inside, ← Predicate.truth_valuation,
      Predicate.truth_join (d.valuation row) op kinds]
    exact congrArg op.value (List.map_congr_left fun p _ => p.truth_valuation d row)
  | through head inner =>
    obtain ⟨hop, crossed, way⟩ := through_parts.mp compiled
    have binding := CompiledQuery.bindingFor_of_kind kind (scope.path.child head)
    have entered : scope.enter q head hop = scope.enter base head hop := by rw [Scope.enter, Scope.enter, binding]
    rw [entered, binding] at way
    rcases way with ⟨one, inside⟩ | ⟨many, _, plain, below, inside, closed⟩
    · rw [truthOn_one inner row crossed one]
      refine compile_truthOn inner keeps ?_ own inside row
      rw [CompiledQuery.unjoined_bindToOne, same]
    · rw [CompiledQuery.openScope_unjoined same] at inside
      have opened := compile_joins inner inside
      obtain ⟨definite, met⟩ := CompiledQuery.closeScope_met opened closed d row
      have within : ∀ r, plain.truthOn d r = inner.truthOn c d (scope.enter base head hop)
          (base.openScope hop.related (base.bindingFor (scope.path.child head))) r :=
        compile_truthOn inner keeps rfl (by simpa using own) inside
      rw [truthOn_many inner row crossed many]
      apply Truth.eq_ofBool definite
      rw [met, ToManyMode.meets_exact, CompiledQuery.related_of_unjoined keeps opened, funext within]

theorem compileAll_truthOn (parts : List Route) (keeps : d.KeepsRows) {scope : Scope} {q base joined : CompiledQuery}
    {ps : List Predicate} (same : q.unjoined = base.unjoined) (own : c.adapter.kind = base.kind)
    (compiled : compileAll c scope parts q = .ok (ps, joined)) (row : d.Row) :
    ps.map (·.truthOn d row) = truthsOn c d scope base parts row := by
  cases parts with
  | nil =>
    obtain ⟨rfl, _⟩ := nil_parts.mp compiled
    rfl
  | cons part rest =>
    obtain ⟨p, mid, others, here, later, rfl⟩ := cons_parts.mp compiled
    have left : mid.unjoined = base.unjoined := (compile_joins part here).trans same
    rw [List.map_cons, truthsOn, compile_truthOn part keeps same own here, compileAll_truthOn rest keeps left own later]
end

-- The order of what is walked side by side does not matter to any row.
theorem truthOn_rearranged {route other : Route} (moved : route.Rearranged other) (scope : Scope) (q : CompiledQuery)
    (row : d.Row) : route.truthOn c d scope q row = other.truthOn c d scope q row := by
  induction moved using Rearranged.along generalizing scope q row with
  | test l => rfl
  | negate _ ih => rw [truthOn, truthOn, ih]
  | join op paired below =>
    rw [truthOn, truthOn, truthsOn_eq_map, truthsOn_eq_map]
    refine op.value_perm (perm_of_paired (below.mono ?_))
    rintro part _ other _ ⟨_, same⟩
    exact same scope q row
  | through head _ ih =>
    simp only [truthOn, funext (ih _ _)]

end Route
end FilterQuery
