import FilterQuery.Proofs.JoinNeeds
import FilterQuery.Proofs.SelectScopes

namespace FilterQuery

namespace Resolver

-- To-one associations all the way.
def ToOne (r : Resolver) (a : Adapter) (q : Queryable) : List String → Prop
  | [] => True
  | name :: rest =>
    ∃ hop, r.cross? a q name = some hop ∧ hop.link.cardinality = .one ∧ r.ToOne a hop.related rest

theorem toOne_append {r : Resolver} {a : Adapter} {q mid : Queryable} {left right : List String}
    (reached : r.reach? a q left = some mid) :
    r.ToOne a q (left ++ right) ↔ r.ToOne a q left ∧ r.ToOne a mid right := by
  induction left generalizing q with
  | nil =>
    cases Option.some.inj reached
    simp [ToOne]
  | cons name rest ih =>
    obtain ⟨hop, crossed, further⟩ := Option.bind_eq_some_iff.mp reached
    rw [List.cons_append, ToOne, ToOne]
    constructor
    · rintro ⟨hop', crossed', one, along⟩
      cases Option.some.inj (crossed.symm.trans crossed')
      obtain ⟨before, after⟩ := (ih further).mp along
      exact ⟨⟨hop, crossed, one, before⟩, after⟩
    · rintro ⟨⟨hop', crossed', one, before⟩, after⟩
      cases Option.some.inj (crossed.symm.trans crossed')
      exact ⟨hop, crossed, one, (ih further).mpr ⟨before, after⟩⟩

theorem toOne_child {r : Resolver} {a : Adapter} {q mid : Queryable} {path : FieldPath} {hop : Hop}
    (reached : r.reach? a q path.segments = some mid) (crossed : r.cross? a mid name = some hop) :
    r.ToOne a q (path.child name).segments ↔ r.ToOne a q path.segments ∧ hop.link.cardinality = .one := by
  rw [FieldPath.child, toOne_append reached]
  refine and_congr_right fun _ => ?_
  constructor
  · rintro ⟨hop', crossed', one, _⟩
    cases Option.some.inj (crossed.symm.trans crossed')
    exact one
  · exact fun one => ⟨hop, crossed, one, trivial⟩

end Resolver

-- A path that starts with the other.
def FieldPath.Below (path above : FieldPath) : Prop := ∃ rest, path.segments = above.segments ++ rest

namespace FieldPath

theorem below_child {path target : FieldPath} (below : target.Below (path.child name)) : target.Below path := by
  obtain ⟨rest, shape⟩ := below
  exact ⟨name :: rest, by rw [shape, child, List.append_assoc]; rfl⟩

end FieldPath

-- Behind a to-many association nothing is to-one all the way.
theorem Resolver.not_toOne_below {r : Resolver} {a : Adapter} {q mid : Queryable} {path target : FieldPath} {hop : Hop}
    (reached : r.reach? a q path.segments = some mid) (crossed : r.cross? a mid name = some hop)
    (many : hop.link.cardinality = .many) (below : target.Below (path.child name)) :
    ¬r.ToOne a q target.segments := by
  intro along
  obtain ⟨rest, shape⟩ := below
  have behind : r.reach? a q (path.child name).segments = some hop.related := reach_child reached crossed
  rw [shape, toOne_append behind] at along
  have one := ((toOne_child reached crossed).mp along.1).2
  rw [many] at one
  cases one

-- The list is that of the paths crossed that are to-one all the way.
structure Wanted (r : Resolver) (base : CompiledQuery) (root : Queryable) (paths : List FieldPath) (bs : List Bound) :
    Prop where
  byPath : ∀ b ∈ bs, b.root = root ∧ b.ByPath r base
  exact : ∀ target, (∃ b ∈ bs, b.path = target) ↔ target ∈ paths ∧ r.ToOne root.adapter root target.segments

namespace Wanted

variable {r : Resolver} {base : CompiledQuery} {root : Queryable} {paths : List FieldPath} {scope : Scope} {hop : Hop}

theorem none : Wanted r base root [] [] := ⟨by simp, by simp⟩

theorem append {paths' : List FieldPath} (first : Wanted r base root paths bs)
    (second : Wanted r base root paths' bs') : Wanted r base root (paths ++ paths') (bs ++ bs') := by
  refine ⟨?_, ?_⟩
  · intro b member
    exact (List.mem_append.mp member).elim (first.byPath b) (second.byPath b)
  · intro target
    rw [List.mem_append, or_and_right, ← first.exact, ← second.exact]
    simp only [List.mem_append, or_and_right, exists_or]

theorem enter_one (placed : scope.Placed r root.adapter root base)
    (along : r.ToOne root.adapter root scope.path.segments)
    (crossed : r.cross? root.adapter scope.queryable head = some hop) (one : hop.link.cardinality = .one)
    (deeper : Wanted r base root paths bs) :
    Wanted r base root (scope.path.child head :: paths) (Bound.of root scope [] base head hop :: bs) := by
  refine ⟨?_, ?_⟩
  · intro b member
    rcases List.mem_cons.mp member with rfl | among
    · exact ⟨rfl, scope.path, head, scope.queryable, rfl, placed.reached, crossed, placed.bound, rfl⟩
    · exact deeper.byPath b among
  · intro target
    rw [List.mem_cons, or_and_right, ← deeper.exact]
    simp only [List.mem_cons, exists_eq_or_imp, Bound.of]
    refine or_congr_left ?_
    constructor
    · rintro rfl
      exact ⟨rfl, (Resolver.toOne_child placed.reached crossed).mpr ⟨along, one⟩⟩
    · rintro ⟨rfl, _⟩
      rfl

theorem enter_many (placed : scope.Placed r root.adapter root base)
    (crossed : r.cross? root.adapter scope.queryable head = some hop) (many : hop.link.cardinality = .many)
    (below : ∀ target ∈ paths, target.Below (scope.path.child head)) :
    Wanted r base root (scope.path.child head :: paths) [] := by
  refine ⟨by simp, ?_⟩
  intro target
  simp only [List.not_mem_nil, false_and, exists_false, false_iff, not_and]
  intro member
  refine Resolver.not_toOne_below placed.reached crossed many ?_
  rcases List.mem_cons.mp member with rfl | deeper
  · exact ⟨[], by rw [List.append_nil]⟩
  · exact below target deeper

end Wanted

namespace Route

mutual
theorem below_of_hops (route : Route) {path target : FieldPath} (crossed : target ∈ route.hops path) :
    target.Below path := by
  cases route with
  | test l => cases crossed
  | negate inner => exact below_of_hops inner crossed
  | join op parts => exact below_of_listHops parts crossed
  | through head inner =>
    rcases List.mem_cons.mp crossed with rfl | deeper
    · exact ⟨[head], rfl⟩
    · exact FieldPath.below_child (below_of_hops inner deeper)

theorem below_of_listHops (parts : List Route) {path target : FieldPath} (crossed : target ∈ listHops path parts) :
    target.Below path := by
  cases parts with
  | nil => cases crossed
  | cons part rest =>
    rcases List.mem_append.mp crossed with here | later
    · exact below_of_hops part here
    · exact below_of_listHops rest later
end

mutual
-- The associations that are joined around the route, each with its path.
def wants (c : FilterContext) (root : Queryable) (scope : Scope) (q : CompiledQuery) : Route → List Bound
  | test _ => []
  | negate inner => inner.wants c root scope q
  | join _ parts => allWants c root scope q parts
  | through head inner =>
    match c.resolver.cross? c.adapter scope.queryable head with
    | none => []
    | some hop =>
      match hop.link.cardinality with
      | .one => Bound.of root scope [] q head hop :: inner.wants c root (scope.enter q head hop) q
      | .many => []

def allWants (c : FilterContext) (root : Queryable) (scope : Scope) (q : CompiledQuery) : List Route → List Bound
  | [] => []
  | part :: rest => part.wants c root scope q ++ allWants c root scope q rest
end

variable {c : FilterContext} {root : Queryable} {base : CompiledQuery}

mutual
theorem wants_joins (route : Route) (scope : Scope) (q : CompiledQuery) :
    (route.wants c root scope q).map Bound.join = route.needs c scope q := by
  cases route with
  | test l => rfl
  | negate inner => exact wants_joins inner scope q
  | join op parts => exact allWants_joins parts scope q
  | through head inner =>
    rw [wants, needs]
    cases c.resolver.cross? c.adapter scope.queryable head with
    | none => rfl
    | some hop =>
      dsimp only
      cases hop.link.cardinality with
      | many => rfl
      | one => exact congrArg (_ :: ·) (wants_joins inner _ q)

theorem allWants_joins (parts : List Route) (scope : Scope) (q : CompiledQuery) :
    (allWants c root scope q parts).map Bound.join = allNeeds c scope q parts := by
  cases parts with
  | nil => rfl
  | cons part rest => rw [allWants, allNeeds, List.map_append, wants_joins part scope q, allWants_joins rest scope q]
end

mutual
theorem wants_exact (route : Route) {scope : Scope} {q joined : CompiledQuery} {p : Predicate}
    (served : c.adapter = root.adapter) (placed : scope.Placed c.resolver root.adapter root base)
    (along : c.resolver.ToOne root.adapter root scope.path.segments)
    (compiled : route.compile c scope q = .ok (p, joined)) (kind : q.kind = base.kind) :
    Wanted c.resolver base root (route.hops scope.path) (route.wants c root scope base) := by
  cases route with
  | test l => exact .none
  | negate inner =>
    obtain ⟨plain, inside, _⟩ := negate_parts.mp compiled
    exact wants_exact inner served placed along inside kind
  | join op parts =>
    obtain ⟨ps, inside, _⟩ := join_parts.mp compiled
    exact allWants_exact parts served placed along inside kind
  | through head inner =>
    obtain ⟨hop, crossed, way⟩ := through_parts.mp compiled
    rw [wants, hops, crossed]
    rw [served] at crossed
    have entered : scope.enter q head hop = scope.enter base head hop := by
      rw [Scope.enter, Scope.enter, CompiledQuery.bindingFor_of_kind kind]
    rcases way with ⟨one, inside⟩ | ⟨many, _, _⟩
    · simp only [one]
      rw [entered] at inside
      exact .enter_one placed along crossed one (wants_exact inner served (placed.enter_placed crossed rfl)
        ((Resolver.toOne_child placed.reached crossed).mpr ⟨along, one⟩) inside (by simpa using kind))
    · simp only [many]
      exact .enter_many placed crossed many fun target member => below_of_hops inner member

theorem allWants_exact (parts : List Route) {scope : Scope} {q joined : CompiledQuery} {ps : List Predicate}
    (served : c.adapter = root.adapter) (placed : scope.Placed c.resolver root.adapter root base)
    (along : c.resolver.ToOne root.adapter root scope.path.segments)
    (compiled : compileAll c scope parts q = .ok (ps, joined)) (kind : q.kind = base.kind) :
    Wanted c.resolver base root (listHops scope.path parts) (allWants c root scope base parts) := by
  cases parts with
  | nil => exact .none
  | cons part rest =>
    obtain ⟨p, mid, others, here, later, _⟩ := cons_parts.mp compiled
    exact .append (wants_exact part served placed along here kind)
      (allWants_exact rest served placed along later ((joined_kind here).trans kind))
end

end Route

-- A binding is joined once.
def Join.addTo (joins : List Join) (j : Join) : List Join :=
  if joins.any (·.binding == j.binding) then joins else joins ++ [j]

namespace CompiledQuery

theorem joins_addJoin {q : CompiledQuery} (sql : q.kind = .sql) (j : Join) :
    (q.addJoin j).joins = Join.addTo q.joins j := by
  cases q with
  | search r => cases sql
  | sql d s =>
    exact apply_ite Select.joins ..

theorem joins_foldl {q : CompiledQuery} (sql : q.kind = .sql) (js : List Join) :
    (js.foldl .addJoin q).joins = js.foldl Join.addTo q.joins := by
  induction js generalizing q with
  | nil => rfl
  | cons j rest ih =>
    have kept : (q.addJoin j).kind = .sql := by rw [kind_of_unjoined (q.unjoined_addJoin j), sql]
    rw [List.foldl_cons, List.foldl_cons, ih kept, joins_addJoin sql]

end CompiledQuery

-- The first join of each binding is kept, and nothing else.
theorem Bound.foldl_addTo (bs kept : List Bound) (nodup : (kept.map Bound.binding).Nodup) :
    ∃ all : List Bound, (bs.map Bound.join).foldl Join.addTo (kept.map Bound.join) = all.map Bound.join ∧
      (all.map Bound.binding).Nodup ∧ (∀ b ∈ all, b ∈ kept ++ bs) ∧
      ∀ b ∈ kept ++ bs, ∃ same ∈ all, same.binding = b.binding := by
  induction bs generalizing kept with
  | nil => exact ⟨kept, rfl, nodup, by simp, fun b member => ⟨b, by simpa using member, rfl⟩⟩
  | cons b rest ih =>
    have present : (kept.map Bound.join).any (·.binding == b.join.binding) = true ↔ b.binding ∈ kept.map Bound.binding := by
      simp [List.any_map, Bound.join]
    rw [List.map_cons, List.foldl_cons, Join.addTo]
    by_cases known : b.binding ∈ kept.map Bound.binding
    · rw [if_pos (present.mpr known)]
      obtain ⟨all, folded, apart, within, covers⟩ := ih kept nodup
      refine ⟨all, folded, apart, ?_, ?_⟩
      · intro b' member
        have old := within b' member
        simp only [List.mem_append, List.mem_cons] at old ⊢
        exact old.imp_right .inr
      · intro b' member
        simp only [List.mem_append, List.mem_cons] at member
        rcases member with old | rfl | new
        · exact covers b' (List.mem_append_left _ old)
        · obtain ⟨first, member, same⟩ := List.mem_map.mp known
          obtain ⟨own, among, named⟩ := covers first (List.mem_append_left _ member)
          exact ⟨own, among, named.trans same⟩
        · exact covers b' (List.mem_append_right _ new)
    · rw [if_neg (fun given => known (present.mp given))]
      have fresh : ((kept ++ [b]).map Bound.binding).Nodup := by
        rw [List.map_append, List.map_singleton, List.nodup_append]
        refine ⟨nodup, List.nodup_singleton _, ?_⟩
        rintro name old other new rfl
        rw [List.mem_singleton.mp new] at old
        exact known old
      obtain ⟨all, folded, apart, within, covers⟩ := ih _ fresh
      refine ⟨all, ?_, apart, ?_, ?_⟩
      · rw [← folded, List.map_append]
        rfl
      · intro b' member
        simpa using within b' member
      · intro b' member
        exact covers b' (by simpa using member)

-- The later query is the earlier one with the joins of the bounds, each binding once.
structure Gains (bs : List Bound) (q next : CompiledQuery) : Prop where
  kind : next.kind = q.kind
  rootBinding : next.rootBinding = q.rootBinding
  joins : next.joins = (bs.map Bound.join).foldl Join.addTo q.joins

namespace Gains

theorem of_frame {q next : CompiledQuery} (same : q.SameFrame next) : Gains [] q next :=
  ⟨same.kind, same.rootBinding, same.joins⟩

theorem trans {q mid next : CompiledQuery} (first : Gains bs q mid) (later : Gains bs' mid next) :
    Gains (bs ++ bs') q next := by
  refine ⟨later.kind.trans first.kind, later.rootBinding.trans first.rootBinding, ?_⟩
  rw [later.joins, first.joins, List.map_append, List.foldl_append]

theorem of_foldl {q : CompiledQuery} (sql : q.kind = .sql) (bs : List Bound) :
    Gains bs q ((bs.map Bound.join).foldl .addJoin q) := by
  have kept : ((bs.map Bound.join).foldl CompiledQuery.addJoin q).unjoined = q.unjoined := by
    induction bs generalizing q with
    | nil => rfl
    | cons b rest ih =>
      have same := q.unjoined_addJoin b.join
      rw [List.map_cons, List.foldl_cons, ih ((CompiledQuery.kind_of_unjoined same).trans sql), same]
  refine ⟨CompiledQuery.kind_of_unjoined kept, ?_, CompiledQuery.joins_foldl sql _⟩
  rw [← CompiledQuery.rootBinding_unjoined, kept, CompiledQuery.rootBinding_unjoined]

end Gains

theorem Route.compile_gains {c : FilterContext} {root : Queryable} {base : CompiledQuery} {route : Route} {scope : Scope}
    {q joined : CompiledQuery} {p : Predicate} (sql : q.kind = .sql) (kind : q.kind = base.kind)
    (compiled : route.compile c scope q = .ok (p, joined)) : Gains (route.wants c root scope base) q joined := by
  rw [compile_needs route compiled, needs_of_kind route scope kind, ← route.wants_joins scope base]
  exact .of_foldl sql _

namespace OrderContext

variable {c : OrderContext} {root : Queryable} {base : CompiledQuery}

-- The associations that are joined on the way of a term.
def wants (c : OrderContext) (root : Queryable) (scope : Scope) (q : CompiledQuery) : List String → List Bound
  | name :: next :: rest =>
    match c.resolver.cross? c.adapter scope.queryable name with
    | none => []
    | some hop =>
      match hop.link.cardinality with
      | .one => Bound.of root scope [] q name hop :: c.wants root (scope.enter q name hop) q (next :: rest)
      | .many => []
  | _ => []

theorem walk_gains {names : List String} {scope : Scope} {q sorted : CompiledQuery} (served : c.adapter = root.adapter)
    (placed : scope.Placed c.resolver root.adapter root base)
    (along : c.resolver.ToOne root.adapter root scope.path.segments) (sql : q.kind = .sql) (kind : q.kind = base.kind)
    (accepted : c.walk scope q names = .ok sorted) :
    Wanted c.resolver base root (scope.path.hopsTo names) (c.wants root scope base names) ∧
      Gains (c.wants root scope base names) q sorted := by
  induction names generalizing scope q with
  | nil => cases accepted
  | cons name later ih =>
    cases later with
    | nil => exact ⟨.none, .of_frame (flat_parts accepted)⟩
    | cons next rest =>
      obtain ⟨hop, crossed, way⟩ := walk_parts.mp accepted
      rw [wants, FieldPath.hopsTo, crossed]
      rw [served] at crossed
      have binding := CompiledQuery.bindingFor_of_kind kind (scope.path.child name)
      have entered : scope.enter q name hop = scope.enter base name hop := by rw [Scope.enter, Scope.enter, binding]
      rcases way with ⟨one, further⟩ | ⟨many, further⟩
      · simp only [one]
        rw [entered, binding, CompiledQuery.bindToOne_eq] at further
        have first : Gains [Bound.of root scope [] base name hop] q _ := .of_foldl sql _
        obtain ⟨deeper, gains⟩ := ih (placed.enter_placed crossed rfl)
          ((Resolver.toOne_child placed.reached crossed).mpr ⟨along, one⟩) (first.kind.trans sql)
          (first.kind.trans kind) further
        exact ⟨.enter_one placed along crossed one deeper, first.trans gains⟩
      · simp only [many]
        obtain ⟨⟨last, shape⟩, same⟩ := aggregate_parts further
        cases shape
        exact ⟨.enter_many placed crossed many (by simp [FieldPath.hopsTo]), .of_frame same⟩

end OrderContext

namespace QueryStep

-- The paths that the step joins: associations on the way to its fields, to-one all the way.
def Joins (r : Resolver) (step : QueryStep) (path : FieldPath) : Prop :=
  step.Crosses path ∧ r.ToOne step.root.adapter step.root path.segments

variable {r : Resolver} {base q next : CompiledQuery}

theorem orderBy_gains {a : Adapter} {root : Queryable} {options : CompileOptions} {terms : List OrderTerm}
    (served : a = root.adapter) (sql : q.kind = .sql) (kind : q.kind = base.kind)
    (rooted : q.rootBinding = base.rootBinding) (accepted : r.orderBy a root options q terms = .ok next) :
    ∃ bs, Wanted r base root (terms.flatMap fun term => FieldPath.empty.hopsTo term.path.segments) bs ∧
      Gains bs q next := by
  induction terms generalizing q with
  | nil =>
    cases accepted
    exact ⟨[], .none, .of_frame ⟨rfl, rfl, rfl⟩⟩
  | cons term rest ih =>
    obtain ⟨_, mid, walked, later⟩ := Resolver.orderBy_parts.mp accepted
    rw [rooted] at walked
    obtain ⟨wanted, first⟩ := OrderContext.walk_gains served Scope.Placed.root_placed trivial sql kind walked
    obtain ⟨bs, others, further⟩ :=
      ih (first.kind.trans sql) (first.kind.trans kind) (first.rootBinding.trans rooted) later
    exact ⟨_, wanted.append others, first.trans further⟩

theorem run_gains {step : QueryStep} (sql : q.kind = .sql) (kind : q.kind = base.kind)
    (rooted : q.rootBinding = base.rootBinding) (ran : step.run r q = .ok next) :
    ∃ bs, (∀ b ∈ bs, b.root = step.root ∧ b.ByPath r base) ∧
      (∀ path, (∃ b ∈ bs, b.path = path) ↔ step.Joins r path) ∧ Gains bs q next := by
  cases step with
  | filter root node options =>
    obtain ⟨valid, _, _, ⟨empty, rfl⟩ | ⟨_, a, served, p, joined, compiled, narrows⟩⟩ :=
      Resolver.applyFilter_parts.mp ran
    · refine ⟨[], by simp, ?_, .of_frame ⟨rfl, rfl, rfl⟩⟩
      simp [Joins, Crosses, fields, node.leaves_of_empty empty]
    · have own := (AdapterSet.forQueryable_exact served).symm
      rw [rooted] at compiled
      have wanted := Route.wants_exact _ own Scope.Placed.root_placed trivial compiled kind
      refine ⟨_, wanted.byPath, ?_, by
        simpa using (Route.compile_gains sql kind compiled).trans (.of_frame (CompiledQuery.sameFrame_andPredicate narrows))⟩
      intro path
      refine (wanted.exact path).trans (and_congr_left fun _ => ?_)
      refine (Route.layout_hops _ path node .empty (node.negatesOne_of_valid valid)).trans ?_
      simp [Crosses, fields]
  | order root terms options =>
    cases terms with
    | nil =>
      cases ran
      exact ⟨[], by simp, by simp [Joins, Crosses, fields], .of_frame ⟨rfl, rfl, rfl⟩⟩
    | cons term rest =>
      simp only [run, Resolver.applyOrder, List.isEmpty_cons, Bool.false_eq_true, if_false, bind_exact] at ran
      obtain ⟨_, _, a, served, accepted⟩ := ran
      obtain ⟨bs, wanted, gains⟩ :=
        orderBy_gains (AdapterSet.forQueryable_exact served).symm sql kind rooted accepted
      refine ⟨bs, wanted.byPath, ?_, gains⟩
      intro path
      refine (wanted.exact path).trans (and_congr_left fun _ => ?_)
      simp [Crosses, fields]

theorem runAll_gains {steps : List QueryStep} (sql : q.kind = .sql) (kind : q.kind = base.kind)
    (rooted : q.rootBinding = base.rootBinding) (ran : runAll r q steps = .ok next) :
    ∃ bs, (∀ b ∈ bs, b.ByPath r base) ∧
      (∀ root path, (∃ b ∈ bs, b.root = root ∧ b.path = path) ↔ ∃ step ∈ steps, step.root = root ∧ step.Joins r path) ∧
      Gains bs q next := by
  induction steps generalizing q with
  | nil =>
    cases ran
    exact ⟨[], by simp, by simp, .of_frame ⟨rfl, rfl, rfl⟩⟩
  | cons step rest ih =>
    obtain ⟨mid, first, later⟩ := bind_exact.mp ran
    obtain ⟨bs, own, here, gains⟩ := run_gains sql kind rooted first
    obtain ⟨others, others_own, there, further⟩ :=
      ih (gains.kind.trans sql) (gains.kind.trans kind) (gains.rootBinding.trans rooted) later
    refine ⟨bs ++ others, ?_, ?_, gains.trans further⟩
    · intro b member
      exact (List.mem_append.mp member).elim (fun among => (own b among).2) (others_own b)
    · intro root path
      simp only [List.mem_append, or_and_right, exists_or, there, List.mem_cons, exists_eq_left]
      refine or_congr_left ?_
      rw [← here]
      constructor
      · rintro ⟨b, member, rfl, rfl⟩
        exact ⟨(own b member).1.symm, b, member, rfl⟩
      · rintro ⟨rfl, b, member, rfl⟩
        exact ⟨b, member, (own b member).1, rfl⟩

end QueryStep

namespace ScopeRules

-- Qualifiers are names in scope.
def inScope : ScopeRules where
  link _ := True
  column names table _ := ∀ name, table = some name → name ∈ names
  key names binding := binding ∈ names
  column_wider within allowed name same := within (allowed name same)
  key_own here := here
  key_wider within known := within known

theorem inScope_tells (base : CompiledQuery) (path : FieldPath) : inScope.Tells base path := by
  intro before name _ names here
  refine ⟨?_, ?_⟩
  · intro table same
    unfold qualifier at same
    split at same
    · cases same
    · cases same
      exact here
  · intro table same
    cases same
    exact here

end ScopeRules

-- The condition of a join compares its own table with one of those before it.
theorem Join.Follows.reads {j : Join} (follows : j.Follows .inScope names) {x : Read} (read : x ∈ j.condition.reads) :
    ∃ table name, x = .column (some table) name ∧ (table = j.binding ∨ table ∈ names) := by
  obtain ⟨parent, hop, _, _, known, shape⟩ := follows
  rw [shape] at read
  rcases mem_correlation_reads.mp read with rfl | rfl
  · exact ⟨_, _, rfl, .inl rfl⟩
  · exact ⟨_, _, rfl, .inr known⟩

namespace Select.LaidWithin

variable {t : Select} {around : List String}

theorem follows {rules : ScopeRules} (within : t.LaidWithin rules around) (shape : t.joins = before ++ j :: after) :
    j.Follows rules (t.binding :: before.map Join.binding) := by
  have joined := within.joins
  rw [shape, joined_append] at joined
  exact joined.2.1

theorem qualified (within : t.LaidWithin .inScope around) {e : Expr} {qualifier column : String}
    (written : e ∈ t.exprs) (read : .column (some qualifier) column ∈ e.reads) : qualifier ∈ t.names ++ around := by
  rcases mem_exprs.mp written with clause | ⟨j, among, rfl⟩
  · rcases within.clauses e clause with inside | ⟨parent, hop, _, _, known, rfl⟩
    · cases inside _ read with
      | column allowed => exact allowed qualifier rfl
    · rcases mem_correlation_reads.mp read with same | same
      · cases same
        exact List.mem_append_left _ (List.mem_cons_self ..)
      · cases same
        exact List.mem_append_right _ known
  · obtain ⟨before, after, shape⟩ := List.append_of_mem among
    obtain ⟨_, _, same, tables⟩ := (within.follows shape).reads read
    cases same
    refine List.mem_append_left _ ?_
    rw [names, shape, List.map_append, List.map_cons]
    rcases tables with rfl | known
    · simp
    · rcases List.mem_cons.mp known with rfl | earlier
      · exact List.mem_cons_self ..
      · exact List.mem_cons_of_mem _ (List.mem_append_left _ earlier)

end Select.LaidWithin

namespace QueryStep

-- One join for each path, where paths and bindings go together.
theorem joins_of_paths {r : Resolver} {q : Queryable} {steps : List QueryStep} {d d' : Dialect} {s : Select}
    (ran : runAll r (.sql d (Select.new q.source)) steps = .ok (.sql d' s))
    (apart : ∀ step ∈ steps, ∀ path, step.Crosses path → ∀ other ∈ steps, ∀ path', other.Crosses path' →
      path.joined "__" = path'.joined "__" → step.root = other.root ∧ path = path') :
    ∃ bs : List Bound, s.joins = bs.map Bound.join ∧ (bs.map fun b => (b.root, b.path)).Nodup ∧
      (∀ b ∈ bs, b.ByPath r (.sql d (Select.new q.source))) ∧
      ∀ root path, (∃ b ∈ bs, b.root = root ∧ b.path = path) ↔
        ∃ step ∈ steps, step.root = root ∧ step.Joins r path := by
  obtain ⟨wanted, own, paths, gains⟩ := runAll_gains rfl rfl rfl ran
  obtain ⟨bs, joins, once, within, covers⟩ := Bound.foldl_addTo wanted [] List.nodup_nil
  have byPath : ∀ b ∈ bs, b.ByPath r (.sql d (Select.new q.source)) := fun b member => own b (within b member)
  have named : ∀ b : Bound, b.ByPath r (.sql d (Select.new q.source)) → b.binding = b.path.joined "__" := by
    rintro b ⟨_, _, _, _, _, _, _, binding⟩
    exact binding
  refine ⟨bs, gains.joins.trans joins, ?_, byPath, ?_⟩
  · refine List.Nodup.of_map (fun pair : Queryable × FieldPath => pair.2.joined "__") ?_
    have bindings : bs.map Bound.binding = bs.map fun b => b.path.joined "__" :=
      List.map_congr_left fun b member => named b (byPath b member)
    rw [List.map_map]
    exact bindings ▸ once
  · intro root path
    rw [← paths]
    constructor
    · rintro ⟨b, member, led, ends⟩
      exact ⟨b, within b member, led, ends⟩
    · rintro ⟨b, member, rfl, rfl⟩
      -- The join that was kept has the binding of this one, and so its path.
      obtain ⟨kept, among, same⟩ := covers b member
      have present := within kept among
      obtain ⟨step, first, led, crossed⟩ := (paths b.root b.path).mp ⟨b, member, rfl, rfl⟩
      obtain ⟨other, second, led', crossed'⟩ := (paths kept.root kept.path).mp ⟨kept, present, rfl, rfl⟩
      rw [named kept (own kept present), named b (own b member)] at same
      obtain ⟨root, path⟩ := apart other second _ crossed'.1 step first _ crossed.1 same
      exact ⟨kept, among, led'.symm.trans (root.trans led), path⟩

-- The qualifiers of a SELECT are its own names and those around it, and the condition of a join takes only its
-- own name and those before it. Where paths and bindings go together, the joins of the root are one to one with
-- the paths of to-one associations that the steps follow.
theorem names_in_scope {r : Resolver} {q : Queryable} {steps : List QueryStep} {d : Dialect} {s : Select}
    (sql : q.adapter.kind = .sql) (ran : runAll r (.forQueryable q) steps = .ok (.sql d s)) :
    (∀ around t, s.Holds around t → ∀ e ∈ t.exprs, ∀ table name,
      .column (some table) name ∈ e.reads → table ∈ t.names ++ around) ∧
    (∀ around t, s.Holds around t → ∀ before j after, t.joins = before ++ j :: after → ∀ x ∈ j.condition.reads,
      ∃ table name, x = .column (some table) name ∧
        (table = j.binding ∨ table = t.binding ∨ table ∈ before.map Join.binding)) ∧
    ((∀ step ∈ steps, ∀ path, step.Crosses path → ∀ other ∈ steps, ∀ path', other.Crosses path' →
        path.joined "__" = path'.joined "__" → step.root = other.root ∧ path = path') →
      ∃ bs : List Bound, s.joins = bs.map Bound.join ∧ (bs.map fun b => (b.root, b.path)).Nodup ∧
        (∀ b ∈ bs, b.ByPath r (.forQueryable q)) ∧
        ∀ root path, (∃ b ∈ bs, b.root = root ∧ b.path = path) ↔
          ∃ step ∈ steps, step.root = root ∧ step.Joins r path) := by
  obtain ⟨d', start⟩ := CompiledQuery.forQueryable_of_sql sql
  rw [start] at ran ⊢
  obtain ⟨_, _, same, _, _, laid⟩ := runAll_laid (Select.laid_new ScopeRules.inScope q.source)
    (fun step _ => ⟨fun _ _ => trivial, fun path _ => ScopeRules.inScope_tells _ path⟩) ran
  cases same
  refine ⟨?_, ?_, joins_of_paths ran⟩
  · intro around t holds e written table name read
    exact (laid.holds holds).qualified written read
  · intro around t holds before j after shape x read
    obtain ⟨table, name, same, tables⟩ := ((laid.holds holds).follows shape).reads read
    exact ⟨table, name, same, tables.imp_right List.mem_cons.mp⟩

end QueryStep

theorem byAgent_crosses (member : step ∈ byAgent) (crossed : step.Crosses path) :
    path = ⟨["carrier"]⟩ ∨ path = ⟨["carrier", "agent"]⟩ := by
  have fields : step.fields = [⟨["carrier", "agent", "name"]⟩] := by
    simp only [byAgent, List.mem_cons, List.not_mem_nil, or_false] at member
    rcases member with rfl | rfl <;> rfl
  obtain ⟨field, among, crossed⟩ := crossed
  rw [fields, List.mem_singleton] at among
  subst among
  simpa [FieldPath.hopsTo, FieldPath.child, FieldPath.empty] using crossed

-- Filter and order share the joins of carrier and agent.
theorem byAgent_names : shipment.adapter.kind = .sql ∧ ∃ d s,
    QueryStep.runAll shippingResolver (.forQueryable shipment) byAgent = .ok (.sql d s) ∧
    s.joins.map Join.binding = ["carrier", "carrier__agent"] ∧
    ∃ bs : List Bound, s.joins = bs.map Bound.join ∧ (bs.map fun b => (b.root, b.path)).Nodup ∧
      (∀ b ∈ bs, b.ByPath shippingResolver (.forQueryable shipment)) ∧
      ∀ root path, (∃ b ∈ bs, b.root = root ∧ b.path = path) ↔
        ∃ step ∈ byAgent, step.root = root ∧ step.Joins shippingResolver path := by
  have computed : ((QueryStep.runAll shippingResolver (.forQueryable shipment) byAgent).toOption.bind
      CompiledQuery.select?).map (fun s => s.joins.map Join.binding) = some ["carrier", "carrier__agent"] := by
    decide +kernel
  obtain ⟨d, s, ran, bindings⟩ := CompiledQuery.select_of_computed computed
  obtain ⟨_, _, joins⟩ := QueryStep.names_in_scope rfl ran
  refine ⟨rfl, d, s, ran, bindings, joins ?_⟩
  intro step member path crossed other member' path' crossed' same
  have roots : ∀ step ∈ byAgent, step.root = shipment := by decide
  refine ⟨(roots step member).trans (roots other member').symm, ?_⟩
  rcases byAgent_crosses member crossed with rfl | rfl <;>
    rcases byAgent_crosses member' crossed' with rfl | rfl <;> (revert same; decide)

end FilterQuery
