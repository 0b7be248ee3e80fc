import FilterQuery.Proofs.JoinNeeds
import FilterQuery.Proofs.LeafAcceptance
import FilterQuery.Proofs.RouteAlike

namespace FilterQuery

-- The order of children is a matter of speed only.
def Resolver.reordering (r : Resolver) (reorder : Bool) : Resolver :=
  { r with settings := { r.settings with reorder } }

namespace Select

theorem mem_join {s : Select} {j k : Join} (distinct : ∀ known ∈ s.joins, known.binding = j.binding → known = j) :
    k ∈ (s.join j).joins ↔ k ∈ s.joins ∨ k = j := by
  unfold join
  split
  · rename_i known
    obtain ⟨known, member, same⟩ := List.any_eq_true.mp known
    obtain rfl := distinct known member (by simpa using same)
    exact ⟨.inl, fun given => given.elim id fun same => same ▸ member⟩
  · simp

theorem nodup_join {s : Select} (nodup : s.joins.Nodup) (j : Join) : (s.join j).joins.Nodup := by
  unfold join
  split
  · exact nodup
  · rename_i fresh
    refine List.nodup_append.mpr ⟨nodup, List.nodup_singleton j, ?_⟩
    rintro known member _ new rfl
    rw [List.mem_singleton.mp new] at member
    exact fresh (List.any_eq_true.mpr ⟨j, member, beq_self_eq_true _⟩)

theorem foldl_join (js : List Join) {s : Select} (nodup : s.joins.Nodup)
    (distinct : ∀ j ∈ s.joins ++ js, ∀ k ∈ s.joins ++ js, j.binding = k.binding → j = k) :
    (js.foldl join s).joins.Nodup ∧ ∀ k, k ∈ (js.foldl join s).joins ↔ k ∈ s.joins ++ js := by
  induction js generalizing s with
  | nil => simpa using nodup
  | cons j rest ih =>
    have here : ∀ k, k ∈ (s.join j).joins ↔ k ∈ s.joins ∨ k = j := by
      intro k
      refine mem_join ?_
      intro known member
      exact distinct known (List.mem_append_left _ member) j (by simp)
    have same : ∀ k, k ∈ (s.join j).joins ++ rest ↔ k ∈ s.joins ++ j :: rest := by
      intro k
      rw [List.mem_append, here, List.mem_append, List.mem_cons, or_assoc]
    obtain ⟨apart, members⟩ := ih (nodup_join nodup j)
      (fun k member k' member' => distinct k ((same k).mp member) k' ((same k').mp member'))
    exact ⟨apart, fun k => (members k).trans (same k)⟩

end Select

namespace CompiledQuery

theorem rearranged_of_unjoined {q other : CompiledQuery} (same : q.unjoined = other.unjoined)
    (joins : q.joins.Perm other.joins) : q.Rearranged other := by
  cases q <;> cases other <;> first | cases same; done | skip
  · rename_i s _ other
    cases s
    cases other
    simp only [unjoined, sql.injEq, Select.mk.injEq] at same
    obtain ⟨rfl, rfl, rfl, rfl, _, rfl, rfl, rfl, rfl⟩ := same
    exact ⟨rfl, .of rfl rfl rfl joins (Expr.rearranged_refl _) rfl rfl rfl⟩
  · cases same
    exact ⟨rfl, Clause.rearranged_refl _, rfl, rfl, rfl⟩

theorem foldl_addJoin_sql (js : List Join) (d : Dialect) (s : Select) :
    js.foldl addJoin (sql d s) = sql d (js.foldl Select.join s) := by
  induction js generalizing s with
  | nil => rfl
  | cons j rest ih => rw [List.foldl_cons, List.foldl_cons, ← ih]; rfl

theorem unjoined_foldl (js : List Join) (q : CompiledQuery) : (js.foldl addJoin q).unjoined = q.unjoined := by
  induction js generalizing q with
  | nil => rfl
  | cons j rest ih => rw [List.foldl_cons, ih, unjoined_addJoin]

theorem foldl_addJoin_search (js : List Join) (r : SearchRequest) : js.foldl addJoin (search r) = search r := by
  induction js with
  | nil => rfl
  | cons j rest ih => exact ih

-- The order in which joins are added is the order in which they stand.
theorem foldl_addJoin_rearranged {q other : CompiledQuery} {js ks : List Join} (same : q.unjoined = other.unjoined)
    (plain : q.joins = []) (plain' : other.joins = [])
    (distinct : ∀ j ∈ js, ∀ k ∈ js, j.binding = k.binding → j = k) (members : ∀ j, j ∈ js ↔ j ∈ ks) :
    (js.foldl addJoin q).Rearranged (ks.foldl addJoin other) := by
  refine rearranged_of_unjoined (by rw [unjoined_foldl, unjoined_foldl, same]) ?_
  cases q <;> cases other <;> first | cases same; done | skip
  · rename_i s _ other
    change s.joins = [] at plain
    change other.joins = [] at plain'
    rw [foldl_addJoin_sql, foldl_addJoin_sql]
    have distinct' : ∀ j ∈ ks, ∀ k ∈ ks, j.binding = k.binding → j = k :=
      fun j member k member' => distinct j ((members j).mpr member) k ((members k).mpr member')
    have first := Select.foldl_join js (s := s) (by simp [plain]) (by simpa [plain] using distinct)
    have second := Select.foldl_join ks (s := other) (by simp [plain']) (by simpa [plain'] using distinct')
    refine (List.perm_ext_iff_of_nodup first.1 second.1).mpr ?_
    intro j
    rw [first.2, second.2, plain, plain', List.nil_append, List.nil_append, members]
  · rw [foldl_addJoin_search, foldl_addJoin_search]
    exact .refl _

theorem joins_openScope (q : CompiledQuery) (related : Queryable) (binding : String) :
    (q.openScope related binding).joins = [] := by
  cases q <;> rfl

end CompiledQuery

namespace Predicate

theorem rearranged_refl (p : Predicate) : p.Rearranged p := by
  cases p with
  | sql e => exact .same e
  | search c => exact .same c

end Predicate

namespace Route

variable {c : FilterContext}

theorem mem_allNeeds {scope : Scope} {q : CompiledQuery} {parts : List Route} :
    j ∈ allNeeds c scope q parts ↔ ∃ part ∈ parts, j ∈ part.needs c scope q := by
  induction parts with
  | nil => simp [allNeeds]
  | cons part rest ih => simp [allNeeds, ih]

theorem mem_needs {route other : Route} (moved : route.Rearranged other) (scope : Scope) (q : CompiledQuery) (j : Join) :
    j ∈ route.needs c scope q ↔ j ∈ other.needs c scope q := by
  induction moved using Rearranged.along generalizing scope with
  | test l => exact .rfl
  | negate _ ih => exact ih scope
  | join op paired below =>
    rw [needs, needs, mem_allNeeds, mem_allNeeds, ← not_iff_not]
    simp only [not_exists, not_and]
    refine forall_of_paired (fun _ _ same => not_congr same) (below.mono ?_)
    rintro part _ other _ ⟨_, same⟩
    exact same scope
  | through head _ ih =>
    rw [needs, needs]
    cases c.resolver.cross? c.adapter scope.queryable head with
    | none => exact .rfl
    | some hop =>
      dsimp only
      cases hop.link.cardinality with
      | one => simp only [List.mem_cons, ih]
      | many => exact .rfl

theorem listHops_mem {parts : List Route} (member : part ∈ parts) (crossed : target ∈ part.hops path) :
    target ∈ listHops path parts := by
  induction parts with
  | nil => cases member
  | cons first rest ih =>
    rcases List.mem_cons.mp member with rfl | later
    · exact List.mem_append_left _ crossed
    · exact List.mem_append_right _ (ih later)

-- The joins of the query come to the same, as long as no binding is shared by two paths.
theorem joined_rearranged {route other : Route} {root : Queryable} {base : CompiledQuery} {scope : Scope}
    {q q' joined joined' : CompiledQuery} {p p' : Predicate} (moved : route.Rearranged other)
    (served : c.adapter = root.adapter) (placed : scope.Placed c.resolver root.adapter root base)
    (kind : q.kind = base.kind) (same : q.unjoined = q'.unjoined) (plain : q.joins = []) (plain' : q'.joins = [])
    (apart : ∀ path ∈ route.hops scope.path, ∀ other ∈ route.hops scope.path,
      base.bindingFor path = base.bindingFor other → path = other)
    (compiled : route.compile c scope q = .ok (p, joined)) (compiled' : other.compile c scope q' = .ok (p', joined')) :
    joined.Rearranged joined' := by
  rw [compile_needs route compiled, compile_needs other compiled',
    ← other.needs_of_kind scope (CompiledQuery.kind_of_unjoined same)]
  exact CompiledQuery.foldl_addJoin_rearranged same plain plain' (route.needs_distinct served placed kind apart)
    (mem_needs moved scope q)

-- What each part gives does not depend on what the parts before it have joined.
theorem compileAll_rearranged {parts others : List Route} {scope : Scope} {q q' joined joined' : CompiledQuery}
    {ps ps' : List Predicate}
    (paired : Paired (fun part other => ∀ p p' mid mid', part.compile c scope q = .ok (p, mid) →
      other.compile c scope q' = .ok (p', mid') → p.Rearranged p') parts others)
    (compiled : compileAll c scope parts q = .ok (ps, joined))
    (compiled' : compileAll c scope others q' = .ok (ps', joined')) : Paired Predicate.Rearranged ps ps' := by
  have given : Paired (fun p p' : Option Predicate => ∀ x ∈ p, ∀ y ∈ p', x.Rearranged y) (ps.map some)
      (ps'.map some) := by
    rw [← compileAll_gives parts compiled, ← compileAll_gives others compiled']
    refine paired_map.mpr (paired.mono ?_)
    intro part _ other _ alike x known y known'
    obtain ⟨mid, here⟩ := gives_exact.mp known
    obtain ⟨mid', there⟩ := gives_exact.mp known'
    exact alike x y mid mid' here there
  exact (paired_map.mp given).mono fun x _ y _ moved => moved x rfl y rfl

theorem compile_rearranged {route other : Route} {root : Queryable} {base : CompiledQuery} {scope : Scope}
    {q q' joined joined' : CompiledQuery} {p p' : Predicate} (moved : route.Rearranged other)
    (served : c.adapter = root.adapter) (own : c.adapter.kind = base.kind)
    (placed : scope.Placed c.resolver root.adapter root base) (kind : q.kind = base.kind) (same : q.unjoined = q'.unjoined)
    (apart : ∀ path ∈ route.hops scope.path, ∀ other ∈ route.hops scope.path,
      base.bindingFor path = base.bindingFor other → path = other)
    (compiled : route.compile c scope q = .ok (p, joined)) (compiled' : other.compile c scope q' = .ok (p', joined')) :
    p.Rearranged p' := by
  induction moved using Rearranged.along generalizing scope q q' joined joined' p p' with
  | test l =>
    obtain ⟨tested, _⟩ := test_parts.mp compiled
    obtain ⟨tested', _⟩ := test_parts.mp compiled'
    cases tested.symm.trans tested'
    exact p.rearranged_refl
  | negate _ ih =>
    obtain ⟨plain, inside, rfl⟩ := negate_parts.mp compiled
    obtain ⟨plain', inside', rfl⟩ := negate_parts.mp compiled'
    exact Predicate.negate_rearranged (ih placed kind same apart inside inside')
  | @join op parts others _ below =>
    obtain ⟨ps, inside, rfl⟩ := join_parts.mp compiled
    obtain ⟨ps', inside', rfl⟩ := join_parts.mp compiled'
    have kind' : q'.kind = q.kind := (CompiledQuery.kind_of_unjoined same).symm
    have each : Paired Predicate.Rearranged ps ps' := by
      refine compileAll_rearranged (below.mono ?_) inside inside'
      rintro part member other _ ⟨_, ih⟩ x y mid mid' here there
      have among : ∀ path ∈ part.hops scope.path, path ∈ (Route.join op parts).hops scope.path :=
        fun path => listHops_mem (Multiset.mem_coe.mp member)
      exact ih placed kind same
        (fun path crossed other crossed' => apart path (among path crossed) other (among other crossed')) here there
    rw [kind']
    exact Predicate.join_rearranged op (compileAll_own parts (own.trans kind.symm) inside)
      (kind' ▸ compileAll_own others ((own.trans kind.symm).trans kind'.symm) inside') each
  | @through head inner other moved ih =>
    obtain ⟨hop, crossed, way⟩ := through_parts.mp compiled
    obtain ⟨hop', crossed', way'⟩ := through_parts.mp compiled'
    cases Option.some.inj (crossed.symm.trans crossed')
    have binding := CompiledQuery.bindingFor_of_kind (CompiledQuery.kind_of_unjoined same).symm (scope.path.child head)
    have entered : scope.enter q' head hop = scope.enter q head hop := by rw [Scope.enter, Scope.enter, binding]
    have below := placed.enter_placed (served ▸ crossed) kind
    have apart' : ∀ path ∈ inner.hops (scope.enter q head hop).path, ∀ other ∈ inner.hops (scope.enter q head hop).path,
        base.bindingFor path = base.bindingFor other → path = other :=
      fun path among other among' => apart path (List.mem_cons_of_mem _ among) other (List.mem_cons_of_mem _ among')
    rw [entered, binding] at way'
    rcases way with ⟨one, inside⟩ | ⟨many, _, plain, opened, inside, closed⟩
    · rcases way' with ⟨_, inside'⟩ | ⟨many, _⟩
      · refine ih below (by simpa using kind) ?_ apart' inside inside'
        rw [CompiledQuery.unjoined_bindToOne, CompiledQuery.unjoined_bindToOne, same]
      · cases one.symm.trans many
    · rcases way' with ⟨one, _⟩ | ⟨_, _, plain', opened', inside', closed'⟩
      · cases many.symm.trans one
      · rw [← CompiledQuery.openScope_unjoined same] at inside'
        have fresh := q.joins_openScope hop.related (q.bindingFor (scope.path.child head))
        have kind : (q.openScope hop.related (q.bindingFor (scope.path.child head))).kind = base.kind := by simpa using kind
        have filled := joined_rearranged moved served below kind rfl fresh fresh apart' inside inside'
        exact CompiledQuery.closeScope_rearranged filled (ih below kind rfl apart' inside inside') closed closed'

-- One leaf is walked the same way in any order.
theorem cleared_reordering (r : Resolver) (a : Adapter) (options : CompileOptions) (reorder reorder' : Bool) (l : Leaf)
    (owner : Queryable) : (ofNode reorder (.leaf l)).Cleared ⟨r, a, options⟩ owner ↔
      (ofNode reorder' (.leaf l)).Cleared ⟨r.reordering reorder', a, options⟩ owner := by
  cases nested : l.field.firstHop? with
  | none =>
    rw [ofNode_flat reorder nested, ofNode_flat reorder' nested]
    exact .rfl
  | some head =>
    rw [cleared_strip reorder nested, cleared_strip reorder' nested]
    refine exists_congr ?_
    intro hop
    exact and_congr_right fun _ => cleared_reordering r a options reorder reorder' l.strip hop.related
termination_by l.field.length
decreasing_by
  have long := FilterNode.length_of_firstHop nested
  simp only [Leaf.strip, FilterNode.length_tail]
  omega

mutual
theorem compile_reordering (r : Resolver) (a : Adapter) (options : CompileOptions) (reorder : Bool) (route : Route)
    (scope : Scope) (q : CompiledQuery) :
    route.compile ⟨r.reordering reorder, a, options⟩ scope q = route.compile ⟨r, a, options⟩ scope q := by
  cases route with
  | test l => rfl
  | negate inner => rw [compile, compile, compile_reordering]
  | join op parts => rw [compile, compile, compileAll_reordering]
  | through head inner =>
    rw [compile, compile]
    simp only [compile_reordering r a options reorder inner]
    rfl

theorem compileAll_reordering (r : Resolver) (a : Adapter) (options : CompileOptions) (reorder : Bool)
    (parts : List Route) (scope : Scope) (q : CompiledQuery) :
    compileAll ⟨r.reordering reorder, a, options⟩ scope parts q = compileAll ⟨r, a, options⟩ scope parts q := by
  cases parts with
  | nil => rfl
  | cons part rest =>
    rw [compileAll, compileAll, compile_reordering]
    refine bind_congr ?_
    rintro ⟨p, mid⟩
    dsimp only
    rw [compileAll_reordering]
end

end Route

namespace FilterNode

-- The associations on the way to the leaves.
def crossed (n : FilterNode) : List FieldPath := n.leaves.flatMap fun l => FieldPath.empty.hopsTo l.field.segments

-- Different paths have different aliases.
def AliasesApart (q : Queryable) (n : FilterNode) : Prop :=
  ∀ path ∈ n.crossed, ∀ other ∈ n.crossed,
    (CompiledQuery.forQueryable q).bindingFor path = (CompiledQuery.forQueryable q).bindingFor other → path = other

end FilterNode

theorem CompiledQuery.joins_forQueryable (q : Queryable) : (forQueryable q).joins = [] := by
  unfold forQueryable
  split <;> rfl

namespace Resolver

variable {r : Resolver} {q : Queryable} {filter other : FilterNode} {options : CompileOptions}
  {query moved : CompiledQuery}

theorem admits_reordering (r : Resolver) (a : Adapter) (reorder : Bool) (l : Leaf) :
    r.Admits a q options l ↔ (r.reordering reorder).Admits a q options l := by
  have cleared := Route.cleared_reordering r a options r.settings.reorder reorder l q
  constructor
  · rintro ⟨permitted, shallow, leads⟩
    exact ⟨permitted, shallow, cleared.mp leads⟩
  · rintro ⟨permitted, shallow, leads⟩
    exact ⟨permitted, shallow, cleared.mpr leads⟩

theorem compiles_shuffled (reorder : Bool) (shuffled : filter.Shuffled other) :
    (∃ query, r.compileFilter q filter options = .ok query) ↔
      ∃ query, (r.reordering reorder).compileFilter q other options = .ok query := by
  cases served : r.adapterFor q with
  | error fault =>
    have served' : (r.reordering reorder).adapterFor q = .error fault := served
    simp [compileFilter_parts, served, served']
  | ok a =>
    have served' : (r.reordering reorder).adapterFor q = .ok a := served
    have admitted : (∀ l ∈ filter.leaves, r.Admits a q options l) ↔
        ∀ l ∈ other.leaves, (r.reordering reorder).Admits a q options l := by
      simp only [(FilterNode.leaves_shuffled shuffled).mem_iff, r.admits_reordering a reorder]
    constructor
    · rintro ⟨query, accepted⟩
      have valid := valid_of_compiled accepted
      exact (compileFilter_admits served' ((FilterNode.validate_shuffled shuffled).mp valid)).mpr
        (admitted.mp ((compileFilter_admits served valid).mp ⟨query, accepted⟩))
    · rintro ⟨moved, accepted⟩
      have valid := valid_of_compiled accepted
      exact (compileFilter_admits served ((FilterNode.validate_shuffled shuffled).mpr valid)).mpr
        (admitted.mpr ((compileFilter_admits served' valid).mp ⟨moved, accepted⟩))

theorem query_shuffled (reorder : Bool) (shuffled : filter.Shuffled other) (apart : filter.AliasesApart q)
    (accepted : r.compileFilter q filter options = .ok query)
    (accepted' : (r.reordering reorder).compileFilter q other options = .ok moved) : query.Rearranged moved := by
  obtain ⟨a, served⟩ := (compileFilter_parts.mp accepted).1
  have served' : (r.reordering reorder).adapterFor q = .ok a := served
  obtain ⟨valid, _, _, p, joined, compiled, narrows⟩ := (compileFilter_route served).mp accepted
  obtain ⟨_, _, _, p', joined', compiled', narrows'⟩ := (compileFilter_route served').mp accepted'
  rw [Route.compile_reordering] at compiled'
  have sound := filter.negatesOne_of_valid valid
  have rearranged := Route.ofNode_rearranged r.settings.reorder reorder filter sound shuffled
  have adapter : a = q.adapter := (AdapterSet.forQueryable_exact served).symm
  have own : a.kind = (CompiledQuery.forQueryable q).kind := by rw [adapter, CompiledQuery.kind_forQueryable]
  have plain := CompiledQuery.joins_forQueryable q
  have hops : ∀ path, path ∈ (Route.ofNode r.settings.reorder filter).hops .empty ↔ path ∈ filter.crossed := by
    intro path
    rw [Route.layout_hops _ path filter .empty sound, FilterNode.crossed, List.mem_flatMap]
  have distinct : ∀ path ∈ (Route.ofNode r.settings.reorder filter).hops .empty,
      ∀ other ∈ (Route.ofNode r.settings.reorder filter).hops .empty,
        (CompiledQuery.forQueryable q).bindingFor path = (CompiledQuery.forQueryable q).bindingFor other → path = other := by
    intro path among other among'
    exact apart path ((hops path).mp among) other ((hops other).mp among')
  have around := Route.joined_rearranged rearranged adapter Scope.Placed.root_placed rfl rfl plain plain distinct
    compiled compiled'
  have inner := Route.compile_rearranged rearranged adapter own Scope.Placed.root_placed rfl rfl distinct
    compiled compiled'
  exact CompiledQuery.andPredicate_rearranged around inner narrows narrows'

-- However children are ordered, and reordered or not: the filter compiles or it does not, to one query up to the
-- order of members, conditions and joins, which finds the same rows.
theorem compileFilter_shuffled (r : Resolver) (q : Queryable) (options : CompileOptions) (reorder : Bool)
    (shuffled : filter.Shuffled other) :
    ((∃ query, r.compileFilter q filter options = .ok query) ↔
      ∃ moved, (r.reordering reorder).compileFilter q other options = .ok moved) ∧
    (filter.AliasesApart q → ∀ query moved, r.compileFilter q filter options = .ok query →
      (r.reordering reorder).compileFilter q other options = .ok moved →
        query.Rearranged moved ∧ ∀ d : Database, d.JoinsCommute →
          ∀ outer, (query.found d outer).Perm (moved.found d outer)) := by
  refine ⟨compiles_shuffled reorder shuffled, ?_⟩
  intro apart query moved accepted accepted'
  have rearranged := query_shuffled reorder shuffled apart accepted accepted'
  exact ⟨rearranged, fun d commute outer => CompiledQuery.found_rearranged commute rearranged outer⟩

end Resolver

def writer : Queryable := (Queryable.new "Writer" "writers" .postgres).withColumn "name" "text" false

def chapter : Queryable :=
  ((Queryable.new "Chapter" "chapters" .postgres).withColumn "pages" "integer" false).belongsTo "editor" "Writer" "editor_id"

def novel : Queryable :=
  (((Queryable.new "Novel" "novels" .postgres).withColumn "title" "text" false).belongsTo "author" "Writer"
    "author_id").hasMany "chapters" "Chapter" "novel_id"

def novelResolver : Resolver :=
  { Resolver.ofAdapters .standard .standard with
    registry := ((Registry.empty.register writer).register chapter).register novel }

def namedAnn : FilterNode := .leaf ⟨⟨["author", "name"]⟩, .eq, .str "Ann"⟩

def titledEmma : FilterNode := .leaf ⟨⟨["title"]⟩, .eq, .str "Emma"⟩

def editedByBo : FilterNode := .leaf ⟨⟨["chapters", "editor", "name"]⟩, .eq, .str "Bo"⟩

def longChapter : FilterNode := .leaf ⟨⟨["chapters", "pages"]⟩, .gt, .int 40⟩

-- One chapter is looked for, both times.
def annOrEmma : FilterNode := .combine .and [editedByBo, .combine .or [namedAnn, titledEmma], longChapter]

def emmaOrAnn : FilterNode := .combine .and [longChapter, editedByBo, .combine .or [titledEmma, namedAnn]]

theorem annOrEmma_shuffled : annOrEmma.Shuffled emmaOrAnn := by
  have pair : Paired FilterNode.Shuffled [namedAnn, titledEmma] [titledEmma, namedAnn] :=
    paired_perm (.refl _) (.swap ..) (.cons (.leaf _) (.cons (.leaf _) .zero))
  have both : Paired FilterNode.Shuffled [editedByBo, .combine .or [namedAnn, titledEmma], longChapter]
      [editedByBo, .combine .or [titledEmma, namedAnn], longChapter] :=
    .cons (.leaf _) (.cons (.combine .or pair) (.cons (.leaf _) .zero))
  exact .combine .and (paired_perm (.refl _) (List.perm_append_singleton longChapter [_, _]) both)

theorem annOrEmma_reordered : annOrEmma.Shuffled emmaOrAnn ∧ annOrEmma.AliasesApart novel ∧ ∃ query moved,
    novelResolver.compileFilter novel annOrEmma .standard = .ok query ∧
      (novelResolver.reordering true).compileFilter novel emmaOrAnn .standard = .ok moved ∧
        query.Rearranged moved ∧ reviewed.JoinsCommute ∧
          ∀ outer, (query.found reviewed outer).Perm (moved.found reviewed outer) := by
  have apart : annOrEmma.AliasesApart novel := by
    unfold FilterNode.AliasesApart
    decide +kernel
  have commute : reviewed.JoinsCommute := fun _ _ _ _ => .refl _
  obtain ⟨compiles, same⟩ := Resolver.compileFilter_shuffled novelResolver novel .standard true annOrEmma_shuffled
  have succeeded : (novelResolver.compileFilter novel annOrEmma .standard).isOk = true := by decide +kernel
  obtain ⟨query, accepted⟩ := ok_of_isOk succeeded
  obtain ⟨moved, accepted'⟩ := compiles.mp ⟨query, accepted⟩
  obtain ⟨rearranged, found⟩ := same apart query moved accepted accepted'
  exact ⟨annOrEmma_shuffled, apart, query, moved, accepted, accepted', rearranged, commute, found reviewed commute⟩

end FilterQuery
