import FilterQuery.Proofs.BindingTrace
import FilterQuery.Proofs.FilterMeaning
import FilterQuery.Proofs.LeafAcceptance
import FilterQuery.Proofs.WhereParts

namespace FilterQuery

theorem FieldPath.leadingParts_child (path : FieldPath) (name : String) :
    (path.child name).leadingParts = path.leadingParts ++ [path.child name] := by
  simp only [leadingParts, child, List.length_append, List.length_singleton, List.range_succ, List.map_append,
    List.map_singleton]
  refine congrArg₂ (· ++ ·) (List.map_congr_left ?_) ?_
  · intro n short
    rw [List.take_append_of_le_length (List.mem_range.mp short)]
  · rw [List.take_of_length_le (by simp)]

namespace Resolver

-- The association that the path ends with.
def crossing? (r : Resolver) (a : Adapter) (root : Queryable) (path : FieldPath) : Option Hop := do
  let owner ← r.reach? a root path.segments.dropLast
  let name ← path.segments.getLast?
  r.cross? a owner name

def leadsToMany (r : Resolver) (a : Adapter) (root : Queryable) (path : FieldPath) : Bool :=
  (r.crossing? a root path).any (·.link.cardinality == .many)

-- The SELECTs around what stands at the end of the path: one for each to-many association on the way, and last
-- that of the query.
def selectsTo (r : Resolver) (a : Adapter) (root : Queryable) (base : CompiledQuery) (path : FieldPath) : List String :=
  ((path.leadingParts.filter (r.leadsToMany a root)).map base.bindingFor).reverse ++ [base.rootBinding]

theorem crossing_child {r : Resolver} {a : Adapter} {root owner : Queryable} {path : FieldPath}
    (reached : r.reach? a root path.segments = some owner) (name : String) :
    r.crossing? a root (path.child name) = r.cross? a owner name := by
  simp only [crossing?, FieldPath.child, List.dropLast_concat, List.getLast?_concat, reached, Option.bind_eq_bind,
    Option.bind_some]

theorem selectsTo_child (r : Resolver) (a : Adapter) (root : Queryable) (base : CompiledQuery) (path : FieldPath)
    (name : String) : r.selectsTo a root base (path.child name) =
      if r.leadsToMany a root (path.child name) then base.bindingFor (path.child name) :: r.selectsTo a root base path
      else r.selectsTo a root base path := by
  unfold selectsTo
  rw [FieldPath.leadingParts_child, List.filter_append]
  split
  · rename_i many
    simp [many]
  · rename_i one
    simp [one]

end Resolver

namespace FilterContext

-- What the leaf brings to the WHERE, in the SELECTs of its own association path.
def leafContents (c : FilterContext) (root : Queryable) (base : CompiledQuery) (l : Leaf) : List WherePart :=
  match c.leafPredicate? root base l with
  | some built => built.contents (c.resolver.selectsTo c.adapter root base ⟨l.field.segments.dropLast⟩)
  | none => []

-- What a subquery for the association at the end of the path brings.
def crossedContents (c : FilterContext) (root : Queryable) (base : CompiledQuery) (path : FieldPath) : List WherePart :=
  match c.resolver.crossing? c.adapter root path with
  | some hop =>
    CompiledQuery.subqueryParts base.kind (c.resolver.selectsTo c.adapter root base ⟨path.segments.dropLast⟩)
      (base.bindingAt ⟨path.segments.dropLast⟩) (base.bindingFor path) hop.link
  | none => []

-- What the leaves bring and, for each to-many association crossed, what its subquery brings.
def contents (c : FilterContext) (root : Queryable) (base : CompiledQuery) (leaves : List Leaf) (hops : List FieldPath) :
    List WherePart :=
  leaves.flatMap (c.leafContents root base) ++
    (hops.filter (c.resolver.leadsToMany c.adapter root)).flatMap (c.crossedContents root base)

variable {c : FilterContext} {root : Queryable} {base : CompiledQuery} {leaves : List Leaf} {hops : List FieldPath}

theorem contents_append (leaves others : List Leaf) (hops further : List FieldPath) :
    (c.contents root base leaves hops ++ c.contents root base others further).Perm
      (c.contents root base (leaves ++ others) (hops ++ further)) := by
  unfold contents
  rw [List.flatMap_append, List.filter_append, List.flatMap_append, List.append_assoc, List.append_assoc]
  exact (List.perm_append_comm_assoc ..).append_left _

theorem contents_passed {path : FieldPath} (passed : c.resolver.leadsToMany c.adapter root path = false) :
    c.contents root base leaves (path :: hops) = c.contents root base leaves hops := by
  rw [contents, List.filter_cons_of_neg (by simpa using passed), contents]

theorem contents_opened {path : FieldPath} (opened : c.resolver.leadsToMany c.adapter root path = true) :
    (c.contents root base leaves (path :: hops)).Perm
      (c.crossedContents root base path ++ c.contents root base leaves hops) := by
  rw [contents, List.filter_cons_of_pos opened, List.flatMap_cons, contents]
  exact List.perm_append_comm_assoc ..

end FilterContext

namespace FilterNode

mutual
-- No combinator is childless.
def Occupied : FilterNode → Prop
  | leaf _ => True
  | combine _ children => children ≠ [] ∧ AllOccupied children

def AllOccupied : List FilterNode → Prop
  | [] => True
  | n :: rest => n.Occupied ∧ AllOccupied rest
end

theorem allOccupied_exact {nodes : List FilterNode} : AllOccupied nodes ↔ ∀ n ∈ nodes, n.Occupied := by
  induction nodes with
  | nil => simp [AllOccupied]
  | cons n rest ih => simp [AllOccupied, ih]

mutual
theorem occupied_strip (n : FilterNode) (occupied : n.Occupied) : n.strip.Occupied := by
  cases n with
  | leaf l => trivial
  | combine op children =>
    refine ⟨?_, allOccupied_stripAll children occupied.2⟩
    rw [← List.length_pos_iff, length_stripAll, List.length_pos_iff]
    exact occupied.1

theorem allOccupied_stripAll (nodes : List FilterNode) (occupied : AllOccupied nodes) :
    AllOccupied (stripAll nodes) := by
  cases nodes with
  | nil => trivial
  | cons n rest => exact ⟨occupied_strip n occupied.1, allOccupied_stripAll rest occupied.2⟩
end

end FilterNode

namespace Route

mutual
-- Every connective has something to connect.
def Filled : Route → Prop
  | test _ => True
  | negate inner => inner.Filled
  | join _ parts => parts ≠ [] ∧ AllFilled parts
  | through _ inner => inner.Filled

def AllFilled : List Route → Prop
  | [] => True
  | part :: rest => part.Filled ∧ AllFilled rest
end

theorem layout_filled (reorder : Bool) : ∀ n, n.Occupied → (ofNode reorder n).Filled := by
  apply ofNode.induct reorder (fun n => n.Occupied → (ofNode reorder n).Filled)
    (fun op ns => ns ≠ [] → FilterNode.AllOccupied ns → (ofNodes reorder op ns).Filled)
    (fun op siblings => FilterNode.AllOccupied (Sibling.nodes siblings) → AllFilled (ofSiblings reorder op siblings))
  case case1 =>
    intro l flat _
    rw [ofNode_flat reorder flat]
    trivial
  case case2 =>
    intro l head nested ih _
    rw [ofNode_nested reorder nested]
    exact ih (by simp) ⟨trivial, trivial⟩
  case case3 =>
    intro child rest ih occupied
    rw [ofNode]
    exact ih occupied.2.1
  case case4 =>
    intro op children plain ih occupied
    rw [ofNode_connective reorder plain]
    exact ih occupied.1 occupied.2
  case case5 =>
    intro op ns ih nonempty occupied
    have moved := Sibling.nodes_arranged reorder ns
    rw [ofNodes]
    refine ⟨ofSiblings_ne_nil reorder op ?_, ih ?_⟩
    · intro empty
      rw [empty] at moved
      exact nonempty moved.nil_eq.symm
    · rw [FilterNode.allOccupied_exact] at occupied ⊢
      exact fun n member => occupied n (moved.mem_iff.mp member)
  case case6 =>
    intro op _
    rw [ofSiblings]
    trivial
  case case7 =>
    intro op n rest here later occupied
    rw [ofSiblings]
    exact ⟨here occupied.1, later occupied.2⟩
  case case8 =>
    intro op head group rest here later occupied
    simp only [FilterNode.allOccupied_exact, Sibling.nodes, List.forall_mem_append] at occupied
    obtain ⟨grouped, others⟩ := occupied
    rw [ofSiblings]
    refine ⟨here ?_ (FilterNode.allOccupied_stripAll _ ?_), later ?_⟩
    · rw [← List.length_pos_iff, FilterNode.length_stripAll, List.length_pos_iff]
      exact group.nonempty
    · exact FilterNode.allOccupied_exact.mpr grouped
    · exact FilterNode.allOccupied_exact.mpr others

section Compiled

variable {c : FilterContext} {root : Queryable} {base : CompiledQuery}

theorem test_contents {scope : Scope} {l : Leaf} {p : Predicate} (placed : scope.Placed c.resolver c.adapter root base)
    (flat : l.field.firstHop? = none) (tested : c.test scope l = .ok p) :
    c.leafContents root base (l.under scope.path) =
      p.contents (c.resolver.selectsTo c.adapter root base scope.path) := by
  obtain ⟨name, _, _, named, _⟩ := FilterContext.test_parts.mp tested
  have before : (l.under scope.path).field.segments.dropLast = scope.path.segments := by
    simp [Leaf.under, FieldPath.append, FieldPath.single_of_flat named flat]
  unfold FilterContext.leafContents
  rw [test_leafPredicate placed flat tested, before]

theorem crossedContents_child {scope : Scope} (placed : scope.Placed c.resolver c.adapter root base)
    (crossed : c.resolver.cross? c.adapter scope.queryable head = some hop) :
    c.crossedContents root base (scope.path.child head) =
      CompiledQuery.subqueryParts base.kind (c.resolver.selectsTo c.adapter root base scope.path) scope.binding
        (base.bindingFor (scope.path.child head)) hop.link := by
  have before : (scope.path.child head).segments.dropLast = scope.path.segments := by simp [FieldPath.child]
  unfold FilterContext.crossedContents
  rw [Resolver.crossing_child placed.reached, crossed, before, placed.bound]

theorem leadsToMany_child {scope : Scope} (placed : scope.Placed c.resolver c.adapter root base)
    (crossed : c.resolver.cross? c.adapter scope.queryable head = some hop) :
    c.resolver.leadsToMany c.adapter root (scope.path.child head) = (hop.link.cardinality == .many) := by
  unfold Resolver.leadsToMany
  rw [Resolver.crossing_child placed.reached, crossed]
  rfl

mutual
-- A join is no part of the WHERE, and a subquery is one with what it brings; whatever is below it stands in it.
theorem compile_contents (route : Route) {scope : Scope} {q joined : CompiledQuery} {p : Predicate}
    (own : c.adapter.kind = base.kind) (placed : scope.Placed c.resolver c.adapter root base) (same : q.kind = base.kind)
    (flat : route.Flat) (filled : route.Filled)
    (undecided : ∀ l ∈ route.leaves scope.path, ∀ built ∈ c.leafPredicate? root base l, built.Undecided)
    (compiled : route.compile c scope q = .ok (p, joined)) :
    p.Undecided ∧ (p.contents (c.resolver.selectsTo c.adapter root base scope.path)).Perm
      (c.contents root base (route.leaves scope.path) (route.hops scope.path)) := by
  cases route with
  | test l =>
    obtain ⟨tested, _⟩ := test_parts.mp compiled
    refine ⟨undecided _ (List.mem_singleton_self _) p (test_leafPredicate placed flat tested), ?_⟩
    rw [← test_contents placed flat tested]
    simp [FilterContext.contents, leaves, hops]
  | negate inner =>
    obtain ⟨plain, inside, rfl⟩ := negate_parts.mp compiled
    obtain ⟨live, kept⟩ := compile_contents inner own placed same flat filled undecided inside
    refine ⟨Predicate.negate_undecided (compile_steady inner inside) live, ?_⟩
    rw [Predicate.contents_negate]
    exact kept
  | join op parts =>
    obtain ⟨ps, inside, rfl⟩ := join_parts.mp compiled
    obtain ⟨each, kept⟩ := compileAll_contents parts own placed same flat filled.2 undecided inside
    have nonempty : ps ≠ [] := by
      cases parts with
      | nil => exact absurd rfl filled.1
      | cons part rest =>
        obtain ⟨p, mid, others, _, _, rfl⟩ := cons_parts.mp inside
        simp
    obtain ⟨joint, whole⟩ := Predicate.join_parts op (compileAll_own parts (own.trans same.symm) inside) nonempty
      (compileAll_normal parts inside) each (c.resolver.selectsTo c.adapter root base scope.path)
    refine ⟨joint, ?_⟩
    rw [whole]
    exact kept
  | through head inner =>
    obtain ⟨hop, crossed, way⟩ := through_parts.mp compiled
    have entered := placed.enter_placed crossed same
    have around := c.resolver.selectsTo_child c.adapter root base scope.path head
    rcases way with ⟨one, inside⟩ | ⟨many, rfl, plain, below, inside, closed⟩
    · obtain ⟨live, kept⟩ := compile_contents inner own entered (by simpa using same) flat filled undecided inside
      have passed : c.resolver.leadsToMany c.adapter root (scope.path.child head) = false := by
        rw [leadsToMany_child placed crossed, one]
        rfl
      rw [passed, if_neg Bool.false_ne_true] at around
      refine ⟨live, ?_⟩
      rw [← around, leaves, hops, FilterContext.contents_passed passed]
      exact kept
    · obtain ⟨live, kept⟩ := compile_contents inner own entered (by simpa using same) flat filled undecided inside
      have opened : c.resolver.leadsToMany c.adapter root (scope.path.child head) = true := by
        rw [leadsToMany_child placed crossed, many]
        rfl
      rw [opened, if_pos rfl] at around
      obtain ⟨joint, whole⟩ := CompiledQuery.closeScope_contents (c.resolver.selectsTo c.adapter root base scope.path)
        (compile_joins inner inside) (compile_normal inner inside) live closed
      refine ⟨joint, ?_⟩
      rw [whole, CompiledQuery.bindingFor_of_kind same, same, ← crossedContents_child placed crossed, leaves, hops]
      refine .trans ?_ (FilterContext.contents_opened opened).symm
      refine List.Perm.append_left _ ?_
      rw [← around]
      exact kept

theorem compileAll_contents (parts : List Route) {scope : Scope} {q joined : CompiledQuery} {ps : List Predicate}
    (own : c.adapter.kind = base.kind) (placed : scope.Placed c.resolver c.adapter root base) (same : q.kind = base.kind)
    (flat : AllFlat parts) (filled : AllFilled parts)
    (undecided : ∀ l ∈ listLeaves scope.path parts, ∀ built ∈ c.leafPredicate? root base l, built.Undecided)
    (compiled : compileAll c scope parts q = .ok (ps, joined)) :
    (∀ p ∈ ps, p.Undecided) ∧
      (ps.flatMap (Predicate.contents (c.resolver.selectsTo c.adapter root base scope.path))).Perm
        (c.contents root base (listLeaves scope.path parts) (listHops scope.path parts)) := by
  cases parts with
  | nil =>
    obtain ⟨rfl, _⟩ := nil_parts.mp compiled
    exact ⟨by simp, .refl _⟩
  | cons part rest =>
    obtain ⟨p, mid, others, here, later, rfl⟩ := cons_parts.mp compiled
    rw [listLeaves, List.forall_mem_append] at undecided
    obtain ⟨first, kept⟩ := compile_contents part own placed same flat.1 filled.1 undecided.1 here
    obtain ⟨each, later⟩ := compileAll_contents rest own placed ((joined_kind here).trans same) flat.2 filled.2
      undecided.2 later
    refine ⟨List.forall_mem_cons.mpr ⟨first, each⟩, ?_⟩
    rw [List.flatMap_cons, listLeaves, listHops]
    exact (kept.append later).trans (FilterContext.contents_append ..)
end

end Compiled
end Route
namespace Resolver

theorem applyFilter_contents {r : Resolver} {base narrowed : CompiledQuery} {q : Queryable} {filter : FilterNode}
    {options : CompileOptions} (accepted : r.applyFilter base q filter options = .ok narrowed)
    (own : q.adapter.kind = base.kind) (occupied : filter.Occupied)
    (undecided : ∀ l ∈ filter.leaves, ∀ p ∈ FilterContext.leafPredicate? ⟨r, q.adapter, options⟩ q base l, p.Undecided) :
    (∀ l ∈ filter.leaves, ∃ p, FilterContext.leafPredicate? ⟨r, q.adapter, options⟩ q base l = some p) ∧
    ∃ crossed : List FieldPath,
      (∀ path, path ∈ crossed ↔ r.leadsToMany q.adapter q path = true ∧
        ∃ l ∈ filter.leaves, path ∈ FieldPath.empty.hopsTo l.field.segments) ∧
      narrowed.contents.Perm (base.contents ++
        (filter.leaves.flatMap (FilterContext.leafContents ⟨r, q.adapter, options⟩ q base) ++
          crossed.flatMap (FilterContext.crossedContents ⟨r, q.adapter, options⟩ q base))) := by
  obtain ⟨valid, _, _, ⟨empty, rfl⟩ | ⟨_, a, served, p, joined, compiled, narrows⟩⟩ := applyFilter_parts.mp accepted
  · refine ⟨by simp [filter.leaves_of_empty empty], [], ?_, ?_⟩
    · simp [filter.leaves_of_empty empty]
    · simp [filter.leaves_of_empty empty]
  · have same := AdapterSet.forQueryable_exact served
    subst same
    let c : FilterContext := ⟨r, q.adapter, options⟩
    let route := Route.ofNode r.settings.reorder filter
    have placed : (Scope.root q base.rootBinding).Placed c.resolver c.adapter q base := Scope.Placed.root_placed
    have moved := Route.ofNode_leaves r.settings.reorder valid
    have flat := Route.layout_flat r.settings.reorder filter
    have built := Route.compile_leaves route placed rfl flat compiled
    obtain ⟨live, kept⟩ := Route.compile_contents route own placed rfl flat
      (Route.layout_filled r.settings.reorder filter occupied)
      (fun l member => undecided l (moved.mem_iff.mp member)) compiled
    refine ⟨fun l member => built l (moved.mem_iff.mpr member), (route.hops .empty).filter (r.leadsToMany q.adapter q), ?_, ?_⟩
    · intro path
      rw [List.mem_filter, and_comm, Route.layout_hops r.settings.reorder path filter .empty
        (FilterNode.negatesOne_of_valid filter valid)]
    · have frame := Route.compile_joins route compiled
      have rooted : joined.rootBinding = base.rootBinding := by
        rw [← CompiledQuery.rootBinding_unjoined, frame, CompiledQuery.rootBinding_unjoined]
      have before : joined.contents = base.contents := by
        rw [← CompiledQuery.contents_unjoined, frame, CompiledQuery.contents_unjoined]
      rw [CompiledQuery.contents_andPredicate (Route.compile_normal route compiled) live narrows, before, rooted]
      refine List.Perm.append_left _ (kept.trans ?_)
      exact (moved.flatMap_right _).append_right _

theorem contents_forQueryable (q : Queryable) : (CompiledQuery.forQueryable q).contents = [] := by
  unfold CompiledQuery.forQueryable
  split <;> rfl

-- Each leaf is there once, in the SELECTs that its own path opens, and otherwise there are only the subqueries.
theorem compileFilter_contents {r : Resolver} {q : Queryable} {filter : FilterNode} {options : CompileOptions}
    {query : CompiledQuery} (accepted : r.compileFilter q filter options = .ok query) (occupied : filter.Occupied)
    (undecided : ∀ l ∈ filter.leaves,
      ∀ p ∈ FilterContext.leafPredicate? ⟨r, q.adapter, options⟩ q (.forQueryable q) l, p.Undecided) :
    (∀ l ∈ filter.leaves, ∃ p,
      FilterContext.leafPredicate? ⟨r, q.adapter, options⟩ q (.forQueryable q) l = some p) ∧
    ∃ crossed : List FieldPath,
      (∀ path, path ∈ crossed ↔ r.leadsToMany q.adapter q path = true ∧
        ∃ l ∈ filter.leaves, path ∈ FieldPath.empty.hopsTo l.field.segments) ∧
      query.contents.Perm
        (filter.leaves.flatMap (FilterContext.leafContents ⟨r, q.adapter, options⟩ q (.forQueryable q)) ++
          crossed.flatMap (FilterContext.crossedContents ⟨r, q.adapter, options⟩ q (.forQueryable q))) := by
  obtain ⟨_, applied⟩ := compileFilter_parts.mp accepted
  have whole := applyFilter_contents applied (CompiledQuery.kind_forQueryable q).symm occupied undecided
  simpa only [contents_forQueryable, List.nil_append] using whole

end Resolver

-- Two subqueries for the same association, of which one is negated.
def shortOrNamed : FilterNode :=
  .combine .and [
    .combine .not [.leaf ⟨⟨["tracks", "title"]⟩, .eq, .str "b"⟩],
    .combine .or [.leaf ⟨⟨["name"]⟩, .neq, .str "a"⟩, .leaf ⟨⟨["tracks", "seconds"]⟩, .lt, .int 90⟩]]

theorem shortOrNamed_contents : ∃ query, albumResolver.compileFilter album shortOrNamed .standard = .ok query ∧
    shortOrNamed.Occupied ∧
    (∀ l ∈ shortOrNamed.leaves, ∀ p ∈ FilterContext.leafPredicate? ⟨albumResolver, album.adapter, .standard⟩ album
      (.forQueryable album) l, p.Undecided) ∧
    ∃ crossed : List FieldPath,
      (∀ path, path ∈ crossed ↔ albumResolver.leadsToMany album.adapter album path = true ∧
        ∃ l ∈ shortOrNamed.leaves, path ∈ FieldPath.empty.hopsTo l.field.segments) ∧
      query.contents.Perm
        (shortOrNamed.leaves.flatMap
            (FilterContext.leafContents ⟨albumResolver, album.adapter, .standard⟩ album (.forQueryable album)) ++
          crossed.flatMap
            (FilterContext.crossedContents ⟨albumResolver, album.adapter, .standard⟩ album (.forQueryable album))) := by
  have succeeded : (albumResolver.compileFilter album shortOrNamed .standard).isOk = true := by decide +kernel
  obtain ⟨query, accepted⟩ := ok_of_isOk succeeded
  have occupied : shortOrNamed.Occupied := by
    simp [shortOrNamed, FilterNode.Occupied, FilterNode.AllOccupied]
  have undecided : ∀ l ∈ shortOrNamed.leaves, ∀ p ∈ FilterContext.leafPredicate?
      ⟨albumResolver, album.adapter, .standard⟩ album (.forQueryable album) l, p.Undecided := by decide +kernel
  exact ⟨query, accepted, occupied, undecided, (Resolver.compileFilter_contents accepted occupied undecided).2⟩

end FilterQuery
