import FilterQuery.Proofs.Extent
import FilterQuery.Proofs.Neutral
import FilterQuery.Proofs.RouteRuns

namespace FilterQuery

namespace Route

-- Both compile to the same, whether that is a predicate or a fault.
def Alike (first second : Route) : Prop :=
  ∀ (c : FilterContext) (scope : Scope) (q : CompiledQuery), c.adapter.kind = q.kind →
    first.compile c scope q = second.compile c scope q

theorem Alike.refl (route : Route) : route.Alike route := fun _ _ _ _ => rfl

theorem Alike.trans {first second third : Route} (one : first.Alike second) (two : second.Alike third) :
    first.Alike third :=
  fun c scope q own => (one c scope q own).trans (two c scope q own)

theorem Alike.symm {first second : Route} (same : first.Alike second) : second.Alike first :=
  fun c scope q own => (same c scope q own).symm

theorem alike_through (head : String) {inner other : Route} (same : inner.Alike other) :
    (through head inner).Alike (through head other) := by
  intro c scope q own
  rw [compile, compile]
  refine bind_congr ?_
  intro f
  refine bind_congr ?_
  intro hop
  cases hop.link.cardinality with
  | one => exact same c _ _ (by simpa using own)
  | many =>
    dsimp only
    rw [same c _ _ (by simpa using own)]

theorem alike_negate {inner other : Route} (same : inner.Alike other) : (negate inner).Alike (negate other) := by
  intro c scope q own
  rw [compile, compile, same c scope q own]

-- What is compiled is steady, so the second negation takes the first one back.
theorem alike_twice (inner : Route) : (negate (negate inner)).Alike inner := by
  intro c scope q own
  cases compiled : inner.compile c scope q with
  | error fault =>
    rw [compile, compile, compiled]
    rfl
  | ok outcome =>
    obtain ⟨p, joined⟩ := outcome
    have kept := Predicate.negate_negate (compile_steady inner compiled)
    simp only [compile, compiled, bind, Except.bind, pure, Except.pure, kept]

-- A connective over one part is that part, since what a part compiles to is steady and of the query's kind.
theorem alike_lone (op : Connective) (part : Route) : (join op [part]).Alike part := by
  intro c scope q own
  cases compiled : part.compile c scope q with
  | error fault =>
    rw [compile, compileAll, compiled]
    rfl
  | ok outcome =>
    obtain ⟨p, joined⟩ := outcome
    have steady := compile_steady part compiled
    have kept := Predicate.join_singleton op steady
    rw [compile_own own compiled] at kept
    simp only [compile, compileAll, compiled, bind, Except.bind, pure, Except.pure, kept]

end Route

-- Constants come to the same in both.
theorem join_constants (op : Connective) (bs : List Bool) :
    ∃ b, Extent.join op (bs.map .constant) = .constant b ∧
      ∀ k, Predicate.join k op (bs.map (Predicate.constant k)) = .constant k b := by
  by_cases decided : (!op.neutral) ∈ bs
  · refine ⟨!op.neutral, if_pos (List.mem_map_of_mem decided), ?_⟩
    exact fun k => Predicate.join_decided op (List.mem_map_of_mem decided)
  · have settled : (bs.map Extent.constant).filter (!·.isConstant) = [] := by
      refine List.filter_eq_nil_iff.mpr ?_
      intro e member
      obtain ⟨b, _, rfl⟩ := List.mem_map.mp member
      exact Bool.false_ne_true
    have extents : Extent.join op (bs.map .constant) = .constant (bs.isEmpty || op.neutral) := by
      unfold Extent.join
      rw [if_neg (by simpa using decided), if_neg (by simp), settled]
      simp
    refine ⟨_, extents, ?_⟩
    intro k
    cases bs with
    | nil => exact Predicate.join_nil k op
    | cons b rest =>
      refine Predicate.join_neutral op (by simp) ?_
      intro p member
      obtain ⟨b', among, rfl⟩ := List.mem_map.mp member
      rcases op.neutral_or_deciding b' with neutral | rfl
      · rw [neutral]
      · exact absurd among decided

namespace Route

-- Without leaves there is nothing to look up: a constant, and no join.
def Settled (reorder : Bool) (n : FilterNode) : Prop :=
  ∃ b, n.extent = .constant b ∧ ∀ c scope q, (ofNode reorder n).compile c scope q = .ok (.constant q.kind b, q)

theorem compileAll_settled (reorder : Bool) (op : Connective) {siblings : List Sibling}
    (each : ∀ n ∈ Sibling.nodes siblings, n.leafy = false ∧ Settled reorder n) :
    ∃ bs : List Bool, siblings.map (Sibling.extent op) = bs.map .constant ∧ ∀ c scope q,
      compileAll c scope (ofSiblings reorder op siblings) q = .ok (bs.map (.constant q.kind), q) := by
  match siblings with
  | [] => exact ⟨[], rfl, fun c scope q => by rw [ofSiblings]; rfl⟩
  | .alone n :: rest =>
    obtain ⟨⟨leafless, b, own, compiled⟩, later⟩ := List.forall_mem_cons.mp each
    obtain ⟨bs, extents, others⟩ := compileAll_settled reorder op later
    refine ⟨b :: bs, ?_, ?_⟩
    · rw [List.map_cons, List.map_cons, extents, Sibling.extent, leafless, own]
      rfl
    · intro c scope q
      simp only [ofSiblings, compileAll, compiled, others, bind, Except.bind, pure, Except.pure, List.map_cons]
  | .together head group :: rest =>
    obtain ⟨n, member⟩ := List.exists_mem_of_ne_nil _ group.nonempty
    have leafless := (each n (List.mem_append_left _ member)).1
    have occupied := (FilterNode.sharedHead_exact.mp (group.shared n member)).2.1
    simp [FilterNode.leafy, occupied] at leafless

mutual
theorem settled_of_leafless (reorder : Bool) (n : FilterNode) (leafless : n.leaves = []) : Settled reorder n := by
  cases n with
  | leaf l => cases leafless
  | combine op children =>
    have each := settled_each reorder children leafless
    rcases FilterNode.negation_or_plain op children with ⟨child, rest, rfl, rfl⟩ | plain
    · obtain ⟨b, own, compiled⟩ := (each child (List.mem_cons_self ..)).2
      refine ⟨!b, by rw [FilterNode.extent, own]; rfl, ?_⟩
      intro c scope q
      simp only [ofNode, compile, compiled, bind, Except.bind, pure, Except.pure, Predicate.negate_constant]
    · have laid := Sibling.nodes_arranged reorder children
      obtain ⟨bs, extents, compiled⟩ := compileAll_settled reorder (.ofCombinator op)
        fun n member => each n (laid.mem_iff.mp member)
      have headed : ∀ l ∈ FilterNode.listLeaves children, l.field.firstHop? = some "" := by
        intro l member
        rw [show FilterNode.listLeaves children = [] from leafless] at member
        cases member
      have whole := Sibling.join_extents reorder (.ofCombinator op) headed
      obtain ⟨b, constant, joined⟩ := join_constants (.ofCombinator op) bs
      rw [← FilterNode.extent_connective plain, extents, constant] at whole
      refine ⟨b, whole.symm, ?_⟩
      intro c scope q
      rw [ofNode_connective reorder plain, ofNodes, compile, compiled c scope q]
      simp only [bind, Except.bind, pure, Except.pure, joined]

theorem settled_each (reorder : Bool) (nodes : List FilterNode) (leafless : FilterNode.listLeaves nodes = []) :
    ∀ n ∈ nodes, n.leafy = false ∧ Settled reorder n := by
  cases nodes with
  | nil => simp
  | cons n rest =>
    obtain ⟨here, later⟩ := List.append_eq_nil_iff.mp leafless
    refine List.forall_mem_cons.mpr ⟨⟨by simp [FilterNode.leafy, here], settled_of_leafless reorder n here⟩, ?_⟩
    exact settled_each reorder rest later
end

theorem compile_of_empty (reorder : Bool) {n : FilterNode} (empty : n.isEmpty = true) (c : FilterContext) (scope : Scope)
    (q : CompiledQuery) : (ofNode reorder n).compile c scope q = .ok (.constant q.kind true, q) := by
  obtain ⟨b, own, compiled⟩ := settled_of_leafless reorder n (n.leaves_of_empty empty)
  rw [n.extent_of_empty empty] at own
  cases own
  exact compiled c scope q

theorem compileAll_length {parts : List Route} {c : FilterContext} {scope : Scope} {q joined : CompiledQuery}
    {ps : List Predicate} (compiled : compileAll c scope parts q = .ok (ps, joined)) : ps.length = parts.length := by
  induction parts generalizing q ps with
  | nil =>
    obtain ⟨rfl, _⟩ := nil_parts.mp compiled
    rfl
  | cons part rest ih =>
    obtain ⟨p, mid, others, _, later, rfl⟩ := cons_parts.mp compiled
    rw [List.length_cons, List.length_cons, ih later]

-- The same faults, and up to what the connective passes over the same predicates.
def Passes (op : Connective) (parts rest : List Route) : Prop :=
  ∀ (c : FilterContext) (scope : Scope) (q : CompiledQuery),
    (∃ fault, compileAll c scope parts q = .error fault ∧ compileAll c scope rest q = .error fault) ∨
      ∃ ps others joined, compileAll c scope parts q = .ok (ps, joined) ∧ compileAll c scope rest q = .ok (others, joined) ∧
        ps.filter (!Predicate.isConstant op.neutral ·) = others.filter (!Predicate.isConstant op.neutral ·)

theorem passes_cons (part : Route) (passes : Passes op parts rest) : Passes op (part :: parts) (part :: rest) := by
  intro c scope q
  rw [compileAll, compileAll]
  cases here : part.compile c scope q with
  | error fault => exact .inl ⟨fault, rfl, rfl⟩
  | ok outcome =>
    obtain ⟨p, mid⟩ := outcome
    rcases passes c scope mid with ⟨fault, first, second⟩ | ⟨ps, others, joined, first, second, same⟩
    · refine .inl ⟨fault, ?_, ?_⟩
      · simp only [bind, Except.bind, first]
      · simp only [bind, Except.bind, second]
    · refine .inr ⟨p :: ps, p :: others, joined, ?_, ?_, ?_⟩
      · simp only [bind, Except.bind, first, pure, Except.pure]
      · simp only [bind, Except.bind, second, pure, Except.pure]
      · rw [List.filter_cons, List.filter_cons, same]

theorem passes_skip {part : Route} (neutral : ∀ c scope q, part.compile c scope q = .ok (.constant q.kind op.neutral, q))
    (passes : Passes op parts rest) : Passes op (part :: parts) rest := by
  intro c scope q
  rw [compileAll, neutral]
  rcases passes c scope q with ⟨fault, first, second⟩ | ⟨ps, others, joined, first, second, same⟩
  · refine .inl ⟨fault, ?_, second⟩
    simp only [bind, Except.bind, first]
  · refine .inr ⟨.constant q.kind op.neutral :: ps, others, joined, ?_, second, ?_⟩
    · simp only [bind, Except.bind, first, pure, Except.pure]
    · have constant : Predicate.isConstant op.neutral (.constant q.kind op.neutral) = true :=
        Predicate.isConstant_exact.mpr (by rw [Predicate.kind_constant])
      rw [List.filter_cons, constant, if_neg (by simp), same]

theorem alike_passes {parts rest : List Route} (passes : Passes op parts rest) (occupied : parts ≠ [])
    (left : rest ≠ []) : (join op parts).Alike (join op rest) := by
  intro c scope q own
  rw [compile, compile]
  rcases passes c scope q with ⟨fault, first, second⟩ | ⟨ps, others, joined, first, second, same⟩
  · rw [first, second]
  · have nonempty : ps ≠ [] := by
      rw [← List.length_pos_iff, compileAll_length first, List.length_pos_iff]
      exact occupied
    have nonempty' : others ≠ [] := by
      rw [← List.length_pos_iff, compileAll_length second, List.length_pos_iff]
      exact left
    have joined := Predicate.join_congr op (compileAll_own parts own first) (compileAll_own rest own second) nonempty
      nonempty' same
    simp only [first, second, bind, Except.bind, pure, Except.pure, joined]

theorem passes_siblings (reorder : Bool) (op : Connective) {keep : FilterNode → Bool} {siblings : List Sibling}
    (passed : ∀ n ∈ Sibling.nodes siblings, keep n = false → ∀ c scope q,
      (ofNode reorder n).compile c scope q = .ok (.constant q.kind op.neutral, q)) :
    Passes op (ofSiblings reorder op siblings)
      (ofSiblings reorder op (siblings.filter (Sibling.keeps keep))) := by
  match siblings with
  | [] =>
    intro c scope q
    rw [List.filter_nil, ofSiblings]
    exact .inr ⟨[], [], q, rfl, rfl, rfl⟩
  | .alone n :: rest =>
    obtain ⟨here, later⟩ := List.forall_mem_cons.mp passed
    have others := passes_siblings reorder op later
    rw [List.filter_cons, ofSiblings]
    rw [show Sibling.keeps keep (.alone n) = keep n from rfl]
    cases kept : keep n with
    | true =>
      rw [if_pos rfl, ofSiblings]
      exact passes_cons _ others
    | false =>
      rw [if_neg Bool.false_ne_true]
      exact passes_skip (here kept) others
  | .together head group :: rest =>
    have later : ∀ n ∈ Sibling.nodes rest, keep n = false → ∀ c scope q,
        (ofNode reorder n).compile c scope q = .ok (.constant q.kind op.neutral, q) :=
      fun n member => passed n (List.mem_append_right _ member)
    have others := passes_siblings reorder op later
    have grouped : Sibling.keeps keep (.together head group) = true := rfl
    rw [List.filter_cons, if_pos grouped, ofSiblings, ofSiblings]
    exact passes_cons _ others

-- Children that come to what the connective passes over may be left out as long as something is left.
theorem alike_filtered (reorder : Bool) (op : Connective) {keep : FilterNode → Bool} {children : List FilterNode}
    (passed : ∀ n, keep n = false → n.leaves = [] ∧ n.extent = .constant op.neutral)
    (left : children.filter keep ≠ []) :
    (ofNodes reorder op children).Alike (ofNodes reorder op (children.filter keep)) := by
  have occupied : children ≠ [] := by
    intro empty
    subst empty
    exact left rfl
  have skipped : ∀ n ∈ Sibling.nodes (Sibling.ofNodes (FilterNode.arrange reorder children)),
      keep n = false → ∀ c scope q, (ofNode reorder n).compile c scope q = .ok (.constant q.kind op.neutral, q) := by
    intro n _ out
    obtain ⟨leafless, extent⟩ := passed n out
    obtain ⟨b, own, compiled⟩ := settled_of_leafless reorder n leafless
    rw [extent] at own
    cases own
    exact compiled
  have apart : ∀ n ∈ FilterNode.arrange reorder children, keep n = false → n.standsAlone = true := by
    intro n _ out
    simp [FilterNode.standsAlone, FilterNode.leafy, (passed n out).1]
  have same : (Sibling.ofNodes (FilterNode.arrange reorder children)).filter (Sibling.keeps keep) =
      Sibling.ofNodes (FilterNode.arrange reorder (children.filter keep)) := by
    rw [Sibling.ofNodes, Sibling.filter_foldl _ apart, FilterNode.filter_arrange]
    rfl
  have passes := passes_siblings reorder op skipped
  rw [same] at passes
  rw [ofNodes, ofNodes]
  exact alike_passes passes (arranged_ne_nil reorder op occupied) (arranged_ne_nil reorder op left)

theorem alike_kept (reorder : Bool) (op : Connective) {children : List FilterNode}
    (left : FilterNode.kept op children ≠ []) :
    (ofNodes reorder op children).Alike (ofNodes reorder op (FilterNode.kept op children)) := by
  refine alike_filtered reorder op ?_ left
  intro n vacuous
  simpa [FilterNode.vacuous, FilterNode.leafy] using vacuous

-- A leaf is walked with nothing, so the connective around it does not matter.
theorem lone_leaf (reorder : Bool) (op : Connective) (l : Leaf) :
    (ofNodes reorder op [.leaf l]).Alike (ofNode reorder (.leaf l)) := by
  cases nested : l.field.firstHop? with
  | none =>
    have alone : (FilterNode.leaf l).sharedHead? = none := by
      simp [FilterNode.sharedHead?, FilterNode.leaves, nested]
    rw [ofNodes_alone reorder op alone]
    exact alike_lone op _
  | some head =>
    have shared : (FilterNode.leaf l).sharedHead? = some head := by
      simp [FilterNode.sharedHead?, FilterNode.leaves, nested]
    have below := fun op => lone_leaf reorder op l.strip
    rw [ofNodes_shared reorder op (by simp) (by simpa using shared), ofNode_nested reorder nested]
    exact (alike_lone op _).trans (alike_through head ((below op).trans (below .and).symm))
termination_by l.field.length
decreasing_by
  have long := FilterNode.length_of_firstHop nested
  simp only [Leaf.strip, FilterNode.length_tail]
  omega

def signed (positive : Bool) (route : Route) : Route := if positive then route else negate route

theorem negate_signed (positive : Bool) (route : Route) : (negate (signed positive route)).Alike (signed (!positive) route) := by
  cases positive with
  | true => exact .refl _
  | false => exact alike_twice route

-- What comes to one scope is the association taken off, whatever is inside.
theorem alike_scope (reorder : Bool) (n : FilterNode) (start : ∀ l ∈ n.leaves, l.field.firstHop? = some head)
    (single : n.extent = .one s) : ∃ inner, (ofNode reorder n).Alike (signed s (through head inner)) ∧
      (ofNode reorder n.strip).Alike (signed s inner) := by
  match n, start, single with
  | .leaf l, start, single =>
    cases single
    have nested := start l (by simp [FilterNode.leaves])
    refine ⟨ofNodes reorder .and [.leaf l.strip], ?_, (lone_leaf reorder .and l.strip).symm⟩
    rw [ofNode_nested reorder nested]
    exact .refl _
  | .combine op children, start, single =>
    rcases FilterNode.negation_or_plain op children with ⟨child, rest, same, shape⟩ | plain
    · have member : child ∈ children := by simp [shape]
      have turned : child.extent = .one (!s) := by
        rw [same, shape, FilterNode.extent] at single
        exact Extent.negate_eq_one single
      obtain ⟨inner, here, stripped⟩ := alike_scope reorder child
        (fun l leaf => start l (FilterNode.leaves_of_child member leaf)) turned
      subst same shape
      refine ⟨inner, ?_, ?_⟩
      · rw [ofNode]
        have both := (alike_negate here).trans (negate_signed _ _)
        rwa [Bool.not_not] at both
      · rw [FilterNode.strip, FilterNode.stripAll, ofNode]
        have both := (alike_negate stripped).trans (negate_signed _ _)
        rwa [Bool.not_not] at both
    · have stripped : ∀ child rest, op = .not → FilterNode.stripAll children = child :: rest → False := by
        intro child rest same shape
        cases children with
        | nil => cases shape
        | cons first later => exact plain first later same rfl
      rw [FilterNode.extent_connective plain] at single
      rw [FilterNode.strip, ofNode_connective reorder plain, ofNode_connective reorder stripped]
      have begins : ∀ child ∈ children, ∀ l ∈ child.leaves, l.field.firstHop? = some head :=
        fun child member l leaf => start l (FilterNode.leaves_of_child member leaf)
      rcases FilterNode.kept_of_one single with ⟨rfl, left, shares⟩ | ⟨child, only, alone, own⟩
      · have each : ∀ m ∈ FilterNode.kept (.ofCombinator op) children, m.sharedHead? = some head :=
          fun m member => FilterNode.sharedHead_of_start (begins m (List.mem_filter.mp member).1) (shares m member)
        refine ⟨ofNodes reorder (.ofCombinator op) (FilterNode.stripAll (FilterNode.kept (.ofCombinator op) children)),
          ?_, ?_⟩
        · refine (alike_kept reorder _ left).trans ?_
          rw [ofNodes_shared reorder _ left each]
          exact alike_lone _ _
        · rw [← FilterNode.kept_strip]
          refine alike_kept reorder _ ?_
          rw [FilterNode.kept_strip]
          exact FilterNode.stripAll_ne_nil left
      · have member : child ∈ children := by
          have among : child ∈ FilterNode.kept (.ofCombinator op) children := by simp [only]
          exact (List.mem_filter.mp among).1
        obtain ⟨inner, here, below⟩ := alike_scope reorder child (begins child member) own
        have lone : FilterNode.kept (.ofCombinator op) (FilterNode.stripAll children) = [child.strip] := by
          rw [FilterNode.kept_strip, only]
          rfl
        refine ⟨inner, ?_, ?_⟩
        · refine (alike_kept reorder _ (by simp [only])).trans ?_
          rw [only, ofNodes_alone reorder _ (FilterNode.sharedHead_of_alone alone)]
          exact (alike_lone _ _).trans here
        · refine (alike_kept reorder _ (by simp [lone])).trans ?_
          rw [lone, ofNodes_alone reorder _ (FilterNode.sharedHead_of_alone (by rwa [FilterNode.standsAlone_strip]))]
          exact (alike_lone _ _).trans below
termination_by n.weight
decreasing_by
  all_goals
    have lighter := FilterNode.weight_child member
    simp only [FilterNode.weight]
    omega

-- By the weight: one level of wrapping goes down with the association that it is taken through.
theorem alike_wrapped (reorder : Bool) (op : Connective) (n : FilterNode)
    (whole : n.sharedHead? = none ∨ n.extent = .one true) :
    (ofNodes reorder op [n]).Alike (ofNode reorder n) := by
  cases shared : n.sharedHead? with
  | none =>
    rw [ofNodes_alone reorder op shared]
    exact alike_lone op _
  | some head =>
    have single : n.extent = .one true := by
      rcases whole with unshared | single
      · rw [shared] at unshared
        cases unshared
      · exact single
    obtain ⟨inner, here, stripped⟩ := alike_scope reorder n (FilterNode.sharedHead_exact.mp shared).2.2 single
    have below := alike_wrapped reorder op n.strip (.inr (by rw [FilterNode.extent_strip, single]))
    rw [ofNodes_shared reorder op (by simp) (by simpa using shared)]
    refine (alike_lone op _).trans ?_
    exact (alike_through head (below.trans stripped)).trans here.symm
termination_by n.weight
decreasing_by
  obtain ⟨l, member, nested⟩ := FilterNode.leaf_of_sharedHead shared
  have lighter := FilterNode.strip_weight_lt n l member nested
  omega

end Route

theorem CompiledQuery.andPredicate_true (q : CompiledQuery) : q.andPredicate? (.constant q.kind true) = some q := by
  cases q with
  | sql d s =>
    have same : s.andWhere (.constant true) = s := by
      rw [Select.andWhere, Expr.conjuncts, List.append_nil]
      cases s
      rfl
    exact congrArg (fun t => some (sql d t)) same
  | search r =>
    have same : r.andFilter (.constant true) = r := by rw [SearchRequest.andFilter, Clause.conjuncts, List.append_nil]
    exact congrArg (fun t => some (search t)) same

namespace Resolver

variable {r : Resolver} {q : Queryable} {filter other : FilterNode} {options : CompileOptions} {query : CompiledQuery}

-- An empty filter may go the way of any other: its constant is left out of the conditions.
theorem compileFilter_served (served : r.adapterFor q = .ok a) : r.compileFilter q filter options = (do
    filter.validate
    options.access.check filter.referencedPaths
    r.checkDepths filter.referencedPaths
    let (p, joined) ← (Route.ofNode r.settings.reorder filter).compile ⟨r, a, options⟩
      (.root q (CompiledQuery.forQueryable q).rootBinding) (.forQueryable q)
    match joined.andPredicate? p with
    | some narrowed => pure narrowed
    | none => throw (.adapterUnavailable q.id)) := by
  unfold compileFilter applyFilter
  cases empty : filter.isEmpty with
  | false =>
    rw [served]
    rfl
  | true => simp [served, bind, Except.bind, Route.compile_of_empty _ empty, CompiledQuery.andPredicate_true]

theorem compileFilter_route (served : r.adapterFor q = .ok a) : r.compileFilter q filter options = .ok query ↔
    filter.validate = .ok () ∧ options.access.check filter.referencedPaths = .ok () ∧
      r.checkDepths filter.referencedPaths = .ok () ∧ ∃ p joined,
        (Route.ofNode r.settings.reorder filter).compile ⟨r, a, options⟩
          (.root q (CompiledQuery.forQueryable q).rootBinding) (.forQueryable q) = .ok (p, joined) ∧
        joined.andPredicate? p = some query := by
  rw [compileFilter_served served]
  simp only [bind_exact, Prod.exists]
  constructor
  · rintro ⟨_, valid, _, permitted, _, shallow, p, joined, compiled, accepted⟩
    refine ⟨valid, permitted, shallow, p, joined, compiled, ?_⟩
    split at accepted
    · rename_i found
      cases accepted
      exact found
    · cases accepted
  · rintro ⟨valid, permitted, shallow, p, joined, compiled, narrows⟩
    refine ⟨(), valid, (), permitted, (), shallow, p, joined, compiled, ?_⟩
    rw [narrows]
    rfl

theorem compileFilter_congr (valid : filter.validate = other.validate)
    (paths : filter.referencedPaths = other.referencedPaths)
    (alike : (Route.ofNode r.settings.reorder filter).Alike (Route.ofNode r.settings.reorder other)) :
    r.compileFilter q filter options = r.compileFilter q other options := by
  cases served : r.adapterFor q with
  | error fault =>
    unfold compileFilter
    rw [served]
    rfl
  | ok a =>
    have own : a.kind = (CompiledQuery.forQueryable q).kind := by
      rw [CompiledQuery.kind_forQueryable, AdapterSet.forQueryable_exact served]
    rw [compileFilter_served served, compileFilter_served served, valid, paths, alike ⟨r, a, options⟩ _ _ own]

end Resolver
end FilterQuery
