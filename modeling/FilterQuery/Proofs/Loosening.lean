import FilterQuery.Proofs.Pruning
import FilterQuery.Proofs.SiblingTruth
import FilterQuery.Proofs.Wrapping

namespace FilterQuery

theorem Leaf.behind_strip {l : Leaf} (nested : l.field.firstHop? = some head) :
    l.strip.Behind names ↔ l.Behind (head :: names) := by
  constructor
  · rintro ⟨next, later, shape⟩
    obtain ⟨second, rest, whole⟩ := FieldPath.firstHop_exact.mp nested
    refine ⟨next, later, ?_⟩
    simp only [strip, FieldPath.tail, whole, List.tail_cons] at shape
    rw [whole, shape, List.cons_append]
  · exact strip_behind

namespace FilterNode

-- A disjunction that something empty is a part of.
def Lax (n : FilterNode) : Prop := ∃ children, n = combine .or children ∧ ∃ e ∈ children, e.isEmpty = true

-- All that is asked is asked behind the associations.
def Shares (names : List String) (n : FilterNode) : Prop := n.leaves ≠ [] ∧ ∀ l ∈ n.leaves, l.Behind names

def SharesAlike (n m : FilterNode) : Prop := ∀ head names, n.Shares (head :: names) ↔ m.Shares (head :: names)

-- Where a disjunction with an empty part asks nothing of a row: no related row is needed for it alone.
def Spared (r : Resolver) (a : Adapter) (mode : ToManyMode) (op : Connective) (q : Queryable) (n : FilterNode)
    (siblings : List FilterNode) : Prop :=
  mode = .allMatch ∨ ¬n.SharesToMany r a q ∨
    op = .and ∧ ∃ anchor ∈ siblings, anchor.isNegation = false ∧
      ∀ head names, n.Shares (head :: names) → anchor.Shares (head :: names)

theorem allNegateOne_filter (keep : FilterNode → Bool) {nodes : List FilterNode} (sound : AllNegateOne nodes) :
    AllNegateOne (nodes.filter keep) :=
  allNegateOne_exact.mpr fun n member => allNegateOne_exact.mp sound n (List.mem_filter.mp member).1

theorem lax_strip {n : FilterNode} (lax : n.Lax) : n.strip.Lax := by
  obtain ⟨children, rfl, e, member, empty⟩ := lax
  refine ⟨stripAll children, rfl, e.strip, ?_, by rwa [isEmpty_strip]⟩
  rw [stripAll_eq_map]
  exact List.mem_map_of_mem member

theorem shares_strip {n : FilterNode} (start : ∀ l ∈ n.leaves, l.field.firstHop? = some head) :
    n.strip.Shares names ↔ n.Shares (head :: names) := by
  unfold Shares
  rw [leaves_strip, ne_eq, List.map_eq_nil_iff, List.forall_mem_map]
  exact and_congr_right fun _ => forall₂_congr fun l member => l.behind_strip (start l member)

theorem shares_single {n : FilterNode} :
    n.Shares [head] ↔ n.leaves ≠ [] ∧ ∀ l ∈ n.leaves, l.field.firstHop? = some head := by
  refine and_congr_right fun _ => forall₂_congr ?_
  intro l _
  constructor
  · exact Leaf.firstHop_of_behind
  · intro nested
    obtain ⟨next, rest, shape⟩ := FieldPath.firstHop_exact.mp nested
    exact ⟨next, rest, shape⟩

theorem sharedHead_shares {n : FilterNode} : n.sharedHead? = some head ↔ n.isNegation = false ∧ n.Shares [head] := by
  rw [sharedHead_exact, shares_single]

theorem sharesAlike_strip {n m : FilterNode} (start : ∀ l ∈ n.leaves, l.field.firstHop? = some head)
    (start' : ∀ l ∈ m.leaves, l.field.firstHop? = some head) (alike : n.SharesAlike m) : n.strip.SharesAlike m.strip := by
  intro next names
  rw [shares_strip start, shares_strip start']
  exact alike head (next :: names)

variable {r : Resolver} {a : Adapter} {mode : ToManyMode} {op : Connective} {q : Queryable}

-- Behind a to-many association that all of it starts at.
theorem sharesToMany_of_head {n : FilterNode} (shared : n.sharedHead? = some head)
    (crossed : r.cross? a q head = some hop) (many : hop.link.cardinality = .many) : n.SharesToMany r a q := by
  obtain ⟨plain, leafy, behind⟩ := sharedHead_shares.mp shared
  refine ⟨?_, [head], ⟨hop, crossed, .inl ⟨many, rfl⟩⟩, behind⟩
  simp [standsAlone, plain, FilterNode.leafy, leafy]

theorem sharesToMany_of_strip {n : FilterNode} (shared : n.sharedHead? = some head)
    (crossed : r.cross? a q head = some hop) (one : hop.link.cardinality = .one)
    (deeper : n.strip.SharesToMany r a hop.related) : n.SharesToMany r a q := by
  obtain ⟨alone, names, toMany, behind⟩ := deeper
  have start := (sharedHead_exact.mp shared).2.2
  rw [standsAlone_strip] at alone
  refine ⟨alone, head :: names, ⟨hop, crossed, .inr ⟨one, toMany⟩⟩, ?_⟩
  intro l member
  refine (l.behind_strip (start l member)).mp (behind l.strip ?_)
  rw [leaves_strip]
  exact List.mem_map_of_mem member

-- Where no sibling can ask for the related rows instead.
theorem allMatch_of_spared {n : FilterNode} (spared : n.Spared r a mode op q siblings) (toMany : n.SharesToMany r a q)
    (bare : op = .or ∨ siblings = []) : mode = .allMatch := by
  rcases spared with every | apart | ⟨conjunctive, anchor, among, _⟩
  · exact every
  · exact absurd toMany apart
  · rcases bare with disjunctive | rfl
    · cases conjunctive.symm.trans disjunctive
    · cases among

theorem spared_group {n : FilterNode} (shared : n.sharedHead? = some head) (spared : n.Spared r a mode op q siblings) :
    n.Spared r a mode op q (siblings.filter (·.startsAt head)) := by
  rcases spared with every | apart | ⟨rfl, anchor, among, plain, shares⟩
  · exact .inl every
  · exact .inr (.inl apart)
  · have starts : anchor.sharedHead? = some head :=
      sharedHead_shares.mpr ⟨plain, shares head [] (sharedHead_shares.mp shared).2⟩
    exact .inr (.inr ⟨rfl, anchor, List.mem_filter.mpr ⟨among, decide_eq_true starts⟩, plain, shares⟩)

theorem spared_strip {n : FilterNode} (start : ∀ l ∈ n.leaves, l.field.firstHop? = some head)
    (crossed : r.cross? a q head = some hop)
    (together : ∀ g ∈ siblings, ∀ l ∈ g.leaves, l.field.firstHop? = some head)
    (spared : n.Spared r a mode op q siblings) : n.strip.Spared r a mode op hop.related (stripAll siblings) := by
  rcases spared with every | apart | ⟨rfl, anchor, among, plain, shares⟩
  · exact .inl every
  · refine .inr (.inl ?_)
    intro deeper
    have shared : n.sharedHead? = some head := sharedHead_of_start start (by rw [← standsAlone_strip]; exact deeper.1)
    cases cardinality : hop.link.cardinality with
    | one => exact apart (sharesToMany_of_strip shared crossed cardinality deeper)
    | many => exact apart (sharesToMany_of_head shared crossed cardinality)
  · refine .inr (.inr ⟨rfl, anchor.strip, ?_, by rwa [isNegation_strip], ?_⟩)
    · rw [stripAll_eq_map]
      exact List.mem_map_of_mem among
    · intro next names
      rw [shares_strip start, shares_strip (together anchor among)]
      exact shares head (next :: names)

-- An empty filter in the place of a disjunction with an empty part, wherever in the tree that is.
inductive Freed : FilterNode → FilterNode → Prop
  | here {n m : FilterNode} (lax : n.Lax) (empty : m.isEmpty = true) : Freed n m
  | inside (op : Combinator) (before after : List FilterNode) {n m : FilterNode} (freed : Freed n m) :
    Freed (combine op (before ++ n :: after)) (combine op (before ++ m :: after))

theorem freed_leaves {n m : FilterNode} (freed : n.Freed m) : ∀ l ∈ m.leaves, l ∈ n.leaves := by
  induction freed with
  | @here n m _ empty => simp [m.leaves_of_empty empty]
  | inside op before after _ ih =>
    intro l member
    simp only [leaves, listLeaves_append, listLeaves, List.mem_append] at member ⊢
    exact member.imp id (.imp (ih l) id)

-- The same with nothing hanging on the disjunction. Above it, siblings go on starting at the
-- same associations together.
inductive Loosened (r : Resolver) (a : Adapter) (mode : ToManyMode) (q : Queryable) : FilterNode → FilterNode → Prop
  | here {n m : FilterNode} (lax : n.Lax) (empty : m.isEmpty = true) : Loosened r a mode q n m
  | among (op : Combinator) (before after : List FilterNode) {n m : FilterNode} (connective : op ≠ .not) (lax : n.Lax)
    (empty : m.isEmpty = true) (spared : n.Spared r a mode (.ofCombinator op) q (before ++ after)) :
    Loosened r a mode q (combine op (before ++ n :: after)) (combine op (before ++ m :: after))
  | under {n m : FilterNode} (moved : Loosened r a mode q n m) : Loosened r a mode q (combine .not [n]) (combine .not [m])
  | inside (op : Combinator) (before after : List FilterNode) {n m : FilterNode} (connective : op ≠ .not)
    (moved : Loosened r a mode q n m) (alike : n.SharesAlike m) :
    Loosened r a mode q (combine op (before ++ n :: after)) (combine op (before ++ m :: after))

theorem freed_of_loosened {n m : FilterNode} (moved : n.Loosened r a mode q m) : n.Freed m := by
  induction moved with
  | here lax empty => exact .here lax empty
  | among op before after _ lax empty _ => exact .inside op before after (.here lax empty)
  | under _ ih => exact .inside .not [] [] ih
  | inside op before after _ _ _ ih => exact .inside op before after ih

theorem isNegation_of_empty {n : FilterNode} (empty : n.isEmpty = true) : n.isNegation = false := by
  cases n with
  | leaf l => rfl
  | combine op children => cases op <;> first | rfl | cases empty

theorem loosened_isNegation {n m : FilterNode} (moved : n.Loosened r a mode q m) : n.isNegation = m.isNegation := by
  cases moved with
  | here lax empty =>
    obtain ⟨children, rfl, _⟩ := lax
    exact (isNegation_of_empty empty).symm
  | among op => cases op <;> rfl
  | under => rfl
  | inside op => cases op <;> rfl

theorem loosened_strip {n m : FilterNode} (moved : n.Loosened r a mode q m) (crossed : r.cross? a q head = some hop)
    (start : ∀ l ∈ n.leaves, l.field.firstHop? = some head) : n.strip.Loosened r a mode hop.related m.strip := by
  induction moved with
  | here lax empty => exact .here (lax_strip lax) (by rwa [isEmpty_strip])
  | @among op before after n m connective lax empty spared =>
    simp only [strip, stripAll_eq_map, List.map_append, List.map_cons]
    refine .among op _ _ connective (lax_strip lax) (by rwa [isEmpty_strip]) ?_
    rw [← List.map_append, ← stripAll_eq_map]
    refine spared_strip ?_ crossed ?_ spared
    · exact fun l leaf => start l (leaves_of_child (List.mem_append_right _ (List.mem_cons_self ..)) leaf)
    · intro g member l leaf
      refine start l (leaves_of_child ?_ leaf)
      exact List.mem_append.mpr ((List.mem_append.mp member).imp id (List.mem_cons_of_mem _))
  | under _ ih =>
    refine .under (ih ?_)
    simpa [leaves, listLeaves] using start
  | @inside op before after n m connective moved alike ih =>
    have begins : ∀ l ∈ n.leaves, l.field.firstHop? = some head :=
      fun l leaf => start l (leaves_of_child (List.mem_append_right _ (List.mem_cons_self ..)) leaf)
    simp only [strip, stripAll_eq_map, List.map_append, List.map_cons]
    refine .inside op _ _ connective (ih begins) (sharesAlike_strip begins ?_ alike)
    exact fun l leaf => begins l (freed_leaves (freed_of_loosened moved) l leaf)

theorem loosened_sharedHead {n m : FilterNode} (moved : n.Loosened r a mode q m) (alike : n.SharesAlike m) :
    n.sharedHead? = m.sharedHead? := by
  refine Option.ext fun head => ?_
  rw [sharedHead_shares, sharedHead_shares, loosened_isNegation moved, alike]

end FilterNode

namespace Route

open FilterNode

variable {c : FilterContext} {d : Database}

theorem truthOn_lax (lax : n.Lax) (sound : n.NegatesOne) (scope : Scope) (q : CompiledQuery) (row : d.Row) :
    (ofNode false n).truthOn c d scope q row = .true := by
  obtain ⟨children, rfl, e, member, empty⟩ := lax
  obtain ⟨before, after, rfl⟩ := List.append_of_mem member
  rw [truthOn_among (by decide) sound.2, siblingsTruth_alone (e.sharedHead_of_empty empty), truthOn_of_empty e empty]
  exact Truth.true_or (siblingsTruth c d scope q .or (before ++ after) row)

theorem groupTruth_congr {scope : Scope} {q : CompiledQuery} {group others : List FilterNode} {n m : FilterNode}
    {row : d.Row} (within : ∀ hop, c.resolver.cross? c.adapter scope.queryable head = some hop → ∀ opened (r : d.Row),
      siblingsTruth c d (scope.enter q head hop) opened op (stripAll (n :: group)) r =
        siblingsTruth c d (scope.enter q head hop) opened op (stripAll (m :: others)) r) :
    groupTruth c d scope q op head (n :: group) row = groupTruth c d scope q op head (m :: others) row := by
  cases crossed : c.resolver.cross? c.adapter scope.queryable head with
  | none => rw [groupTruth_lost crossed, groupTruth_lost crossed]
  | some hop =>
    have below := within hop crossed
    cases cardinality : hop.link.cardinality with
    | one => rw [groupTruth_one crossed cardinality, groupTruth_one crossed cardinality, below]
    | many => rw [groupTruth_many crossed cardinality, groupTruth_many crossed cardinality, funext (below _)]

-- The related rows that the others ask for are enough.
theorem groupTruth_lax {scope : Scope} {q : CompiledQuery} {group : List FilterNode} (shared : n.sharedHead? = some head)
    (spared : n.Spared c.resolver c.adapter c.mode op scope.queryable group)
    (below : ∀ hop, c.resolver.cross? c.adapter scope.queryable head = some hop → ∀ opened (r : d.Row),
      siblingsTruth c d (scope.enter q head hop) opened op (n.strip :: stripAll group) r =
        op.apply .true (siblingsTruth c d (scope.enter q head hop) opened op (stripAll group) r)) (row : d.Row) :
    groupTruth c d scope q op head (n :: group) row = op.apply .true (groupTruth c d scope q op head group row) := by
  cases crossed : c.resolver.cross? c.adapter scope.queryable head with
  | none =>
    rw [groupTruth_lost crossed]
    cases group with
    | nil => rw [groupTruth_nil, Connective.apply_unit]
    | cons g rest =>
      rw [groupTruth_lost crossed]
      cases op <;> rfl
  | some hop =>
    cases cardinality : hop.link.cardinality with
    | one => rw [groupTruth_one crossed cardinality, groupTruth_one crossed cardinality, stripAll, below hop crossed]
    | many =>
      have within := below hop crossed
      have toMany := sharesToMany_of_head shared crossed cardinality
      rw [groupTruth_many crossed cardinality, stripAll, funext (within _)]
      cases op with
      | or =>
        have decided : ∀ t, Connective.or.apply .true t = .true := Truth.true_or
        rw [allMatch_of_spared spared toMany (.inl rfl), ToManyMode.allMatch_meets fun r => decided _, decided]
        rfl
      | and =>
        cases group with
        | cons g rest =>
          rw [groupTruth_many crossed cardinality]
          simp only [Connective.apply, Truth.true_and]
        | nil =>
          have always : ∀ opened r, Connective.and.apply .true
              (siblingsTruth c d (scope.enter q head hop) opened .and (stripAll []) r) = .true := by
            intro opened r
            rw [stripAll, siblingsTruth_nil]
            rfl
          rw [allMatch_of_spared spared toMany (.inr rfl), ToManyMode.allMatch_meets (always _)]
          rfl

-- By the weight, since the disjunction keeps its place among its siblings when an association is taken off.
theorem siblingsTruth_lax (op : Connective) (n : FilterNode) (lax : n.Lax) {rest : List FilterNode}
    (sound : AllNegateOne (n :: rest)) (scope : Scope)
    (spared : n.Spared c.resolver c.adapter c.mode op scope.queryable rest) (q : CompiledQuery) (row : d.Row) :
    siblingsTruth c d scope q op (n :: rest) row = op.apply .true (siblingsTruth c d scope q op rest row) := by
  cases shared : n.sharedHead? with
  | none => rw [siblingsTruth_alone shared, truthOn_lax lax sound.1]
  | some head =>
    have group := spared_group shared spared
    have together : ∀ g ∈ rest.filter (·.startsAt head), ∀ l ∈ g.leaves, l.field.firstHop? = some head :=
      fun g member => (sharedHead_exact.mp (of_decide_eq_true (List.mem_filter.mp member).2)).2.2
    have below : AllNegateOne (n :: rest.filter (·.startsAt head)) := ⟨sound.1, allNegateOne_filter _ sound.2⟩
    rw [siblingsTruth_shared shared, siblingsTruth_split head sound.2, ← op.apply_assoc, groupTruth_lax shared group]
    intro hop crossed opened r
    exact siblingsTruth_lax op n.strip (lax_strip lax) (allNegateOne_stripAll below) _
      (spared_strip (sharedHead_exact.mp shared).2.2 crossed together group) opened r
termination_by n.weight
decreasing_by
  obtain ⟨l, leaf, nested⟩ := leaf_of_sharedHead shared
  have lighter := strip_weight_lt n l leaf nested
  omega

mutual
-- Siblings with the disjunction among them are followed through the associations that they share; what stands
-- alone is a tree of its own.
theorem truthOn_loosened (n : FilterNode) {m : FilterNode} (sound : n.NegatesOne) (sound' : m.NegatesOne) (scope : Scope)
    (moved : n.Loosened c.resolver c.adapter c.mode scope.queryable m) (q : CompiledQuery) (row : d.Row) :
    (ofNode false n).truthOn c d scope q row = (ofNode false m).truthOn c d scope q row := by
  cases moved with
  | here lax empty => rw [truthOn_lax lax sound, truthOn_of_empty m empty]
  | @among op before after n m connective lax empty spared =>
    have below := allNegateOne_perm List.perm_middle sound.2
    rw [truthOn_among connective sound.2, truthOn_among connective sound'.2, siblingsTruth_lax _ n lax below scope spared,
      siblingsTruth_alone (m.sharedHead_of_empty empty), truthOn_of_empty m empty]
  | @under n m moved => rw [ofNode, ofNode, truthOn, truthOn, truthOn_loosened n sound.2.1 sound'.2.1 scope moved]
  | @inside op before after n m connective moved alike =>
    have below := allNegateOne_perm List.perm_middle sound.2
    have below' := allNegateOne_perm List.perm_middle sound'.2
    rw [truthOn_among connective sound.2, truthOn_among connective sound'.2,
      siblingsTruth_loosened _ n below below'.1 scope moved alike]
termination_by 2 * n.weight
decreasing_by
  all_goals subst_vars
  · simp only [weight, listWeight]
    omega
  · simp only [weight, listWeight_append, listWeight]
    omega

theorem siblingsTruth_loosened (op : Connective) (n : FilterNode) {m : FilterNode} {rest : List FilterNode}
    (sound : AllNegateOne (n :: rest)) (sound' : m.NegatesOne) (scope : Scope)
    (moved : n.Loosened c.resolver c.adapter c.mode scope.queryable m) (alike : n.SharesAlike m) (q : CompiledQuery)
    (row : d.Row) :
    siblingsTruth c d scope q op (n :: rest) row = siblingsTruth c d scope q op (m :: rest) row := by
  have same := loosened_sharedHead moved alike
  cases shared : n.sharedHead? with
  | none =>
    rw [siblingsTruth_alone shared, siblingsTruth_alone (same ▸ shared),
      truthOn_loosened n sound.1 sound' scope moved]
  | some head =>
    have start := (sharedHead_exact.mp shared).2.2
    have start' := fun l leaf => start l (freed_leaves (freed_of_loosened moved) l leaf)
    have below : AllNegateOne (n :: rest.filter (·.startsAt head)) := ⟨sound.1, allNegateOne_filter _ sound.2⟩
    have within : ∀ hop, c.resolver.cross? c.adapter scope.queryable head = some hop → ∀ opened (r : d.Row),
        siblingsTruth c d (scope.enter q head hop) opened op (stripAll (n :: rest.filter (·.startsAt head))) r =
          siblingsTruth c d (scope.enter q head hop) opened op (stripAll (m :: rest.filter (·.startsAt head))) r := by
      intro hop crossed opened r
      exact siblingsTruth_loosened op n.strip (allNegateOne_stripAll below) (m.negatesOne_strip sound') _
        (loosened_strip moved crossed start) (sharesAlike_strip start start' alike) opened r
    rw [siblingsTruth_shared shared, siblingsTruth_shared (same ▸ shared), groupTruth_congr within]
termination_by 2 * n.weight + 1
decreasing_by
  · omega
  · obtain ⟨l, leaf, nested⟩ := leaf_of_sharedHead shared
    have lighter := strip_weight_lt n l leaf nested
    omega
end

end Route
end FilterQuery
