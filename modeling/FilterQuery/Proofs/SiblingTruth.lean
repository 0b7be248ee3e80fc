import FilterQuery.Proofs.RouteTruth

namespace FilterQuery
namespace Route

open FilterNode

-- Each group is asked for through its association, the others one by one.
def siblingsTruth (c : FilterContext) (d : Database) (scope : Scope) (q : CompiledQuery) (op : Connective)
    (nodes : List FilterNode) (row : d.Row) : Truth :=
  op.fold (truthsOn c d scope q (ofSiblings false op (Sibling.ofNodes nodes)) row)

-- What all starts at the association. When nothing does, nothing is added to what the others ask.
def groupTruth (c : FilterContext) (d : Database) (scope : Scope) (q : CompiledQuery) (op : Connective)
    (head : String) (group : List FilterNode) (row : d.Row) : Truth :=
  if group.isEmpty then op.unit
  else (through head (ofNodes false op (stripAll group))).truthOn c d scope q row

section Siblings

variable {c : FilterContext} {d : Database} {scope : Scope} {q : CompiledQuery} {op : Connective}
  {nodes others : List FilterNode} {row : d.Row}

@[simp] theorem siblingsTruth_nil : siblingsTruth c d scope q op [] row = op.unit := by
  rw [siblingsTruth, ofSiblings_nil]
  rfl

theorem siblingsTruth_alone (unshared : n.sharedHead? = none) (rest : List FilterNode) :
    siblingsTruth c d scope q op (n :: rest) row =
      op.apply ((ofNode false n).truthOn c d scope q row) (siblingsTruth c d scope q op rest row) := by
  rw [siblingsTruth, ofSiblings_cons_alone false op unshared, truthsOn, Connective.fold_cons, siblingsTruth]

theorem siblingsTruth_shared (shared : n.sharedHead? = some head) (rest : List FilterNode) :
    siblingsTruth c d scope q op (n :: rest) row =
      op.apply (groupTruth c d scope q op head (n :: rest.filter (·.startsAt head)) row)
        (siblingsTruth c d scope q op (rest.filter (!·.startsAt head)) row) := by
  rw [siblingsTruth, ofSiblings_cons_shared false op shared, truthsOn, Connective.fold_cons, siblingsTruth]
  rfl

theorem ofNodes_siblings (occupied : nodes ≠ []) :
    (ofNodes false op nodes).truthOn c d scope q row = siblingsTruth c d scope q op nodes row := by
  have arranged : arrange false nodes = nodes := rfl
  have nonempty := arranged_ne_nil false op occupied
  rw [arranged] at nonempty
  rw [ofNodes, truthOn, arranged, truthsOn_eq_map, op.value_of_ne_nil (by simpa using nonempty), siblingsTruth,
    truthsOn_eq_map]

theorem ofNode_truthOn (reorder : Bool) (sound : n.NegatesOne) :
    (ofNode reorder n).truthOn c d scope q row = (ofNode false n).truthOn c d scope q row :=
  truthOn_rearranged (ofNode_rearranged reorder false n sound n.shuffled_refl) scope q row

theorem siblingsTruth_perm (sound : AllNegateOne nodes) (moved : nodes.Perm others) :
    siblingsTruth c d scope q op nodes row = siblingsTruth c d scope q op others row := by
  by_cases empty : nodes = []
  · subst empty
    rw [moved.nil_eq]
  · have nonempty : others ≠ [] := by
      rintro rfl
      exact empty moved.eq_nil
    have paired : Paired Shuffled nodes others :=
      paired_perm (.refl _) moved (Multiset.rel_refl_of_refl_on fun n _ => n.shuffled_refl)
    have rearranged := ofNodes_rearranged false false op nodes sound paired
    rw [← ofNodes_siblings empty, ← ofNodes_siblings nonempty, truthOn_rearranged rearranged]

-- One of the children first, the others after it.
theorem truthOn_among {op : Combinator} (connective : op ≠ .not) (sound : AllNegateOne (before ++ n :: after)) :
    (ofNode false (.combine op (before ++ n :: after))).truthOn c d scope q row =
      siblingsTruth c d scope q (.ofCombinator op) (n :: (before ++ after)) row := by
  have plain : ∀ child rest, op = .not → before ++ n :: after = child :: rest → False :=
    fun _ _ negation _ => connective negation
  rw [ofNode_connective false plain, ofNodes_siblings (by simp), siblingsTruth_perm sound List.perm_middle]

theorem siblingsTruth_split (head : String) (sound : AllNegateOne nodes) :
    siblingsTruth c d scope q op nodes row =
      op.apply (groupTruth c d scope q op head (nodes.filter (·.startsAt head)) row)
        (siblingsTruth c d scope q op (nodes.filter (!·.startsAt head)) row) := by
  have moved := List.filter_append_perm (·.startsAt head) nodes
  rw [siblingsTruth_perm sound moved.symm]
  cases grouped : nodes.filter (·.startsAt head) with
  | nil => rw [groupTruth, if_pos List.isEmpty_nil, Connective.unit_apply, List.nil_append]
  | cons g rest =>
    have starts : ∀ n ∈ g :: rest, n.startsAt head = true := by
      intro n member
      rw [← grouped] at member
      exact (List.mem_filter.mp member).2
    have together : rest.filter (·.startsAt head) = rest :=
      List.filter_eq_self.mpr fun n member => starts n (List.mem_cons_of_mem _ member)
    have left : rest.filter (!·.startsAt head) = [] :=
      List.filter_eq_nil_iff.mpr fun n member => by simp [starts n (List.mem_cons_of_mem _ member)]
    have apart : (nodes.filter (!·.startsAt head)).filter (·.startsAt head) = [] := by
      rw [List.filter_filter]
      exact List.filter_eq_nil_iff.mpr fun n _ => by simp
    have kept : (nodes.filter (!·.startsAt head)).filter (!·.startsAt head) = nodes.filter (!·.startsAt head) := by
      rw [List.filter_filter]
      exact List.filter_congr fun n _ => Bool.and_self _
    have shared : g.sharedHead? = some head := of_decide_eq_true (starts g (List.mem_cons_self ..))
    rw [List.cons_append, siblingsTruth_shared shared, List.filter_append, List.filter_append, together, left, apart, kept,
      List.append_nil, List.nil_append]

theorem groupTruth_nil (head : String) : groupTruth c d scope q op head [] row = op.unit := rfl

theorem groupTruth_lost (missing : c.resolver.cross? c.adapter scope.queryable head = none) (n : FilterNode)
    (rest : List FilterNode) : groupTruth c d scope q op head (n :: rest) row = .true := by
  rw [groupTruth, if_neg (by simp), truthOn, missing]

-- Across a to-one association the group is siblings again.
theorem groupTruth_one (crossed : c.resolver.cross? c.adapter scope.queryable head = some hop)
    (one : hop.link.cardinality = .one) (group : List FilterNode) :
    groupTruth c d scope q op head group row = siblingsTruth c d (scope.enter q head hop) q op (stripAll group) row := by
  cases group with
  | nil => rw [groupTruth_nil, stripAll, siblingsTruth_nil]
  | cons n rest => rw [groupTruth, if_neg (by simp), truthOn_one _ row crossed one, ofNodes_siblings (by simp [stripAll])]

theorem groupTruth_many (crossed : c.resolver.cross? c.adapter scope.queryable head = some hop)
    (many : hop.link.cardinality = .many) (n : FilterNode) (rest : List FilterNode) :
    groupTruth c d scope q op head (n :: rest) row =
      .ofBool (c.mode.meets
        (siblingsTruth c d (scope.enter q head hop) (q.openScope hop.related (q.bindingFor (scope.path.child head))) op
          (stripAll (n :: rest)))
        ((q.openScope hop.related (q.bindingFor (scope.path.child head))).related d row scope.binding
          (q.bindingFor (scope.path.child head)) hop.link)) := by
  have inner : (ofNodes false op (stripAll (n :: rest))).truthOn c d (scope.enter q head hop)
      (q.openScope hop.related (q.bindingFor (scope.path.child head))) =
        siblingsTruth c d (scope.enter q head hop) (q.openScope hop.related (q.bindingFor (scope.path.child head))) op
          (stripAll (n :: rest)) := by
    funext r
    exact ofNodes_siblings (by simp [stripAll])
  rw [groupTruth, if_neg (by simp), truthOn_many _ row crossed many, inner]

end Siblings

variable {c : FilterContext} {d : Database}

mutual
-- Nothing is asked by an empty filter.
theorem truthOn_of_empty (n : FilterNode) (empty : n.isEmpty = true) (scope : Scope) (q : CompiledQuery) (row : d.Row) :
    (ofNode false n).truthOn c d scope q row = .true := by
  cases n with
  | leaf l => cases empty
  | combine op children =>
    have plain : ∀ child rest, op = .not → children = child :: rest → False := by
      rintro child rest rfl _
      cases empty
    have each : allEmpty children = true := by
      cases op <;> first | exact empty | cases empty
    rw [ofNode_connective false plain]
    by_cases childless : children = []
    · subst childless
      rw [ofNodes, truthOn, arrange_nil, ofSiblings_nil]
      rfl
    · rw [ofNodes_siblings childless]
      exact siblingsTruth_of_empty _ children each childless scope q row

theorem siblingsTruth_of_empty (op : Connective) (nodes : List FilterNode) (empty : allEmpty nodes = true)
    (occupied : nodes ≠ []) (scope : Scope) (q : CompiledQuery) (row : d.Row) :
    siblingsTruth c d scope q op nodes row = .true := by
  cases nodes with
  | nil => exact absurd rfl occupied
  | cons n rest =>
    rw [allEmpty, Bool.and_eq_true] at empty
    rw [siblingsTruth_alone (n.sharedHead_of_empty empty.1), truthOn_of_empty n empty.1]
    by_cases last : rest = []
    · subst last
      rw [siblingsTruth_nil, Connective.apply_unit]
    · rw [siblingsTruth_of_empty op rest empty.2 last]
      cases op <;> rfl
end

end Route
end FilterQuery
