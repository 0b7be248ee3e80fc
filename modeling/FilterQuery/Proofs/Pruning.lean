import FilterQuery.Proofs.RouteAlike

namespace FilterQuery

namespace FilterNode

def withoutEmpty (op : Combinator) (nodes : List FilterNode) : List FilterNode :=
  match op with
  | .and => nodes.filter (!·.isEmpty)
  | _ => nodes

mutual
-- The tree without the empty children of its ANDs.
def prune : FilterNode → FilterNode
  | leaf l => leaf l
  | combine op children => combine op (withoutEmpty op (pruneAll children))

def pruneAll : List FilterNode → List FilterNode
  | [] => []
  | n :: rest => n.prune :: pruneAll rest
end

theorem pruneAll_eq_map (nodes : List FilterNode) : pruneAll nodes = nodes.map prune := by
  induction nodes with
  | nil => rfl
  | cons n rest ih => rw [pruneAll, ih, List.map_cons]

theorem allEmpty_exact {nodes : List FilterNode} : allEmpty nodes = true ↔ ∀ n ∈ nodes, n.isEmpty = true := by
  induction nodes with
  | nil => simp [allEmpty]
  | cons n rest ih => simp [allEmpty, ih]

theorem allEmpty_filter (nodes : List FilterNode) : allEmpty (nodes.filter (!·.isEmpty)) = allEmpty nodes := by
  induction nodes with
  | nil => rfl
  | cons n rest ih => cases empty : n.isEmpty <;> simp [allEmpty, empty, ih]

theorem listLeaves_filter (nodes : List FilterNode) : listLeaves (nodes.filter (!·.isEmpty)) = listLeaves nodes := by
  induction nodes with
  | nil => rfl
  | cons n rest ih =>
    cases empty : n.isEmpty with
    | true => simp [listLeaves, empty, ih, n.leaves_of_empty empty]
    | false => simp [listLeaves, empty, ih]

mutual
theorem isEmpty_prune (n : FilterNode) : n.prune.isEmpty = n.isEmpty := by
  cases n with
  | leaf l => rfl
  | combine op children =>
    have below := allEmpty_pruneAll children
    cases op with
    | and => rw [prune, withoutEmpty, isEmpty, isEmpty, allEmpty_filter, below]
    | or => rw [prune, withoutEmpty, isEmpty, isEmpty, below]; simp
    | not => rfl

theorem allEmpty_pruneAll (nodes : List FilterNode) : allEmpty (pruneAll nodes) = allEmpty nodes := by
  cases nodes with
  | nil => rfl
  | cons n rest => rw [pruneAll, allEmpty, allEmpty, isEmpty_prune n, allEmpty_pruneAll rest]
end

mutual
theorem leaves_prune (n : FilterNode) : n.prune.leaves = n.leaves := by
  cases n with
  | leaf l => rfl
  | combine op children =>
    have below := listLeaves_pruneAll children
    cases op with
    | and => rw [prune, withoutEmpty, leaves, leaves, listLeaves_filter, below]
    | or => exact below
    | not => exact below

theorem listLeaves_pruneAll (nodes : List FilterNode) : listLeaves (pruneAll nodes) = listLeaves nodes := by
  cases nodes with
  | nil => rfl
  | cons n rest => rw [pruneAll, listLeaves, listLeaves, leaves_prune n, listLeaves_pruneAll rest]
end

theorem rank_prune (n : FilterNode) : n.prune.rank = n.rank := by
  rw [rank_of_leaves, rank_of_leaves, leaves_prune]

theorem isNegation_prune (n : FilterNode) : n.prune.isNegation = n.isNegation := by
  cases n with
  | leaf l => rfl
  | combine op children => cases op <;> rfl

theorem sharedHead_prune (n : FilterNode) : n.prune.sharedHead? = n.sharedHead? := by
  refine Option.ext fun head => ?_
  rw [sharedHead_exact, sharedHead_exact, isNegation_prune, leaves_prune]

theorem startsAt_prune (head : String) (n : FilterNode) : n.prune.startsAt head = n.startsAt head := by
  rw [startsAt, startsAt, sharedHead_prune]

mutual
theorem isEmpty_strip (n : FilterNode) : n.strip.isEmpty = n.isEmpty := by
  cases n with
  | leaf l => rfl
  | combine op children =>
    cases op with
    | and => exact allEmpty_stripAll children
    | or => exact allEmpty_stripAll children
    | not => rfl

theorem allEmpty_stripAll (nodes : List FilterNode) : allEmpty (stripAll nodes) = allEmpty nodes := by
  cases nodes with
  | nil => rfl
  | cons n rest => rw [stripAll, allEmpty, allEmpty, isEmpty_strip n, allEmpty_stripAll rest]
end

theorem withoutEmpty_stripAll (op : Combinator) (nodes : List FilterNode) :
    withoutEmpty op (stripAll nodes) = stripAll (withoutEmpty op nodes) := by
  cases op with
  | and =>
    rw [withoutEmpty, withoutEmpty, stripAll_eq_map, stripAll_eq_map, List.filter_map]
    refine congrArg _ (List.filter_congr ?_)
    intro n _
    rw [Function.comp_apply, isEmpty_strip]
  | or => rfl
  | not => rfl

mutual
theorem strip_prune (n : FilterNode) : n.strip.prune = n.prune.strip := by
  cases n with
  | leaf l => rfl
  | combine op children => rw [strip, prune, prune, strip, stripAll_prune children, withoutEmpty_stripAll]

theorem stripAll_prune (nodes : List FilterNode) : pruneAll (stripAll nodes) = stripAll (pruneAll nodes) := by
  cases nodes with
  | nil => rfl
  | cons n rest => rw [stripAll, pruneAll, pruneAll, stripAll, strip_prune n, stripAll_prune rest]
end

theorem arrange_prune (reorder : Bool) (nodes : List FilterNode) :
    arrange reorder (pruneAll nodes) = pruneAll (arrange reorder nodes) := by
  rw [pruneAll_eq_map, pruneAll_eq_map]
  unfold arrange
  split
  · refine (List.map_mergeSort ?_).symm
    intro a _ b _
    rw [rank_prune, rank_prune]
  · rfl

mutual
theorem validate_of_empty (n : FilterNode) (empty : n.isEmpty = true) : n.validate = .ok () := by
  cases n with
  | leaf l => cases empty
  | combine op children =>
    cases op with
    | and => exact validateAll_of_empty children empty
    | or => exact validateAll_of_empty children empty
    | not => cases empty

theorem validateAll_of_empty (nodes : List FilterNode) (empty : allEmpty nodes = true) : validateAll nodes = .ok () := by
  cases nodes with
  | nil => rfl
  | cons n rest =>
    rw [allEmpty, Bool.and_eq_true] at empty
    rw [validateAll, validate_of_empty n empty.1]
    exact validateAll_of_empty rest empty.2
end

theorem validateAll_filter (nodes : List FilterNode) : validateAll (nodes.filter (!·.isEmpty)) = validateAll nodes := by
  induction nodes with
  | nil => rfl
  | cons n rest ih =>
    cases empty : n.isEmpty with
    | true =>
      rw [List.filter_cons, empty, if_neg (by simp), ih, validateAll, n.validate_of_empty empty]
      rfl
    | false => rw [List.filter_cons, empty, if_pos (by rfl), validateAll, validateAll, ih]

mutual
theorem validate_prune (n : FilterNode) : n.prune.validate = n.validate := by
  cases n with
  | leaf l => rfl
  | combine op children =>
    have below := validateAll_pruneAll children
    cases op with
    | and => rw [prune, withoutEmpty, validate, validate, validateAll_filter, below]
    | or => exact below
    | not =>
      have length : (pruneAll children).length = children.length := by rw [pruneAll_eq_map, List.length_map]
      change (combine .not (pruneAll children)).validate = _
      rw [validate, validate, below, length]

theorem validateAll_pruneAll (nodes : List FilterNode) : validateAll (pruneAll nodes) = validateAll nodes := by
  cases nodes with
  | nil => rfl
  | cons n rest => rw [pruneAll, validateAll, validateAll, validate_prune n, validateAll_pruneAll rest]
end

theorem referencedPaths_prune (n : FilterNode) : n.prune.referencedPaths = n.referencedPaths := by
  rw [referencedPaths, referencedPaths, leaves_prune]

end FilterNode

namespace Route

-- Side by side they compile to the same.
def AllAlike (parts others : List Route) : Prop :=
  ∀ (c : FilterContext) (scope : Scope) (q : CompiledQuery), c.adapter.kind = q.kind →
    compileAll c scope parts q = compileAll c scope others q

theorem allAlike_cons {part other : Route} (same : part.Alike other) (all : AllAlike rest others) :
    AllAlike (part :: rest) (other :: others) := by
  intro c scope q own
  rw [compileAll, compileAll, same c scope q own]
  cases compiled : other.compile c scope q with
  | error fault => rfl
  | ok outcome =>
    obtain ⟨p, joined⟩ := outcome
    have later := all c scope joined (own.trans (joined_kind compiled).symm)
    simp only [bind, Except.bind, later]

theorem alike_parts (op : Connective) (all : AllAlike parts others) : (join op parts).Alike (join op others) := by
  intro c scope q own
  rw [compile, compile, all c scope q own]

theorem alike_filled (reorder : Bool) (nodes : List FilterNode) :
    (ofNodes reorder .and nodes).Alike (ofNodes reorder .and (nodes.filter (!·.isEmpty))) := by
  by_cases blank : nodes.filter (!·.isEmpty) = []
  · have empty : FilterNode.isEmpty (.combine .and nodes) = true := by
      refine FilterNode.allEmpty_exact.mpr ?_
      intro n member
      simpa using List.filter_eq_nil_iff.mp blank n member
    intro c scope q _
    rw [blank]
    have here := compile_of_empty reorder empty c scope q
    have there := compile_of_empty reorder (n := .combine .and []) rfl c scope q
    rw [ofNode_connective reorder (by simp)] at here there
    exact here.trans there.symm
  · refine alike_filtered reorder .and ?_ blank
    intro n empty
    have empty : n.isEmpty = true := by simpa using empty
    exact ⟨n.leaves_of_empty empty, n.extent_of_empty empty⟩

open FilterNode in
mutual
theorem alike_prune (reorder : Bool) (n : FilterNode) : (ofNode reorder n).Alike (ofNode reorder n.prune) := by
  cases n with
  | leaf l => exact .refl _
  | combine op children =>
    rcases negation_or_plain op children with ⟨child, rest, rfl, rfl⟩ | plain
    · rw [prune, withoutEmpty, pruneAll, ofNode, ofNode]
      · exact alike_negate (alike_prune reorder child)
      · simp
    · have plain' : ∀ child rest, op = .not → withoutEmpty op (pruneAll children) = child :: rest → False := by
        rintro child rest rfl shape
        cases children with
        | nil => cases shape
        | cons first later => exact plain first later rfl rfl
      have below := alike_pruneAll reorder (.ofCombinator op) children
      rw [prune, ofNode_connective reorder plain, ofNode_connective reorder plain']
      cases op with
      | and => exact below.trans (alike_filled reorder (pruneAll children))
      | or => exact below
      | not => exact below
termination_by n.weight
decreasing_by
  all_goals subst_vars
  · simp only [weight, listWeight]
    omega
  · simp only [weight]
    omega

theorem alike_pruneAll (reorder : Bool) (op : Connective) (nodes : List FilterNode) :
    (ofNodes reorder op nodes).Alike (ofNodes reorder op (pruneAll nodes)) := by
  rw [ofNodes, ofNodes, arrange_prune]
  exact alike_parts op (alike_siblings reorder op (arrange reorder nodes))
termination_by listWeight nodes + 1
decreasing_by
  rw [arrange_weight]
  omega

theorem alike_siblings (reorder : Bool) (op : Connective) (nodes : List FilterNode) :
    AllAlike (ofSiblings reorder op (Sibling.ofNodes nodes))
      (ofSiblings reorder op (Sibling.ofNodes (pruneAll nodes))) := by
  match nodes with
  | [] =>
    rw [pruneAll, ofSiblings_nil]
    exact fun _ _ _ _ => rfl
  | n :: rest =>
    rw [pruneAll]
    cases shared : n.sharedHead? with
    | none =>
      rw [ofSiblings_cons_alone reorder op shared, ofSiblings_cons_alone reorder op (by rwa [sharedHead_prune])]
      exact allAlike_cons (alike_prune reorder n) (alike_siblings reorder op rest)
    | some head =>
      have grouped : n.prune :: (pruneAll rest).filter (·.startsAt head) =
          pruneAll (n :: rest.filter (·.startsAt head)) := by
        rw [pruneAll, pruneAll_eq_map, pruneAll_eq_map, List.filter_map]
        refine congrArg (fun kept => n.prune :: kept.map prune) (List.filter_congr ?_)
        exact fun m _ => startsAt_prune head m
      have others : (pruneAll rest).filter (!·.startsAt head) = pruneAll (rest.filter (!·.startsAt head)) := by
        rw [pruneAll_eq_map, pruneAll_eq_map, List.filter_map]
        refine congrArg (List.map prune) (List.filter_congr ?_)
        exact fun m _ => congrArg (!·) (startsAt_prune head m)
      rw [ofSiblings_cons_shared reorder op shared, ofSiblings_cons_shared reorder op (by rwa [sharedHead_prune]), grouped,
        others, ← stripAll_prune]
      exact allAlike_cons (alike_through head (alike_pruneAll reorder op _)) (alike_siblings reorder op _)
termination_by listWeight nodes
decreasing_by
  · simp only [listWeight]
    omega
  · simp only [listWeight]
    omega
  · have lighter := group_weight (List.mem_cons_self (l := rest)) shared
    rw [List.filter_cons, startsAt, decide_eq_true shared, if_pos rfl] at lighter
    omega
  · have fewer := listWeight_filter (!·.startsAt head) rest
    simp only [listWeight]
    omega
end

end Route

-- With one more empty child under an AND, wherever in the tree the AND stands.
inductive FilterNode.Grown : FilterNode → FilterNode → Prop
  | here (before after : List FilterNode) {e : FilterNode} (empty : e.isEmpty = true) :
    Grown (.combine .and (before ++ after)) (.combine .and (before ++ e :: after))
  | inside (op : Combinator) (before after : List FilterNode) {n m : FilterNode} (grown : Grown n m) :
    Grown (.combine op (before ++ n :: after)) (.combine op (before ++ m :: after))

theorem FilterNode.prune_grown {n m : FilterNode} (grown : n.Grown m) : m.prune = n.prune := by
  induction grown with
  | here before after empty =>
    simp [prune, withoutEmpty, pruneAll_eq_map, isEmpty_prune, empty]
  | inside op before after _ ih => rw [prune, prune, pruneAll_eq_map, pruneAll_eq_map, List.map_append, List.map_append,
      List.map_cons, List.map_cons, ih]

namespace Resolver

theorem compileFilter_pruned (r : Resolver) (q : Queryable) (filter : FilterNode) (options : CompileOptions) :
    r.compileFilter q filter.prune options = r.compileFilter q filter options :=
  compileFilter_congr filter.validate_prune filter.referencedPaths_prune (Route.alike_prune _ filter).symm

theorem compileFilter_grown (r : Resolver) (q : Queryable) {filter other : FilterNode} (options : CompileOptions)
    (grown : filter.Grown other) : r.compileFilter q other options = r.compileFilter q filter options := by
  rw [← compileFilter_pruned r q other, FilterNode.prune_grown grown, compileFilter_pruned]

end Resolver
end FilterQuery
