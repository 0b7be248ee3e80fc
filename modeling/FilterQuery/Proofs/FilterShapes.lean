import FilterQuery.Proofs.LeafShapes
import FilterQuery.Proofs.Siblings

namespace FilterQuery

namespace FilterNode

mutual
-- The same combinators, and leaves of the same shape.
def SameShape : FilterNode → FilterNode → Prop
  | leaf l, leaf l' => l.SameShape l'
  | combine op children, combine op' children' => op = op' ∧ AllSameShape children children'
  | _, _ => False

def AllSameShape : List FilterNode → List FilterNode → Prop
  | [], [] => True
  | n :: rest, n' :: rest' => n.SameShape n' ∧ AllSameShape rest rest'
  | _, _ => False
end

mutual
def outline : FilterNode → FilterNode
  | leaf l => leaf l.outline
  | combine op children => combine op (outlineAll children)

def outlineAll : List FilterNode → List FilterNode
  | [] => []
  | n :: rest => n.outline :: outlineAll rest
end

theorem outlineAll_eq_map (nodes : List FilterNode) : outlineAll nodes = nodes.map outline := by
  induction nodes with
  | nil => rfl
  | cons n rest ih => rw [outlineAll, ih, List.map_cons]

mutual
theorem outline_of_sameShape (n n' : FilterNode) (same : n.SameShape n') : n.outline = n'.outline := by
  cases n with
  | leaf l =>
    cases n' with
    | leaf l' =>
      rw [SameShape] at same
      rw [outline, outline, same.outline]
    | combine op' children' => simp [SameShape] at same
  | combine op children =>
    cases n' with
    | leaf l' => simp [SameShape] at same
    | combine op' children' =>
      rw [SameShape] at same
      rw [outline, outline, same.1, outlineAll_of_sameShape children children' same.2]

theorem outlineAll_of_sameShape (nodes nodes' : List FilterNode) (same : AllSameShape nodes nodes') :
    outlineAll nodes = outlineAll nodes' := by
  cases nodes with
  | nil =>
    cases nodes' with
    | nil => rfl
    | cons n' rest' => simp [AllSameShape] at same
  | cons n rest =>
    cases nodes' with
    | nil => simp [AllSameShape] at same
    | cons n' rest' =>
      rw [AllSameShape] at same
      rw [outlineAll, outlineAll, outline_of_sameShape n n' same.1, outlineAll_of_sameShape rest rest' same.2]
end

mutual
theorem leaves_outline (n : FilterNode) : n.outline.leaves = n.leaves.map Leaf.outline := by
  cases n with
  | leaf l => rfl
  | combine op children => simpa only [outline, leaves] using listLeaves_outlineAll children

theorem listLeaves_outlineAll (nodes : List FilterNode) :
    listLeaves (outlineAll nodes) = (listLeaves nodes).map Leaf.outline := by
  cases nodes with
  | nil => rfl
  | cons n rest => rw [outlineAll, listLeaves, listLeaves, leaves_outline, listLeaves_outlineAll, List.map_append]
end

mutual
theorem strip_outline (n : FilterNode) : n.outline.strip = n.strip.outline := by
  cases n with
  | leaf l => rfl
  | combine op children => rw [outline, strip, strip, outline, stripAll_outlineAll]

theorem stripAll_outlineAll (nodes : List FilterNode) : stripAll (outlineAll nodes) = outlineAll (stripAll nodes) := by
  cases nodes with
  | nil => rfl
  | cons n rest => rw [outlineAll, stripAll, stripAll, outlineAll, strip_outline, stripAll_outlineAll]
end

mutual
theorem rank_outline (n : FilterNode) : n.outline.rank = n.rank := by
  cases n with
  | leaf l => rfl
  | combine op children => exact listRank_outlineAll children

theorem listRank_outlineAll (nodes : List FilterNode) : listRank (outlineAll nodes) = listRank nodes := by
  cases nodes with
  | nil => rfl
  | cons n rest => rw [outlineAll, listRank, listRank, rank_outline, listRank_outlineAll]
end

mutual
theorem isEmpty_outline (n : FilterNode) : n.outline.isEmpty = n.isEmpty := by
  cases n with
  | leaf l => rfl
  | combine op children =>
    cases op with
    | and | or => exact allEmpty_outlineAll children
    | not => rfl

theorem allEmpty_outlineAll (nodes : List FilterNode) : allEmpty (outlineAll nodes) = allEmpty nodes := by
  cases nodes with
  | nil => rfl
  | cons n rest => rw [outlineAll, allEmpty, allEmpty, isEmpty_outline, allEmpty_outlineAll]
end

theorem isNegation_outline (n : FilterNode) : n.outline.isNegation = n.isNegation := by
  cases n with
  | leaf l => rfl
  | combine op children => cases op <;> rfl

theorem sharedHead_outline (n : FilterNode) : n.outline.sharedHead? = n.sharedHead? := by
  refine Option.ext fun head => ?_
  simp only [sharedHead_exact, isNegation_outline, leaves_outline, List.forall_mem_map, ne_eq, List.map_eq_nil_iff]
  rfl

theorem arrange_outline (reorder : Bool) (nodes : List FilterNode) :
    arrange reorder (outlineAll nodes) = outlineAll (arrange reorder nodes) := by
  unfold arrange
  split
  · rw [outlineAll_eq_map, outlineAll_eq_map]
    refine (List.map_mergeSort ?_).symm
    intro n _ m _
    rw [rank_outline, rank_outline]
  · rfl

end FilterNode

def Companions.outline (group : Companions head) : Companions head where
  nodes := FilterNode.outlineAll group.nodes
  nonempty := by
    rw [FilterNode.outlineAll_eq_map]
    simpa using group.nonempty
  shared := by
    rw [FilterNode.outlineAll_eq_map, List.forall_mem_map]
    intro n member
    rw [FilterNode.sharedHead_outline]
    exact group.shared n member

namespace Sibling

def outline : Sibling → Sibling
  | alone n => alone n.outline
  | together head group => together head group.outline

theorem place_outline {n : FilterNode} (shared : n.sharedHead? = some head)
    (shared' : n.outline.sharedHead? = some head) (placed : List Sibling) :
    place n.outline head shared' (placed.map outline) = (place n head shared placed).map outline := by
  induction placed with
  | nil => rfl
  | cons s rest ih =>
    cases s with
    | alone m => exact congrArg _ ih
    | together other group =>
      simp only [List.map_cons, outline, place]
      split
      · simp [outline, Companions.outline, Companions.push, FilterNode.outlineAll_eq_map]
      · rw [List.map_cons, outline, ih]

theorem add_outline (placed : List Sibling) (n : FilterNode) :
    add (placed.map outline) n.outline = (add placed n).map outline := by
  cases shared : n.sharedHead? with
  | none =>
    have shared' : n.outline.sharedHead? = none := by rw [FilterNode.sharedHead_outline, shared]
    rw [add_alone _ shared, add_alone _ shared', List.map_append]
    rfl
  | some head =>
    have shared' : n.outline.sharedHead? = some head := by rw [FilterNode.sharedHead_outline, shared]
    rw [add_shared _ shared, add_shared _ shared', place_outline]

theorem ofNodes_outline (nodes : List FilterNode) :
    ofNodes (FilterNode.outlineAll nodes) = (ofNodes nodes).map outline := by
  have placed : ∀ start : List Sibling, (nodes.map FilterNode.outline).foldl add (start.map outline) =
      (nodes.foldl add start).map outline := by
    induction nodes with
    | nil => exact fun _ => rfl
    | cons n rest ih =>
      intro start
      rw [List.map_cons, List.foldl_cons, List.foldl_cons, add_outline, ih]
  rw [FilterNode.outlineAll_eq_map]
  exact placed []

end Sibling

namespace Route

mutual
def outline : Route → Route
  | test l => test l.outline
  | negate inner => negate inner.outline
  | join op parts => join op (outlineAll parts)
  | through head inner => through head inner.outline

def outlineAll : List Route → List Route
  | [] => []
  | part :: rest => part.outline :: outlineAll rest
end

theorem ofNode_outline (reorder : Bool) (n : FilterNode) : ofNode reorder n.outline = (ofNode reorder n).outline := by
  refine ofNode.induct reorder (fun n => ofNode reorder n.outline = (ofNode reorder n).outline)
    (fun op ns => ofNodes reorder op (FilterNode.outlineAll ns) = (ofNodes reorder op ns).outline)
    (fun op siblings => ofSiblings reorder op (siblings.map Sibling.outline) =
      outlineAll (ofSiblings reorder op siblings)) ?_ ?_ ?_ ?_ ?_ ?_ ?_ ?_ n
  case refine_1 =>
    intro l flat
    have flat' : l.outline.field.firstHop? = none := flat
    rw [FilterNode.outline, ofNode_flat reorder flat, ofNode_flat reorder flat', outline]
  case refine_2 =>
    intro l head nested ih
    have nested' : l.outline.field.firstHop? = some head := nested
    rw [FilterNode.outline, ofNode_nested reorder nested, ofNode_nested reorder nested', outline, ← ih]
    rfl
  case refine_3 =>
    intro child rest ih
    rw [FilterNode.outline, FilterNode.outlineAll, ofNode, ofNode, outline, ih]
  case refine_4 =>
    intro op children plain ih
    have plain' : ∀ child rest, op = .not → FilterNode.outlineAll children = child :: rest → False := by
      intro child rest negation shape
      cases children with
      | nil => cases shape
      | cons n others => exact plain n others negation rfl
    rw [FilterNode.outline, ofNode_connective reorder plain, ofNode_connective reorder plain', ih]
  case refine_5 =>
    intro op ns ih
    rw [ofNodes, ofNodes, outline, FilterNode.arrange_outline, Sibling.ofNodes_outline, ih]
  case refine_6 =>
    intro op
    simp [ofSiblings, outlineAll]
  case refine_7 =>
    intro op n rest here later
    rw [List.map_cons, Sibling.outline, ofSiblings, ofSiblings, outlineAll, here, later]
  case refine_8 =>
    intro op head group rest here later
    rw [List.map_cons, Sibling.outline, ofSiblings, ofSiblings, outlineAll, outline, Companions.outline,
      FilterNode.stripAll_outlineAll, here, later]

end Route
end FilterQuery
