import FilterQuery.Filter.Head
import FilterQuery.Query.Predicate

namespace FilterQuery

-- A filter tree laid out along the associations it crosses. Siblings that share their first association are walked
-- together, so that one related row has to satisfy them all; negations walk alone.
inductive Route where
  -- The path of the leaf names a field right here.
  | test (leaf : Leaf)
  | negate (inner : Route)
  | join (op : Connective) (parts : List Route)
  | through (head : String) (inner : Route)

-- Siblings that all start at one association.
structure Companions (head : String) where
  nodes : List FilterNode
  nonempty : nodes ≠ []
  shared : ∀ n ∈ nodes, n.sharedHead? = some head

inductive Sibling where
  | alone (node : FilterNode)
  | together (head : String) (group : Companions head)

namespace Companions

def single (n : FilterNode) (h : n.sharedHead? = some head) : Companions head := ⟨[n], by simp, by simpa using h⟩

def push (group : Companions head) (n : FilterNode) (h : n.sharedHead? = some head) : Companions head :=
  ⟨group.nodes ++ [n], by simp, by
    intro m member
    rcases List.mem_append.mp member with old | new
    · exact group.shared m old
    · rw [List.mem_singleton.mp new]; exact h⟩

theorem strip_weight (group : Companions head) :
    FilterNode.listWeight (FilterNode.stripAll group.nodes) + 3 ≤ FilterNode.listWeight group.nodes := by
  rcases group with ⟨nodes, nonempty, shared⟩
  cases nodes with
  | nil => exact absurd rfl nonempty
  | cons n rest =>
    obtain ⟨l, member, nested⟩ := FilterNode.leaf_of_sharedHead (shared n (by simp))
    exact FilterNode.stripAll_weight_lt (n :: rest) l (by simp [FilterNode.listLeaves, member]) nested

end Companions

namespace Sibling

-- Joins the group of its association, or starts one at the end.
def place (n : FilterNode) (head : String) (h : n.sharedHead? = some head) : List Sibling → List Sibling
  | [] => [together head (.single n h)]
  | alone m :: rest => alone m :: place n head h rest
  | together other group :: rest =>
    if same : other = head then together other (group.push n (same ▸ h)) :: rest
    else together other group :: place n head h rest

def add (placed : List Sibling) (n : FilterNode) : List Sibling :=
  match h : n.sharedHead? with
  | none => placed ++ [alone n]
  | some head => place n head h placed

def ofNodes (nodes : List FilterNode) : List Sibling := nodes.foldl add []

def listWeight : List Sibling → Nat
  | [] => 0
  | alone n :: rest => n.weight + 1 + listWeight rest
  | together _ group :: rest => FilterNode.listWeight group.nodes + listWeight rest

theorem listWeight_append (left right : List Sibling) :
    listWeight (left ++ right) = listWeight left + listWeight right := by
  induction left with
  | nil => simp [listWeight]
  | cons s rest ih => cases s <;> simp only [List.cons_append, listWeight, ih] <;> omega

theorem place_weight (n : FilterNode) (h : n.sharedHead? = some head) (placed : List Sibling) :
    listWeight (place n head h placed) = listWeight placed + (n.weight + 1) := by
  induction placed with
  | nil => simp [place, listWeight, Companions.single, FilterNode.listWeight]
  | cons s rest ih =>
    cases s with
    | alone m => simp only [place, listWeight, ih]; omega
    | together other group =>
      simp only [place]
      split
      · simp only [listWeight, Companions.push, FilterNode.listWeight_append, FilterNode.listWeight]; omega
      · simp only [listWeight, ih]; omega

theorem add_weight (placed : List Sibling) (n : FilterNode) :
    listWeight (add placed n) = listWeight placed + (n.weight + 1) := by
  unfold add
  split
  · simp [listWeight_append, listWeight]
  · exact place_weight n _ placed

theorem foldl_weight (nodes : List FilterNode) (placed : List Sibling) :
    listWeight (nodes.foldl add placed) = listWeight placed + FilterNode.listWeight nodes := by
  induction nodes generalizing placed with
  | nil => simp [FilterNode.listWeight]
  | cons n rest ih => simp only [List.foldl_cons, ih, add_weight, FilterNode.listWeight]; omega

theorem ofNodes_weight (nodes : List FilterNode) : listWeight (ofNodes nodes) = FilterNode.listWeight nodes := by
  simp [ofNodes, foldl_weight, listWeight]

end Sibling

-- Cheap tests first; equals keep their order.
def FilterNode.arrange (reorder : Bool) (nodes : List FilterNode) : List FilterNode :=
  if reorder then nodes.mergeSort fun a b => a.rank ≤ b.rank else nodes

theorem FilterNode.arrange_weight (reorder : Bool) (nodes : List FilterNode) :
    listWeight (arrange reorder nodes) = listWeight nodes := by
  unfold arrange
  split
  · exact listWeight_perm (List.mergeSort_perm nodes _)
  · rfl

def Connective.ofCombinator : Combinator → Connective
  | .or => or
  | _ => and

namespace Route

mutual
def ofNode (reorder : Bool) : FilterNode → Route
  | .leaf l =>
    match _nested : l.field.firstHop? with
    | none => test l
    | some head => through head (ofNodes reorder .and [.leaf l.strip])
  | .combine .not (child :: _) => negate (ofNode reorder child)
  | .combine op children => ofNodes reorder (.ofCombinator op) children
  termination_by node => node.weight
  decreasing_by
    · have long := FilterNode.length_of_firstHop _nested
      simp only [FilterNode.listWeight, FilterNode.weight, Leaf.strip, FilterNode.length_tail]
      omega
    · simp only [FilterNode.weight, FilterNode.listWeight]
      omega
    · simp only [FilterNode.weight]
      omega

def ofNodes (reorder : Bool) (op : Connective) (nodes : List FilterNode) : Route :=
  join op (ofSiblings reorder op (Sibling.ofNodes (FilterNode.arrange reorder nodes)))
  termination_by FilterNode.listWeight nodes + 1
  decreasing_by
    simp only [Sibling.ofNodes_weight, FilterNode.arrange_weight]
    omega

def ofSiblings (reorder : Bool) (op : Connective) : List Sibling → List Route
  | [] => []
  | .alone n :: rest => ofNode reorder n :: ofSiblings reorder op rest
  | .together head group :: rest =>
    through head (ofNodes reorder op (FilterNode.stripAll group.nodes)) :: ofSiblings reorder op rest
  termination_by siblings => Sibling.listWeight siblings
  decreasing_by
    · simp only [Sibling.listWeight]
      omega
    · simp only [Sibling.listWeight]
      omega
    · have lighter := group.strip_weight
      simp only [Sibling.listWeight]
      omega
    · have lighter := group.strip_weight
      simp only [Sibling.listWeight]
      omega
end

end Route
end FilterQuery
