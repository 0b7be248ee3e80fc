import FilterQuery.Filter.Basic

namespace FilterQuery

-- Done to every leaf this makes the tree lighter by at least three, so walking down comes to an end.
def Leaf.strip (l : Leaf) : Leaf := { l with field := l.field.tail }

-- Tests right here by their cost, and whatever crosses an association after them.
def Leaf.rank (l : Leaf) : Nat := if l.field.isNested then 4 else l.operator.costClass.rank

namespace FilterNode

-- A negation has none, and neither has a tree without leaves.
def sharedHead? : FilterNode → Option String
  | combine .not _ => none
  | node =>
    match node.leaves with
    | [] => none
    | first :: rest =>
      match first.field.firstHop? with
      | none => none
      | some head => if rest.all (·.field.firstHop? == some head) then some head else none

mutual
def strip : FilterNode → FilterNode
  | leaf l => leaf l.strip
  | combine op children => combine op (stripAll children)

def stripAll : List FilterNode → List FilterNode
  | [] => []
  | n :: rest => n.strip :: stripAll rest
end

mutual
-- The dearest leaf decides.
def rank : FilterNode → Nat
  | leaf l => l.rank
  | combine _ children => listRank children

def listRank : List FilterNode → Nat
  | [] => 0
  | n :: rest => max n.rank (listRank rest)
end

mutual
def weight : FilterNode → Nat
  | leaf l => 3 * l.field.length
  | combine _ children => listWeight children + 3

def listWeight : List FilterNode → Nat
  | [] => 0
  | n :: rest => n.weight + 1 + listWeight rest
end

theorem listWeight_append (left right : List FilterNode) :
    listWeight (left ++ right) = listWeight left + listWeight right := by
  induction left with
  | nil => simp [listWeight]
  | cons n rest ih =>
    simp only [List.cons_append, listWeight, ih]
    omega

theorem listWeight_perm {left right : List FilterNode} (moved : left.Perm right) :
    listWeight left = listWeight right := by
  induction moved with
  | nil => rfl
  | cons n _ ih => simp only [listWeight, ih]
  | swap n m rest => simp only [listWeight]; omega
  | trans _ _ first second => exact first.trans second

theorem length_tail (path : FieldPath) : path.tail.length = path.length - 1 := by
  simp [FieldPath.tail, FieldPath.length]

theorem length_of_firstHop {path : FieldPath} (found : path.firstHop? = some head) : 2 ≤ path.length := by
  unfold FieldPath.firstHop? at found
  split at found
  · rename_i shape
    simp [FieldPath.length, shape]
  · cases found

mutual
theorem strip_weight_le (node : FilterNode) : node.strip.weight ≤ node.weight := by
  cases node with
  | leaf l =>
    simp only [strip, weight, Leaf.strip, length_tail]
    omega
  | combine op children =>
    have lighter := stripAll_weight_le children
    simp only [strip, weight]
    omega

theorem stripAll_weight_le (nodes : List FilterNode) : listWeight (stripAll nodes) ≤ listWeight nodes := by
  cases nodes with
  | nil => simp [stripAll]
  | cons n rest =>
    have first := strip_weight_le n
    have later := stripAll_weight_le rest
    simp only [stripAll, listWeight]
    omega
end

mutual
theorem strip_weight_lt (node : FilterNode) (l : Leaf) (member : l ∈ node.leaves)
    (nested : l.field.firstHop? = some head) : node.strip.weight + 3 ≤ node.weight := by
  cases node with
  | leaf own =>
    simp only [leaves, List.mem_singleton] at member
    subst member
    have long := length_of_firstHop nested
    simp only [strip, weight, Leaf.strip, length_tail]
    omega
  | combine op children =>
    simp only [leaves] at member
    have lighter := stripAll_weight_lt children l member nested
    simp only [strip, weight]
    omega

theorem stripAll_weight_lt (nodes : List FilterNode) (l : Leaf) (member : l ∈ listLeaves nodes)
    (nested : l.field.firstHop? = some head) : listWeight (stripAll nodes) + 3 ≤ listWeight nodes := by
  cases nodes with
  | nil => simp [listLeaves] at member
  | cons n rest =>
    simp only [listLeaves, List.mem_append] at member
    simp only [stripAll, listWeight]
    rcases member with inFirst | inRest
    · have first := strip_weight_lt n l inFirst nested
      have later := stripAll_weight_le rest
      omega
    · have first := strip_weight_le n
      have later := stripAll_weight_lt rest l inRest nested
      omega
end

-- A shared head is the head of some leaf.
theorem leaf_of_sharedHead {node : FilterNode} (shared : node.sharedHead? = some head) :
    ∃ l ∈ node.leaves, l.field.firstHop? = some head := by
  unfold sharedHead? at shared
  split at shared
  · cases shared
  · split at shared
    · cases shared
    · rename_i first rest found
      split at shared
      · cases shared
      · rename_i start starts
        split at shared
        · cases Option.some.inj shared
          exact ⟨first, by simp [found], starts⟩
        · cases shared

end FilterNode
end FilterQuery
