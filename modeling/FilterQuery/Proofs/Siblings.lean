import FilterQuery.Proofs.Layout

namespace FilterQuery

theorem split_unique {stop : α → Bool} {left right left' right' : List α} (same : left ++ right = left' ++ right')
    (before : ∀ b ∈ left, (!stop b) = true) (before' : ∀ b ∈ left', (!stop b) = true)
    (after : ∀ b ∈ right, stop b = true) (after' : ∀ b ∈ right', stop b = true) : left = left' ∧ right = right' := by
  have stopped : ∀ {tail : List α}, (∀ b ∈ tail, stop b = true) → tail.takeWhile (!stop ·) = [] := by
    intro tail all
    cases tail with
    | nil => rfl
    | cons b rest => simp [all b (List.mem_cons_self ..)]
  have head : left = left' := by
    have first : (left ++ right).takeWhile (!stop ·) = left ++ right.takeWhile (!stop ·) :=
      List.takeWhile_append_of_pos before
    rwa [same, List.takeWhile_append_of_pos before', stopped after, stopped after', List.append_nil, List.append_nil,
      eq_comm] at first
  subst head
  exact ⟨rfl, List.append_cancel_left same⟩

-- A stable sort keeps the order of what a filter keeps.
theorem filter_mergeSort {le : α → α → Bool} (trans : ∀ a b c, le a b → le b c → le a c)
    (total : ∀ a b, le a b || le b a) (keep : α → Bool) (l : List α) :
    (l.mergeSort le).filter keep = (l.filter keep).mergeSort le := by
  induction l with
  | nil => simp
  | cons a rest ih =>
    obtain ⟨left, right, sorted, others, before⟩ := List.mergeSort_cons trans total a rest
    rw [others, List.filter_append] at ih
    rw [sorted, List.filter_append, List.filter_cons, List.filter_cons]
    cases kept : keep a with
    | false => simpa using ih
    | true =>
      obtain ⟨left', right', sorted', others', before'⟩ := List.mergeSort_cons trans total a (rest.filter keep)
      have after : ∀ b ∈ right, le a b := by
        have ordered := List.pairwise_mergeSort trans total (a :: rest)
        rw [sorted] at ordered
        exact (List.pairwise_cons.mp (List.pairwise_append.mp ordered).2.1).1
      have after' : ∀ b ∈ right', le a b := by
        have ordered := List.pairwise_mergeSort trans total (a :: rest.filter keep)
        rw [sorted'] at ordered
        exact (List.pairwise_cons.mp (List.pairwise_append.mp ordered).2.1).1
      obtain ⟨first, later⟩ := split_unique (ih.trans others') (fun b member => before b (List.mem_filter.mp member).1)
        before' (fun b member => after b (List.mem_filter.mp member).1) after'
      simp only [if_true, sorted', first, later]

namespace FilterNode

def leafy (n : FilterNode) : Bool := !n.leaves.isEmpty

-- What no sibling is walked with, where all leaves start at one association.
def standsAlone (n : FilterNode) : Bool := n.isNegation || !n.leafy

theorem leafy_strip (n : FilterNode) : n.strip.leafy = n.leafy := by
  simp [leafy, leaves_strip]

theorem isNegation_strip (n : FilterNode) : n.strip.isNegation = n.isNegation := by
  cases n with
  | leaf l => rfl
  | combine op children => cases op <;> rfl

theorem standsAlone_strip (n : FilterNode) : n.strip.standsAlone = n.standsAlone := by
  rw [standsAlone, standsAlone, isNegation_strip, leafy_strip]

theorem stripAll_eq_map (nodes : List FilterNode) : stripAll nodes = nodes.map strip := by
  induction nodes with
  | nil => rfl
  | cons n rest ih => rw [stripAll, ih, List.map_cons]

theorem stripAll_ne_nil {nodes : List FilterNode} (occupied : nodes ≠ []) : stripAll nodes ≠ [] := by
  rw [stripAll_eq_map]
  simpa using occupied

theorem weight_child {children : List FilterNode} (member : child ∈ children) :
    child.weight + 1 ≤ listWeight children := by
  induction children with
  | nil => cases member
  | cons n rest ih =>
    rw [listWeight]
    rcases List.mem_cons.mp member with rfl | later
    · omega
    · have below := ih later
      omega

theorem leaves_of_child (member : child ∈ children) (leaf : l ∈ leaves child) :
    l ∈ (combine op children).leaves := by
  rw [leaves]
  exact mem_listLeaves.mpr ⟨child, member, leaf⟩

theorem sharedHead_of_alone {n : FilterNode} (alone : n.standsAlone = true) : n.sharedHead? = none := by
  cases shared : n.sharedHead? with
  | none => rfl
  | some head =>
    obtain ⟨plain, occupied, _⟩ := sharedHead_exact.mp shared
    simp [standsAlone, plain, leafy, occupied] at alone

theorem sharedHead_of_empty (n : FilterNode) (empty : n.isEmpty = true) : n.sharedHead? = none :=
  sharedHead_of_alone (by simp [standsAlone, leafy, n.leaves_of_empty empty])

theorem sharedHead_of_start {n : FilterNode} (start : ∀ l ∈ n.leaves, l.field.firstHop? = some head)
    (shares : n.standsAlone = false) : n.sharedHead? = some head := by
  simp only [standsAlone, leafy, Bool.or_eq_false_iff, Bool.not_eq_false', Bool.not_eq_true',
    List.isEmpty_eq_false_iff] at shares
  exact sharedHead_exact.mpr ⟨shares.1, shares.2, start⟩

theorem filter_arrange (reorder : Bool) (keep : FilterNode → Bool) (ns : List FilterNode) :
    (arrange reorder ns).filter keep = arrange reorder (ns.filter keep) := by
  unfold arrange
  split
  · refine filter_mergeSort ?_ ?_ keep ns
    · intro a b c
      simp only [decide_eq_true_eq]
      exact Nat.le_trans
    · intro a b
      simpa using Nat.le_total a.rank b.rank
  · rfl

mutual
theorem rank_of_leaves (n : FilterNode) : n.rank = (n.leaves.map Leaf.rank).foldr max 0 := by
  cases n with
  | leaf l => simp [rank, leaves]
  | combine op children => exact listRank_of_leaves children

theorem listRank_of_leaves (nodes : List FilterNode) : listRank nodes = ((listLeaves nodes).map Leaf.rank).foldr max 0 := by
  have highest : ∀ (ranks : List Nat) (least : Nat), ranks.foldr max least = max (ranks.foldr max 0) least := by
    intro ranks least
    induction ranks with
    | nil => simp
    | cons r rest ih => rw [List.foldr_cons, List.foldr_cons, ih, Nat.max_assoc]
  cases nodes with
  | nil => rfl
  | cons n rest =>
    rw [listRank, listLeaves, List.map_append, List.foldr_append, highest, rank_of_leaves n, listRank_of_leaves rest]
end

theorem rank_of_sharedHead {n : FilterNode} (shared : n.sharedHead? = some head) : n.rank = 4 := by
  obtain ⟨_, nonempty, nested⟩ := sharedHead_exact.mp shared
  have each : ∀ l ∈ n.leaves, l.rank = 4 := by
    intro l member
    obtain ⟨next, rest, shape⟩ := FieldPath.firstHop_exact.mp (nested l member)
    simp [Leaf.rank, FieldPath.isNested, shape]
  have highest : ∀ leaves : List Leaf, leaves ≠ [] → (∀ l ∈ leaves, l.rank = 4) →
      (leaves.map Leaf.rank).foldr max 0 = 4 := by
    intro leaves occupied all
    induction leaves with
    | nil => cases occupied rfl
    | cons l rest ih =>
      rw [List.map_cons, List.foldr_cons, all l (List.mem_cons_self ..)]
      cases rest with
      | nil => rfl
      | cons next later => rw [ih (by simp) fun m member => all m (List.mem_cons_of_mem _ member), Nat.max_self]
  rw [rank_of_leaves, highest n.leaves nonempty each]

def startsAt (head : String) (n : FilterNode) : Bool := n.sharedHead? = some head

theorem listWeight_filter (keep : FilterNode → Bool) (nodes : List FilterNode) :
    listWeight (nodes.filter keep) ≤ listWeight nodes := by
  induction nodes with
  | nil => exact Nat.le_refl 0
  | cons n rest ih =>
    rw [List.filter_cons]
    split
    · simp only [listWeight]
      omega
    · simp only [listWeight]
      omega

-- Walking down with a group leaves less to lay out.
theorem group_weight {nodes : List FilterNode} (among : n ∈ nodes) (shared : n.sharedHead? = some head) :
    listWeight (stripAll (nodes.filter (·.startsAt head))) + 3 ≤ listWeight nodes := by
  obtain ⟨l, leaf, nested⟩ := leaf_of_sharedHead shared
  have grouped : n ∈ nodes.filter (·.startsAt head) := List.mem_filter.mpr ⟨among, decide_eq_true shared⟩
  have lighter := stripAll_weight_lt _ l (mem_listLeaves.mpr ⟨n, grouped, leaf⟩) nested
  have fewer := listWeight_filter (·.startsAt head) nodes
  omega

-- Whatever crosses an association is equally dear, so a group keeps its order.
theorem arrange_shared (reorder : Bool) {nodes : List FilterNode}
    (shared : ∀ n ∈ nodes, n.sharedHead? = some head) : arrange reorder nodes = nodes := by
  unfold arrange
  split
  · refine List.mergeSort_of_pairwise (List.pairwise_of_forall_mem_list ?_)
    intro a first b second
    simp [rank_of_sharedHead (shared a first), rank_of_sharedHead (shared b second)]
  · rfl

end FilterNode

namespace Sibling

theorem add_alone (placed : List Sibling) (unshared : n.sharedHead? = none) : add placed n = placed ++ [alone n] := by
  unfold add
  split
  · rfl
  · rename_i head found
    rw [unshared] at found
    cases found

theorem add_shared (placed : List Sibling) (shared : n.sharedHead? = some head) :
    add placed n = place n head shared placed := by
  unfold add
  split
  · rename_i unshared
    rw [shared] at unshared
    cases unshared
  · rename_i other found
    rw [shared] at found
    cases Option.some.inj found
    rfl

def keeps (keep : FilterNode → Bool) : Sibling → Bool
  | alone n => keep n
  | together _ _ => true

theorem filter_place (keep : FilterNode → Bool) (shared : n.sharedHead? = some head) (placed : List Sibling) :
    (place n head shared placed).filter (keeps keep) = place n head shared (placed.filter (keeps keep)) := by
  induction placed with
  | nil => rfl
  | cons s rest ih =>
    cases s with
    | alone m =>
      cases kept : keep m <;> simp [place, keeps, kept, ih]
    | together other group =>
      by_cases same : other = head <;> simp [place, List.filter_cons, keeps, same, ih]

-- Whatever stands alone may be left out, before or after the siblings are laid out.
theorem filter_foldl (keep : FilterNode → Bool) {ns : List FilterNode}
    (apart : ∀ n ∈ ns, keep n = false → n.standsAlone = true) (placed : List Sibling) :
    (ns.foldl add placed).filter (keeps keep) = (ns.filter keep).foldl add (placed.filter (keeps keep)) := by
  induction ns generalizing placed with
  | nil => rfl
  | cons n rest ih =>
    obtain ⟨here, later⟩ := List.forall_mem_cons.mp apart
    rw [List.foldl_cons, ih later, List.filter_cons]
    cases kept : keep n with
    | false =>
      rw [add_alone placed (FilterNode.sharedHead_of_alone (here kept)), List.filter_append]
      simp [keeps, kept]
    | true =>
      rw [if_pos rfl, List.foldl_cons]
      cases shared : n.sharedHead? with
      | none =>
        rw [add_alone placed shared, add_alone _ shared, List.filter_append]
        simp [keeps, kept]
      | some head => rw [add_shared placed shared, add_shared _ shared, filter_place]

-- What comes after a sibling that stands alone is placed behind it.
theorem foldl_alone (nodes : List FilterNode) (n : FilterNode) (placed : List Sibling) :
    nodes.foldl add (alone n :: placed) = alone n :: nodes.foldl add placed := by
  induction nodes generalizing placed with
  | nil => rfl
  | cons m rest ih =>
    have behind : add (alone n :: placed) m = alone n :: add placed m := by
      cases shared : m.sharedHead? with
      | none => rw [add_alone _ shared, add_alone _ shared, List.cons_append]
      | some head => rw [add_shared _ shared, add_shared _ shared, place]
    rw [List.foldl_cons, List.foldl_cons, behind, ih]

-- A group takes what starts at its association and leaves the rest to be placed behind it.
theorem foldl_together (nodes : List FilterNode) (group : Companions head) (placed : List Sibling) :
    ∃ grown : Companions head, grown.nodes = group.nodes ++ nodes.filter (·.startsAt head) ∧
      nodes.foldl add (together head group :: placed) =
        together head grown :: (nodes.filter (!·.startsAt head)).foldl add placed := by
  induction nodes generalizing group placed with
  | nil => exact ⟨group, by simp, rfl⟩
  | cons m rest ih =>
    by_cases starts : m.sharedHead? = some head
    · obtain ⟨grown, all, folded⟩ := ih (group.push m starts) placed
      refine ⟨grown, ?_, ?_⟩
      · simp [all, Companions.push, FilterNode.startsAt, starts]
      · rw [List.foldl_cons, add_shared _ starts, place, dif_pos rfl, folded]
        simp [FilterNode.startsAt, starts]
    · obtain ⟨grown, all, folded⟩ := ih group (add placed m)
      have behind : add (together head group :: placed) m = together head group :: add placed m := by
        cases shared : m.sharedHead? with
        | none => rw [add_alone _ shared, add_alone _ shared, List.cons_append]
        | some other =>
          have different : head ≠ other := by
            rintro rfl
            exact starts shared
          rw [add_shared _ shared, add_shared _ shared, place, dif_neg different]
      refine ⟨grown, ?_, ?_⟩
      · simp [all, FilterNode.startsAt, starts]
      · rw [List.foldl_cons, behind, folded]
        simp [FilterNode.startsAt, starts]

theorem ofNodes_cons_alone (unshared : n.sharedHead? = none) (rest : List FilterNode) :
    ofNodes (n :: rest) = alone n :: ofNodes rest := by
  rw [ofNodes, List.foldl_cons, add_alone _ unshared, List.nil_append, foldl_alone, ofNodes]

theorem ofNodes_cons_shared (shared : n.sharedHead? = some head) (rest : List FilterNode) :
    ∃ group : Companions head, group.nodes = n :: rest.filter (·.startsAt head) ∧
      ofNodes (n :: rest) = together head group :: ofNodes (rest.filter (!·.startsAt head)) := by
  obtain ⟨grown, all, folded⟩ := foldl_together rest (.single n shared) []
  refine ⟨grown, all, ?_⟩
  rw [ofNodes, List.foldl_cons, add_shared _ shared, place, folded, ofNodes]

end Sibling

namespace Route

theorem arranged_ne_nil (reorder : Bool) (op : Connective) {children : List FilterNode} (occupied : children ≠ []) :
    ofSiblings reorder op (Sibling.ofNodes (FilterNode.arrange reorder children)) ≠ [] := by
  refine ofSiblings_ne_nil reorder op ?_
  intro empty
  have moved := Sibling.nodes_arranged reorder children
  rw [empty] at moved
  exact occupied moved.nil_eq.symm

-- The layout told by the first sibling, which is alone or takes its companions from the rest.
theorem ofSiblings_cons_alone (reorder : Bool) (op : Connective) (unshared : n.sharedHead? = none) (rest : List FilterNode) :
    ofSiblings reorder op (Sibling.ofNodes (n :: rest)) =
      ofNode reorder n :: ofSiblings reorder op (Sibling.ofNodes rest) := by
  rw [Sibling.ofNodes_cons_alone unshared, ofSiblings]

theorem ofSiblings_cons_shared (reorder : Bool) (op : Connective) (shared : n.sharedHead? = some head)
    (rest : List FilterNode) : ofSiblings reorder op (Sibling.ofNodes (n :: rest)) =
      through head (ofNodes reorder op (FilterNode.stripAll (n :: rest.filter (·.startsAt head)))) ::
        ofSiblings reorder op (Sibling.ofNodes (rest.filter (!·.startsAt head))) := by
  obtain ⟨group, all, grouped⟩ := Sibling.ofNodes_cons_shared shared rest
  rw [grouped, ofSiblings, all]

theorem ofSiblings_nil (reorder : Bool) (op : Connective) : ofSiblings reorder op (Sibling.ofNodes []) = [] := by
  rw [Sibling.ofNodes_nil, ofSiblings]

theorem ofNodes_shared (reorder : Bool) (op : Connective) {nodes : List FilterNode} (occupied : nodes ≠ [])
    (shared : ∀ n ∈ nodes, n.sharedHead? = some head) :
    ofNodes reorder op nodes = join op [through head (ofNodes reorder op (FilterNode.stripAll nodes))] := by
  cases nodes with
  | nil => exact absurd rfl occupied
  | cons n rest =>
    obtain ⟨here, later⟩ := List.forall_mem_cons.mp shared
    have all : rest.filter (·.startsAt head) = rest :=
      List.filter_eq_self.mpr fun m member => decide_eq_true (later m member)
    have left : rest.filter (!·.startsAt head) = [] :=
      List.filter_eq_nil_iff.mpr fun m member => by simp [FilterNode.startsAt, later m member]
    rw [ofNodes, FilterNode.arrange_shared reorder shared, ofSiblings_cons_shared reorder op here, all, left,
      ofSiblings_nil]

theorem ofNodes_alone (reorder : Bool) (op : Connective) (unshared : n.sharedHead? = none) :
    ofNodes reorder op [n] = join op [ofNode reorder n] := by
  have kept : FilterNode.arrange reorder [n] = [n] := List.perm_singleton.mp (FilterNode.arrange_perm reorder [n])
  rw [ofNodes, kept, ofSiblings_cons_alone reorder op unshared, ofSiblings_nil]

end Route
end FilterQuery
