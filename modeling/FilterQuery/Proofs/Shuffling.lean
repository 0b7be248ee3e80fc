import Mathlib.Data.List.Dedup
import FilterQuery.Proofs.Rearrangement
import FilterQuery.Proofs.Siblings

namespace FilterQuery

section Paired

variable {R : α → β → Prop} {xs xs' : List α} {ys ys' : List β}

theorem paired_perm (left : xs.Perm xs') (right : ys.Perm ys') (paired : Paired R xs ys) : Paired R xs' ys' := by
  rw [Paired, ← Multiset.coe_eq_coe.mpr left, ← Multiset.coe_eq_coe.mpr right]
  exact paired

theorem paired_same {f : γ → α} {g : γ → β} {zs : List γ} (each : ∀ z ∈ zs, R (f z) (g z)) :
    Paired R (zs.map f) (zs.map g) :=
  paired_map.mpr (Multiset.rel_refl_of_refl_on each)

theorem filter_eq_flatMap (keep : α → Bool) (xs : List α) :
    xs.filter keep = xs.flatMap fun x => if keep x then [x] else [] := by
  induction xs with
  | nil => rfl
  | cons x rest ih =>
    rw [List.filter_cons, List.flatMap_cons, ih]
    split <;> rfl

theorem paired_filter {keep : α → Bool} {keep' : β → Bool} (alike : ∀ x y, R x y → keep x = keep' y)
    (paired : Paired R xs ys) : Paired R (xs.filter keep) (ys.filter keep') := by
  rw [filter_eq_flatMap, filter_eq_flatMap]
  refine paired_flatMap (paired.mono ?_)
  intro x _ y _ same
  rw [alike x y same]
  split
  · exact paired_lone same
  · exact .zero

theorem forall_of_paired {good : α → Prop} {good' : β → Prop} (alike : ∀ x y, R x y → (good x ↔ good' y))
    (paired : Paired R xs ys) : (∀ x ∈ xs, good x) ↔ ∀ y ∈ ys, good' y := by
  have there : ∀ y ∈ ys, ∃ x ∈ xs, R x y := by
    intro y member
    obtain ⟨x, among, same⟩ :=
      Multiset.exists_mem_of_rel_of_mem (Multiset.rel_flip.mpr paired) (Multiset.mem_coe.mpr member)
    exact ⟨x, Multiset.mem_coe.mp among, same⟩
  have back : ∀ x ∈ xs, ∃ y ∈ ys, R x y := by
    intro x member
    obtain ⟨y, among, same⟩ := Multiset.exists_mem_of_rel_of_mem paired (Multiset.mem_coe.mpr member)
    exact ⟨y, Multiset.mem_coe.mp among, same⟩
  constructor
  · intro each y member
    obtain ⟨x, among, same⟩ := there y member
    exact (alike x y same).mp (each x among)
  · intro each x member
    obtain ⟨y, among, same⟩ := back x member
    exact (alike x y same).mpr (each y among)

end Paired

namespace FilterNode

-- The same tree, with the children of each node in another order.
inductive Shuffled : FilterNode → FilterNode → Prop
  | leaf (l : Leaf) : Shuffled (.leaf l) (.leaf l)
  | combine (op : Combinator) {children others : List FilterNode} (paired : Multiset.Rel Shuffled children others) :
    Shuffled (.combine op children) (.combine op others)

theorem shuffled_refl (n : FilterNode) : n.Shuffled n := by
  cases n with
  | leaf l => exact .leaf l
  | combine op children =>
    refine .combine op (Multiset.rel_refl_of_refl_on ?_)
    intro child member
    exact shuffled_refl child
termination_by sizeOf n
decreasing_by
  have smaller := List.sizeOf_lt_of_mem (Multiset.mem_coe.mp member)
  simp only [combine.sizeOf_spec]
  omega

-- By induction, with the children compared wherever they stand.
theorem Shuffled.along {motive : (n m : FilterNode) → n.Shuffled m → Prop} (leaf : ∀ l, motive _ _ (.leaf l))
    (combine : ∀ (op : Combinator) {children others : List FilterNode} (paired : Paired Shuffled children others),
      Paired (fun child other => ∃ below : child.Shuffled other, motive child other below) children others →
        motive _ _ (.combine op paired))
    {n m : FilterNode} (shuffled : n.Shuffled m) : motive n m shuffled := by
  cases shuffled with
  | leaf l => exact leaf l
  | combine op paired =>
    refine combine op paired (paired.mono ?_)
    intro child member other _ below
    exact ⟨below, Shuffled.along leaf combine below⟩
termination_by sizeOf n
decreasing_by
  have smaller := List.sizeOf_lt_of_mem (Multiset.mem_coe.mp member)
  simp only [FilterNode.combine.sizeOf_spec]
  omega

variable {n m : FilterNode} {nodes others : List FilterNode}

theorem listLeaves_eq_flatMap (nodes : List FilterNode) : listLeaves nodes = nodes.flatMap leaves := by
  induction nodes with
  | nil => rfl
  | cons n rest ih => rw [listLeaves, ih, List.flatMap_cons]

theorem leaves_shuffled (shuffled : n.Shuffled m) : n.leaves.Perm m.leaves := by
  induction shuffled using Shuffled.along with
  | leaf l => exact .refl _
  | combine op paired below =>
    rw [leaves, leaves, listLeaves_eq_flatMap, listLeaves_eq_flatMap, ← Multiset.coe_eq_coe, ← Multiset.rel_eq]
    refine paired_flatMap (below.mono ?_)
    rintro child _ other _ ⟨_, same⟩
    exact Multiset.rel_eq.mpr (Multiset.coe_eq_coe.mpr same)

theorem isNegation_shuffled (shuffled : n.Shuffled m) : n.isNegation = m.isNegation := by
  cases shuffled with
  | leaf l => rfl
  | combine op paired => cases op <;> rfl

theorem sharedHead_shuffled (shuffled : n.Shuffled m) : n.sharedHead? = m.sharedHead? := by
  have leaves := leaves_shuffled shuffled
  refine Option.ext fun head => ?_
  simp only [sharedHead_exact, isNegation_shuffled shuffled, leaves.mem_iff, ne_eq, ← List.length_eq_zero_iff,
    leaves.length_eq]

theorem strip_shuffled (shuffled : n.Shuffled m) : n.strip.Shuffled m.strip := by
  induction shuffled using Shuffled.along with
  | leaf l => exact .leaf l.strip
  | combine op paired below =>
    rw [strip, strip, stripAll_eq_map, stripAll_eq_map]
    refine .combine op (paired_map.mpr (below.mono ?_))
    rintro child _ other _ ⟨_, stripped⟩
    exact stripped

theorem validate_shuffled (shuffled : n.Shuffled m) : n.validate = .ok () ↔ m.validate = .ok () := by
  induction shuffled using Shuffled.along with
  | leaf l => exact .rfl
  | @combine op children others paired below =>
    have all : validateAll children = .ok () ↔ validateAll others = .ok () := by
      rw [validateAll_exact, validateAll_exact]
      exact forall_of_paired (fun _ _ same => same) (below.mono fun _ _ _ _ ⟨_, same⟩ => same)
    cases op with
    | and => exact all
    | or => exact all
    | not =>
      rw [validate, validate, length_of_paired paired]
      split
      · exact all
      · exact .rfl

-- The associations that groups are made for.
def heads (nodes : List FilterNode) : List String := (nodes.filterMap sharedHead?).dedup

theorem mem_heads : head ∈ heads nodes ↔ ∃ n ∈ nodes, n.sharedHead? = some head := by
  rw [heads, List.mem_dedup, List.mem_filterMap]

theorem heads_perm (alike : ∀ head, head ∈ heads nodes ↔ head ∈ heads others) : (heads nodes).Perm (heads others) :=
  (List.perm_ext_iff_of_nodup (List.nodup_dedup _) (List.nodup_dedup _)).mpr alike

theorem alone_shuffled (paired : Paired Shuffled nodes others) :
    Paired Shuffled (nodes.filter (·.sharedHead?.isNone)) (others.filter (·.sharedHead?.isNone)) := by
  refine paired_filter ?_ paired
  intro n m shuffled
  rw [sharedHead_shuffled shuffled]

theorem startsAt_shuffled (head : String) (paired : Paired Shuffled nodes others) :
    Paired Shuffled (nodes.filter (·.startsAt head)) (others.filter (·.startsAt head)) := by
  refine paired_filter ?_ paired
  intro n m shuffled
  rw [startsAt, startsAt, sharedHead_shuffled shuffled]

theorem heads_shuffled (paired : Paired Shuffled nodes others) : (heads nodes).Perm (heads others) := by
  apply heads_perm
  intro head
  rw [mem_heads, mem_heads, ← not_iff_not]
  simp only [not_exists, not_and]
  refine forall_of_paired ?_ paired
  intro n m shuffled
  rw [sharedHead_shuffled shuffled]

theorem heads_left (head : String) (nodes : List FilterNode) : head ∉ heads (nodes.filter (!·.startsAt head)) := by
  rw [mem_heads]
  rintro ⟨m, member, starts⟩
  simpa [startsAt, starts] using (List.mem_filter.mp member).2

theorem heads_cons_shared (shared : n.sharedHead? = some head) (rest : List FilterNode) :
    (heads (n :: rest)).Perm (head :: heads (rest.filter (!·.startsAt head))) := by
  have single := List.nodup_cons.mpr ⟨heads_left head rest, List.nodup_dedup _⟩
  refine (List.perm_ext_iff_of_nodup (List.nodup_dedup _) single).mpr ?_
  intro other
  change other ∈ heads (n :: rest) ↔ other ∈ head :: heads _
  rw [List.mem_cons, mem_heads, mem_heads]
  constructor
  · rintro ⟨m, member, starts⟩
    by_cases same : other = head
    · exact .inl same
    · rcases List.mem_cons.mp member with rfl | later
      · rw [shared] at starts
        exact .inl (Option.some.inj starts).symm
      · refine .inr ⟨m, List.mem_filter.mpr ⟨later, ?_⟩, starts⟩
        simp [startsAt, starts, same]
  · rintro (rfl | ⟨m, member, starts⟩)
    · exact ⟨n, List.mem_cons_self .., shared⟩
    · exact ⟨m, List.mem_cons_of_mem _ (List.mem_filter.mp member).1, starts⟩

-- Taking one group out leaves the others as they are, and what stands alone.
theorem startsAt_left (different : other ≠ head) (nodes : List FilterNode) :
    (nodes.filter (!·.startsAt head)).filter (·.startsAt other) = nodes.filter (·.startsAt other) := by
  rw [List.filter_filter]
  refine List.filter_congr ?_
  intro n _
  cases starts : n.startsAt other with
  | false => rfl
  | true =>
    have shared : n.sharedHead? = some other := of_decide_eq_true starts
    simp [startsAt, shared, different]

theorem startsAt_others (shared : n.sharedHead? = some head) (different : other ≠ head) (rest : List FilterNode) :
    (n :: rest).filter (·.startsAt other) = (rest.filter (!·.startsAt head)).filter (·.startsAt other) := by
  have apart : n.startsAt other = false := by simpa [startsAt, shared] using different.symm
  rw [List.filter_cons, apart, if_neg Bool.false_ne_true, startsAt_left different]

theorem isNone_left (head : String) (nodes : List FilterNode) :
    (nodes.filter (!·.startsAt head)).filter (·.sharedHead?.isNone) = nodes.filter (·.sharedHead?.isNone) := by
  rw [List.filter_filter]
  refine List.filter_congr ?_
  intro n _
  cases shared : n.sharedHead? <;> simp [startsAt, shared]

end FilterNode

namespace Route

-- All that starts at the association, walked together.
def group (reorder : Bool) (op : Connective) (nodes : List FilterNode) (head : String) : Route :=
  through head (ofNodes reorder op (FilterNode.stripAll (nodes.filter (·.startsAt head))))

-- What stands alone, and one group for each association.
theorem ofSiblings_perm (reorder : Bool) (op : Connective) (nodes : List FilterNode) :
    (ofSiblings reorder op (Sibling.ofNodes nodes)).Perm
      ((nodes.filter (·.sharedHead?.isNone)).map (ofNode reorder) ++
        (FilterNode.heads nodes).map (group reorder op nodes)) := by
  cases nodes with
  | nil =>
    rw [ofSiblings_nil]
    exact .refl _
  | cons n rest =>
    cases shared : n.sharedHead? with
    | none =>
      have later := ofSiblings_perm reorder op rest
      have apart : ∀ head, n.startsAt head = false := by simp [FilterNode.startsAt, shared]
      have heads : FilterNode.heads (n :: rest) = FilterNode.heads rest := by
        rw [FilterNode.heads, FilterNode.heads, List.filterMap_cons_none shared]
      have groups : group reorder op (n :: rest) = group reorder op rest := by
        funext head
        rw [group, group, List.filter_cons, apart, if_neg Bool.false_ne_true]
      have alone : (n :: rest).filter (·.sharedHead?.isNone) = n :: rest.filter (·.sharedHead?.isNone) := by
        simp [shared]
      rw [ofSiblings_cons_alone reorder op shared, heads, groups, alone]
      exact later.cons _
    | some head =>
      have later := ofSiblings_perm reorder op (rest.filter (!·.startsAt head))
      have starts : n.startsAt head = true := decide_eq_true shared
      have here : (n :: rest).filter (·.startsAt head) = n :: rest.filter (·.startsAt head) := by
        rw [List.filter_cons, starts, if_pos rfl]
      have others : (FilterNode.heads (rest.filter (!·.startsAt head))).map (group reorder op (n :: rest)) =
          (FilterNode.heads (rest.filter (!·.startsAt head))).map (group reorder op (rest.filter (!·.startsAt head))) := by
        refine List.map_congr_left ?_
        intro other member
        have different : other ≠ head := by
          rintro rfl
          exact FilterNode.heads_left other rest member
        rw [group, group, FilterNode.startsAt_others shared different]
      have alone : (n :: rest).filter (·.sharedHead?.isNone) = rest.filter (·.sharedHead?.isNone) := by
        simp [shared]
      rw [FilterNode.isNone_left, ← others] at later
      rw [ofSiblings_cons_shared reorder op shared, alone, ← here]
      refine .trans ?_ (((FilterNode.heads_cons_shared shared rest).map _).symm.append_left _)
      exact (later.cons _).trans List.perm_middle.symm
termination_by nodes.length
decreasing_by
  · simp
  · have fewer := List.length_filter_le (fun m => !m.startsAt head) rest
    simp only [List.length_cons]
    omega

-- Equal up to the order of what is walked side by side.
inductive Rearranged : Route → Route → Prop
  | test (l : Leaf) : Rearranged (.test l) (.test l)
  | negate {inner other : Route} (moved : Rearranged inner other) : Rearranged (.negate inner) (.negate other)
  | join (op : Connective) {parts others : List Route} (paired : Multiset.Rel Rearranged parts others) :
    Rearranged (.join op parts) (.join op others)
  | through (head : String) {inner other : Route} (moved : Rearranged inner other) :
    Rearranged (.through head inner) (.through head other)

theorem Rearranged.along {motive : (route other : Route) → route.Rearranged other → Prop}
    (test : ∀ l, motive _ _ (.test l))
    (negate : ∀ {inner other : Route} (moved : inner.Rearranged other), motive _ _ moved → motive _ _ (.negate moved))
    (join : ∀ (op : Connective) {parts others : List Route} (paired : Paired Rearranged parts others),
      Paired (fun part other => ∃ moved : part.Rearranged other, motive part other moved) parts others →
        motive _ _ (.join op paired))
    (through : ∀ (head : String) {inner other : Route} (moved : inner.Rearranged other), motive _ _ moved →
      motive _ _ (.through head moved))
    {route other : Route} (moved : route.Rearranged other) : motive route other moved := by
  cases moved with
  | test l => exact test l
  | negate moved => exact negate moved (Rearranged.along test negate join through moved)
  | join op paired =>
    refine join op paired (paired.mono ?_)
    intro part member other _ moved
    exact ⟨moved, Rearranged.along test negate join through moved⟩
  | through head moved => exact through head moved (Rearranged.along test negate join through moved)
termination_by sizeOf route
decreasing_by
  · simp only [Route.negate.sizeOf_spec]
    omega
  · have smaller := List.sizeOf_lt_of_mem (Multiset.mem_coe.mp member)
    simp only [Route.join.sizeOf_spec]
    omega
  · simp only [Route.through.sizeOf_spec]
    omega

open FilterNode in
mutual
-- By the weight, since a group is reordered again once its association is taken off.
theorem ofNode_rearranged (reorder reorder' : Bool) (n : FilterNode) {m : FilterNode} (sound : n.NegatesOne)
    (shuffled : n.Shuffled m) : (ofNode reorder n).Rearranged (ofNode reorder' m) := by
  cases shuffled with
  | leaf l =>
    cases nested : l.field.firstHop? with
    | none =>
      rw [ofNode_flat reorder nested, ofNode_flat reorder' nested]
      exact .test l
    | some head =>
      have alone : AllNegateOne [.leaf l.strip] := ⟨trivial, trivial⟩
      rw [ofNode_nested reorder nested, ofNode_nested reorder' nested]
      exact .through head (ofNodes_rearranged reorder reorder' .and [.leaf l.strip] alone (paired_lone (.leaf l.strip)))
  | @combine op children others paired =>
    obtain ⟨one, below⟩ := sound
    have length := length_of_paired paired
    rcases negation_or_plain op children with ⟨child, rest, rfl, rfl⟩ | plain
    · have single : rest = [] := by simpa using one rfl
      subst single
      obtain ⟨other, rfl⟩ := List.length_eq_one_iff.mp length.symm
      rw [ofNode, ofNode]
      exact .negate (ofNode_rearranged reorder reorder' child below.1 (lone_of_paired paired))
    · have plain' : ∀ child rest, op = .not → others = child :: rest → False := by
        rintro child rest negation rfl
        cases children with
        | nil => cases length
        | cons first later => exact plain first later negation rfl
      rw [ofNode_connective reorder plain, ofNode_connective reorder' plain']
      exact ofNodes_rearranged reorder reorder' (.ofCombinator op) children below paired
termination_by n.weight
decreasing_by
  all_goals subst_vars
  · have long := length_of_firstHop nested
    simp only [listWeight, weight, Leaf.strip, length_tail]
    omega
  · simp only [weight, listWeight]
    omega
  · simp only [weight]
    omega

theorem ofNodes_rearranged (reorder reorder' : Bool) (op : Connective) (nodes : List FilterNode)
    {others : List FilterNode} (sound : AllNegateOne nodes) (paired : Paired Shuffled nodes others) :
    (ofNodes reorder op nodes).Rearranged (ofNodes reorder' op others) := by
  have arranged := arrange_perm reorder nodes
  have arranged' := arrange_perm reorder' others
  have moved : Paired Shuffled (arrange reorder nodes) (arrange reorder' others) :=
    paired_perm arranged.symm arranged'.symm paired
  have sound' := allNegateOne_exact.mp sound
  have alone : Paired Rearranged
      (((arrange reorder nodes).filter (·.sharedHead?.isNone)).map (ofNode reorder))
      (((arrange reorder' others).filter (·.sharedHead?.isNone)).map (ofNode reorder')) := by
    refine paired_map.mpr ((alone_shuffled moved).mono ?_)
    intro n member m _ shuffled
    have among := arranged.mem_iff.mp (List.mem_filter.mp (Multiset.mem_coe.mp member)).1
    exact ofNode_rearranged reorder reorder' n (sound' n among) shuffled
  have groups : Paired Rearranged
      ((heads (arrange reorder nodes)).map (group reorder op (arrange reorder nodes)))
      ((heads (arrange reorder' others)).map (group reorder' op (arrange reorder' others))) := by
    refine paired_perm (.refl _) ((heads_shuffled moved).map _) (paired_same ?_)
    intro head member
    have among : AllNegateOne ((arrange reorder nodes).filter (·.startsAt head)) := by
      refine allNegateOne_exact.mpr ?_
      intro n grouped
      exact sound' n (arranged.mem_iff.mp (List.mem_filter.mp grouped).1)
    have stripped : Paired Shuffled (stripAll ((arrange reorder nodes).filter (·.startsAt head)))
        (stripAll ((arrange reorder' others).filter (·.startsAt head))) := by
      rw [stripAll_eq_map, stripAll_eq_map]
      exact paired_map.mpr ((startsAt_shuffled head moved).mono fun _ _ _ _ shuffled => strip_shuffled shuffled)
    exact .through head (ofNodes_rearranged reorder reorder' op _ (allNegateOne_stripAll among) stripped)
  rw [ofNodes, ofNodes]
  exact .join op (paired_perm (ofSiblings_perm reorder op _).symm (ofSiblings_perm reorder' op _).symm
    (paired_append alone groups))
termination_by listWeight nodes + 1
decreasing_by
  · have lighter := weight_child among
    omega
  · obtain ⟨n, among, shared⟩ := mem_heads.mp member
    have lighter := group_weight among shared
    rw [arrange_weight] at lighter
    omega
end

end Route
end FilterQuery
