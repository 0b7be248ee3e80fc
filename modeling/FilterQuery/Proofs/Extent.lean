import FilterQuery.Proofs.Siblings

namespace FilterQuery

-- How many scopes a filter comes to when all its leaves start at one association: one for all that is walked together,
-- and what a negation, or what has no leaves, comes to alone.
inductive Extent where
  | constant (b : Bool)
  -- One scope, or the negation of one.
  | one (positive : Bool)
  | several
  -- Something that has leaves is passed over.
  | lossy
  deriving DecidableEq, Repr

namespace Extent

def negate : Extent → Extent
  | constant b => constant (!b)
  | one positive => one (!positive)
  | e => e

def isConstant : Extent → Bool
  | constant _ => true
  | _ => false

-- As a member of the connective.
def within (op : Connective) (leafy : Bool) (e : Extent) : Extent :=
  if leafy = true ∧ e = constant op.neutral then lossy else e

def join (op : Connective) (members : List Extent) : Extent :=
  if constant (!op.neutral) ∈ members then constant (!op.neutral)
  else if lossy ∈ members then lossy
  else match members.filter (!·.isConstant) with
    | [] => constant (members.isEmpty || op.neutral)
    | [e] => e
    | _ => several

theorem negate_eq_one {e : Extent} (single : e.negate = one s) : e = one (!s) := by
  cases e with
  | one positive =>
    cases single
    rw [Bool.not_not]
  | _ => cases single

theorem within_constant {op : Connective} {leafy : Bool} {e : Extent} (flat : e.within op leafy = constant b) :
    e = constant b ∧ (leafy = true → b ≠ op.neutral) := by
  unfold within at flat
  split at flat
  · cases flat
  · rename_i kept
    subst flat
    refine ⟨rfl, ?_⟩
    intro leafy same
    exact kept ⟨leafy, by rw [same]⟩

theorem within_one {op : Connective} {leafy : Bool} {e : Extent} (single : e.within op leafy = one s) : e = one s := by
  unfold within at single
  split at single
  · cases single
  · exact single

theorem join_perm (op : Connective) {left right : List Extent} (moved : left.Perm right) :
    join op left = join op right := by
  have live : (left.filter (!·.isConstant)).Perm (right.filter (!·.isConstant)) := moved.filter _
  have empty : left.isEmpty = right.isEmpty := by
    rw [Bool.eq_iff_iff, List.isEmpty_iff_length_eq_zero, List.isEmpty_iff_length_eq_zero, moved.length_eq]
  unfold join
  simp only [moved.mem_iff, empty]
  generalize left.filter (!·.isConstant) = before at live
  generalize right.filter (!·.isConstant) = after at live
  match before, after, live with
  | [], after, live => rw [← live.nil_eq]
  | [e], after, live => rw [List.singleton_perm.mp live]
  | _ :: _ :: _, [], live => cases live.eq_nil
  | _ :: _ :: _, [e], live => cases List.perm_singleton.mp live
  | _ :: _ :: _, _ :: _ :: _, _ => rfl

theorem join_one {op : Connective} {members : List Extent} (single : join op members = one s) :
    members.filter (!·.isConstant) = [one s] ∧ ∀ b, constant b ∈ members → b = op.neutral := by
  unfold join at single
  split at single
  · cases single
  · rename_i undecided
    split at single
    · cases single
    · refine ⟨?_, ?_⟩
      · split at single
        · cases single
        · rename_i e lone
          rw [lone, single]
        · cases single
      · intro b member
        rcases op.neutral_or_deciding b with neutral | rfl
        · exact neutral
        · exact absurd member undecided

theorem join_holds (op : Connective) {members : List Extent} (each : ∀ e ∈ members, e = constant true) :
    join op members = constant true := by
  have settled : members.filter (!·.isConstant) = [] := by
    refine List.filter_eq_nil_iff.mpr ?_
    intro e member
    simp [each e member, isConstant]
  have sure : lossy ∉ members := fun member => by cases each _ member
  cases op with
  | and =>
    have undecided : constant (!Connective.and.neutral) ∉ members := fun member => by cases each _ member
    rw [join, if_neg undecided, if_neg sure, settled]
    simp [Connective.neutral]
  | or =>
    cases members with
    | nil => rfl
    | cons e rest =>
      have decided : constant (!Connective.or.neutral) ∈ e :: rest := by
        rw [each e (List.mem_cons_self ..)]
        exact List.mem_cons_self ..
      rw [join, if_pos decided]
      rfl

end Extent

namespace FilterNode

-- The children that are walked together.
def together (children : List FilterNode) : List Extent := if children.all standsAlone then [] else [.one true]

mutual
def extent : FilterNode → Extent
  | leaf _ => .one true
  | combine .not (child :: _) => child.extent.negate
  | combine op children => .join (.ofCombinator op) (together children ++ apart (.ofCombinator op) children)

-- The children that stand alone.
def apart (op : Connective) : List FilterNode → List Extent
  | [] => []
  | n :: rest => if n.standsAlone then n.extent.within op n.leafy :: apart op rest else apart op rest
end

theorem extent_connective {op : Combinator} {children : List FilterNode}
    (plain : ∀ child rest, op = .not → children = child :: rest → False) : (combine op children).extent =
      .join (.ofCombinator op) (together children ++ apart (.ofCombinator op) children) := by
  rw [extent]
  exact plain

theorem apart_eq (op : Connective) (children : List FilterNode) :
    apart op children = (children.filter standsAlone).map fun n => n.extent.within op n.leafy := by
  induction children with
  | nil => rfl
  | cons n rest ih =>
    rw [apart, ih, List.filter_cons]
    split <;> rfl

theorem together_perm {left right : List FilterNode} (moved : left.Perm right) : together left = together right := by
  unfold together
  rw [moved.all_eq]

theorem apart_perm (op : Connective) {left right : List FilterNode} (moved : left.Perm right) :
    (apart op left).Perm (apart op right) := by
  rw [apart_eq, apart_eq]
  exact (moved.filter _).map _

theorem together_strip (children : List FilterNode) : together (stripAll children) = together children := by
  unfold together
  rw [stripAll_eq_map, List.all_map]
  simp only [Function.comp_def, standsAlone_strip]

mutual
-- Taking off the shared association leaves the siblings as they are.
theorem extent_strip (n : FilterNode) : n.strip.extent = n.extent := by
  cases n with
  | leaf l => rfl
  | combine op children =>
    cases op with
    | not =>
      cases children with
      | nil => rfl
      | cons child rest =>
        rw [strip, stripAll, extent, extent, extent_strip child]
    | and => rw [strip, extent, extent, together_strip, apart_strip] <;> simp
    | or => rw [strip, extent, extent, together_strip, apart_strip] <;> simp

theorem apart_strip (op : Connective) (children : List FilterNode) :
    apart op (stripAll children) = apart op children := by
  cases children with
  | nil => rfl
  | cons n rest => rw [stripAll, apart, apart, standsAlone_strip, leafy_strip, extent_strip n, apart_strip op rest]
end

mutual
theorem extent_of_empty (n : FilterNode) (empty : n.isEmpty = true) : n.extent = .constant true := by
  cases n with
  | leaf l => cases empty
  | combine op children =>
    cases op with
    | not => cases empty
    | and =>
      rw [extent_connective (by simp)]
      exact Extent.join_holds _ (siblings_of_empty _ children empty)
    | or =>
      rw [extent_connective (by simp)]
      exact Extent.join_holds _ (siblings_of_empty _ children empty)

theorem siblings_of_empty (op : Connective) (nodes : List FilterNode) (empty : allEmpty nodes = true) :
    ∀ e ∈ together nodes ++ apart op nodes, e = .constant true := by
  cases nodes with
  | nil => simp [together, apart]
  | cons n rest =>
    rw [allEmpty, Bool.and_eq_true] at empty
    have leafless : n.leafy = false := by simp [leafy, leaves_of_empty n empty.1]
    have alone : n.standsAlone = true := by simp [standsAlone, leafless]
    have later := siblings_of_empty op rest empty.2
    have same : together (n :: rest) = together rest := by simp [together, alone]
    rw [same, apart, if_pos alone, leafless, extent_of_empty n empty.1]
    intro e member
    rcases List.mem_append.mp member with grouped | among
    · exact later e (List.mem_append_left _ grouped)
    · rcases List.mem_cons.mp among with rfl | further
      · rfl
      · exact later e (List.mem_append_right _ further)
end

-- The connective passes over it, and nothing is lost with it.
def vacuous (op : Connective) (n : FilterNode) : Bool := !n.leafy && n.extent = .constant op.neutral

def kept (op : Connective) (children : List FilterNode) : List FilterNode := children.filter (!·.vacuous op)

theorem vacuous_strip (op : Connective) (n : FilterNode) : n.strip.vacuous op = n.vacuous op := by
  rw [vacuous, vacuous, leafy_strip, extent_strip]

theorem kept_strip (op : Connective) (children : List FilterNode) :
    kept op (stripAll children) = stripAll (kept op children) := by
  rw [kept, kept, stripAll_eq_map, stripAll_eq_map, List.filter_map]
  simp only [Function.comp_def, vacuous_strip]

theorem standsAlone_of_vacuous {n : FilterNode} (passed : n.vacuous op = true) : n.standsAlone = true := by
  simp only [vacuous, Bool.and_eq_true] at passed
  simp [standsAlone, passed.1]

theorem isConstant_within {n : FilterNode} (neutral : ∀ b, n.extent.within op n.leafy = .constant b → b = op.neutral) :
    (n.extent.within op n.leafy).isConstant = n.vacuous op := by
  cases same : n.extent.within op n.leafy with
  | constant b =>
    obtain ⟨own, leafless⟩ := Extent.within_constant same
    have here := neutral b same
    subst here
    cases leaves : n.leafy with
    | true => exact absurd rfl (leafless leaves)
    | false => simp [Extent.isConstant, vacuous, leaves, own]
  | _ =>
    cases passed : n.vacuous op with
    | false => rfl
    | true =>
      simp only [vacuous, Bool.and_eq_true, Bool.not_eq_true', decide_eq_true_eq] at passed
      simp [Extent.within, passed] at same

-- One scope altogether: either some children start at the association and all others are passed over, or
-- it is the scope of a single child.
theorem kept_of_one {children : List FilterNode}
    (single : Extent.join op (together children ++ apart op children) = .one s) :
    (s = true ∧ kept op children ≠ [] ∧ ∀ n ∈ kept op children, n.standsAlone = false) ∨
      ∃ child, kept op children = [child] ∧ child.standsAlone = true ∧ child.extent = .one s := by
  obtain ⟨lone, neutral⟩ := Extent.join_one single
  have own : ∀ n ∈ children, n.standsAlone = true → ∀ b, n.extent.within op n.leafy = .constant b →
      b = op.neutral := by
    intro n member alone b same
    refine neutral b (List.mem_append_right _ ?_)
    rw [apart_eq, ← same]
    exact List.mem_map_of_mem (List.mem_filter.mpr ⟨member, alone⟩)
  rw [List.filter_append] at lone
  by_cases scattered : children.all standsAlone = true
  · refine .inr ?_
    have all : children.filter standsAlone = children := List.filter_eq_self.mpr (List.all_eq_true.mp scattered)
    rw [together, if_pos scattered, List.filter_nil, List.nil_append, apart_eq, all, List.filter_map] at lone
    have live : children.filter ((!·.isConstant) ∘ fun n => n.extent.within op n.leafy) = kept op children := by
      refine List.filter_congr ?_
      intro n member
      exact congrArg (!·) (isConstant_within (own n member (List.all_eq_true.mp scattered n member)))
    rw [live, List.map_eq_singleton_iff] at lone
    obtain ⟨child, only, whole⟩ := lone
    have member : child ∈ children := by
      have among : child ∈ kept op children := by simp [only]
      exact (List.mem_filter.mp among).1
    exact ⟨child, only, List.all_eq_true.mp scattered child member, Extent.within_one whole⟩
  · refine .inl ?_
    rw [together, if_neg scattered] at lone
    obtain ⟨positive, settled⟩ := List.cons_eq_cons.mp (show _ :: _ = [_] from lone)
    have passed : ∀ n ∈ children, n.standsAlone = true → n.vacuous op = true := by
      intro n member alone
      rw [← isConstant_within (own n member alone)]
      have among : n.extent.within op n.leafy ∈ apart op children := by
        rw [apart_eq]
        exact List.mem_map_of_mem (List.mem_filter.mpr ⟨member, alone⟩)
      simpa using List.filter_eq_nil_iff.mp settled _ among
    refine ⟨(Extent.one.inj positive).symm, ?_, ?_⟩
    · obtain ⟨n, member, shares⟩ : ∃ n ∈ children, n.standsAlone = false := by
        simpa using scattered
      intro empty
      have among : n ∈ kept op children := by
        refine List.mem_filter.mpr ⟨member, ?_⟩
        cases vacuous : n.vacuous op with
        | false => rfl
        | true =>
          rw [standsAlone_of_vacuous vacuous] at shares
          cases shares
      rw [empty] at among
      cases among
    · intro n member
      obtain ⟨among, live⟩ := List.mem_filter.mp member
      cases alone : n.standsAlone with
      | false => rfl
      | true =>
        rw [passed n among alone] at live
        cases live

end FilterNode

namespace Sibling

def extent (op : Connective) : Sibling → Extent
  | alone n => n.extent.within op n.leafy
  | together _ _ => .one true

def isGroup : Sibling → Bool
  | alone _ => false
  | together _ _ => true

def StartsAt (head : String) : Sibling → Prop
  | alone _ => True
  | together other _ => other = head

theorem place_extents (op : Connective) (shared : n.sharedHead? = some head) {placed : List Sibling}
    (start : ∀ s ∈ placed, s.StartsAt head) :
    (∀ s ∈ place n head shared placed, s.StartsAt head) ∧ (place n head shared placed).any isGroup = true ∧
      (place n head shared placed).map (extent op) =
        placed.map (extent op) ++ if placed.any isGroup then [] else [.one true] := by
  induction placed with
  | nil => simp [place, StartsAt, isGroup, extent]
  | cons s rest ih =>
    obtain ⟨here, later⟩ := List.forall_mem_cons.mp start
    obtain ⟨starts, grouped, extents⟩ := ih later
    cases s with
    | alone m =>
      simp only [place]
      refine ⟨List.forall_mem_cons.mpr ⟨trivial, starts⟩, ?_, ?_⟩
      · simp [grouped]
      · simp [extents, isGroup]
    | together other group =>
      simp only [place, dif_pos (show other = head from here)]
      refine ⟨List.forall_mem_cons.mpr ⟨here, later⟩, ?_, ?_⟩
      · simp [isGroup]
      · simp [isGroup, extent]

theorem foldl_extents (op : Connective) {ns : List FilterNode}
    (start : ∀ n ∈ ns, n.standsAlone = false → n.sharedHead? = some head) {placed : List Sibling}
    (starts : ∀ s ∈ placed, s.StartsAt head) :
    ((ns.foldl add placed).map (extent op)).Perm (placed.map (extent op) ++
      ((if placed.any isGroup then [] else FilterNode.together ns) ++ FilterNode.apart op ns)) := by
  induction ns generalizing placed with
  | nil => simp [FilterNode.together, FilterNode.apart]
  | cons n rest ih =>
    obtain ⟨here, later⟩ := List.forall_mem_cons.mp start
    rw [List.foldl_cons]
    cases alone : n.standsAlone with
    | true =>
      rw [add_alone placed (FilterNode.sharedHead_of_alone alone)]
      have starts' : ∀ s ∈ placed ++ [.alone n], s.StartsAt head := by
        intro s member
        rcases List.mem_append.mp member with old | new
        · exact starts s old
        · rw [List.mem_singleton.mp new]
          trivial
      have same : FilterNode.together (n :: rest) = FilterNode.together rest := by
        simp [FilterNode.together, alone]
      refine (ih later starts').trans ?_
      rw [same, FilterNode.apart, if_pos alone, List.any_append, List.map_append, List.append_assoc]
      simp only [List.any_cons, List.any_nil, isGroup, Bool.or_false, List.map_cons, List.map_nil, extent,
        List.singleton_append]
      exact List.perm_middle.symm.append_left _
    | false =>
      obtain ⟨starts', grouped, extents⟩ := place_extents op (here alone) starts
      rw [add_shared placed (here alone)]
      have own : FilterNode.together (n :: rest) = [.one true] := by
        simp [FilterNode.together, alone]
      refine (ih later starts').trans ?_
      rw [own, FilterNode.apart, grouped, if_pos rfl, extents, List.nil_append, List.append_assoc, alone,
        if_neg Bool.false_ne_true]

-- However the children are arranged, they come to the same.
theorem join_extents (reorder : Bool) (op : Connective) {children : List FilterNode}
    (start : ∀ l ∈ FilterNode.listLeaves children, l.field.firstHop? = some head) :
    Extent.join op ((ofNodes (FilterNode.arrange reorder children)).map (extent op)) =
      Extent.join op (FilterNode.together children ++ FilterNode.apart op children) := by
  have moved := FilterNode.arrange_perm reorder children
  have starts : ∀ n ∈ FilterNode.arrange reorder children, n.standsAlone = false → n.sharedHead? = some head := by
    intro n member
    refine FilterNode.sharedHead_of_start ?_
    intro l leaf
    exact start l (FilterNode.mem_listLeaves.mpr ⟨n, moved.mem_iff.mp member, leaf⟩)
  refine Extent.join_perm op ((foldl_extents op starts (by simp)).trans ?_)
  simp only [List.map_nil, List.nil_append, List.any_nil, Bool.false_eq_true, if_false]
  rw [FilterNode.together_perm moved]
  exact (FilterNode.apart_perm op moved).append_left _

end Sibling
end FilterQuery
