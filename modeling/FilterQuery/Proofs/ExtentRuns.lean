import FilterQuery.Proofs.PredicateAtoms
import FilterQuery.Proofs.RouteAlike

namespace FilterQuery

-- The associations lead to a to-many one, over to-one ones.
def Resolver.ToMany (r : Resolver) (a : Adapter) : Queryable → List String → Prop
  | _, [] => False
  | q, name :: rest => ∃ hop, r.cross? a q name = some hop ∧
    (hop.link.cardinality = .many ∧ rest = [] ∨ hop.link.cardinality = .one ∧ r.ToMany a hop.related rest)

-- The path of the leaf goes through them all.
def Leaf.Behind (names : List String) (l : Leaf) : Prop :=
  ∃ next later, l.field.segments = names ++ next :: later

namespace Leaf

theorem firstHop_of_behind {l : Leaf} (behind : l.Behind (name :: rest)) : l.field.firstHop? = some name := by
  obtain ⟨next, later, shape⟩ := behind
  cases rest with
  | nil => exact FieldPath.firstHop_exact.mpr ⟨next, later, shape⟩
  | cons second others => exact FieldPath.firstHop_exact.mpr ⟨second, others ++ next :: later, shape⟩

theorem strip_behind {l : Leaf} (behind : l.Behind (name :: rest)) : l.strip.Behind rest := by
  obtain ⟨next, later, shape⟩ := behind
  exact ⟨next, later, by simp [strip, FieldPath.tail, shape]⟩

end Leaf

-- A closed scope is the absence of a match when all related rows have to match.
def ToManyMode.negated : ToManyMode → Bool
  | anyMatch => false
  | allMatch => true

namespace Predicate

-- Whether a scope is negated.
def scope? : Predicate → Option Bool
  | sql (.existsIn _ negated) => some negated
  | search (.nested _ _) => some false
  | search (.not (.nested _ _)) => some true
  | _ => none

theorem scope_negate {p : Predicate} (scope : p.scope? = some b) : p.negate.scope? = some (!b) := by
  unfold scope? at scope
  split at scope <;> cases scope <;> rfl

theorem atoms_of_scope {p : Predicate} (scope : p.scope? = some b) : p.atoms = 1 := by
  unfold scope? at scope
  split at scope <;> cases scope <;> rfl

theorem scope_constant (k : QueryKind) (b : Bool) : (constant k b).scope? = none := by cases k <;> rfl

theorem atoms_constant (k : QueryKind) (b : Bool) : (constant k b).atoms = 0 := by cases k <;> rfl

-- The predicate is as the extent says, in the mode that scopes are closed in.
def ComesTo (mode : ToManyMode) (p : Predicate) : Extent → Prop
  | .constant b => p = constant p.kind b
  | .one positive => p.scope? = some (positive == mode.negated)
  | .several => 2 ≤ p.atoms
  | .lossy => True

variable {mode : ToManyMode} {p : Predicate} {e : Extent}

theorem negate_comesTo (comes : p.ComesTo mode e) : p.negate.ComesTo mode e.negate := by
  cases e with
  | constant b =>
    have flat : p = constant p.kind b := comes
    rw [flat, negate_constant]
    simp [ComesTo, Extent.negate]
  | one positive =>
    have turned := scope_negate (show p.scope? = _ from comes)
    cases positive <;> cases mode <;> exact turned
  | several =>
    have many : 2 ≤ p.atoms := comes
    rwa [← p.atoms_negate] at many
  | lossy => trivial

theorem within_comesTo (op : Connective) (leafy : Bool) (comes : p.ComesTo mode e) :
    p.ComesTo mode (e.within op leafy) := by
  unfold Extent.within
  split
  · trivial
  · exact comes

-- Nothing but a constant comes to a constant.
theorem live_of_comesTo (comes : p.ComesTo mode e) (live : e.isConstant = false) (sure : e ≠ .lossy) (b : Bool) :
    p.isConstant b = false := by
  cases flat : p.isConstant b with
  | false => rfl
  | true =>
    rw [isConstant_exact] at flat
    cases e with
    | constant b => cases live
    | one positive =>
      have scope : p.scope? = some (positive == mode.negated) := comes
      rw [flat, scope_constant] at scope
      cases scope
    | several =>
      have many : 2 ≤ p.atoms := comes
      rw [flat, atoms_constant] at many
      omega
    | lossy => exact absurd rfl sure

theorem atoms_of_comesTo (comes : p.ComesTo mode e) (live : e.isConstant = false) (sure : e ≠ .lossy) : 1 ≤ p.atoms := by
  cases e with
  | constant b => cases live
  | one positive => exact Nat.le_of_eq (atoms_of_scope comes).symm
  | several =>
    have many : 2 ≤ p.atoms := comes
    omega
  | lossy => exact absurd rfl sure

end Predicate

section Joined

variable {k : QueryKind} {mode : ToManyMode} {members : List (Predicate × Extent)}

theorem length_le_atoms (each : ∀ m ∈ members, m.1.ComesTo mode m.2) (sure : .lossy ∉ members.map Prod.snd) :
    ((members.map Prod.snd).filter (!·.isConstant)).length ≤ total Predicate.atoms (members.map Prod.fst) := by
  induction members with
  | nil => exact Nat.le_refl 0
  | cons m rest ih =>
    obtain ⟨here, later⟩ := List.forall_mem_cons.mp each
    simp only [List.map_cons, List.mem_cons, not_or] at sure
    have below := ih later sure.2
    rw [List.map_cons, List.map_cons, List.filter_cons, total]
    cases live : m.2.isConstant with
    | true =>
      simp only [Bool.not_true, Bool.false_eq_true, if_false]
      omega
    | false =>
      have counted := Predicate.atoms_of_comesTo here live (Ne.symm sure.1)
      simp only [Bool.not_false, if_true, List.length_cons]
      omega

theorem constant_of_comesTo (own : ∀ m ∈ members, m.1.kind = k) (each : ∀ m ∈ members, m.1.ComesTo mode m.2) :
    ∀ m ∈ members, ∀ b, m.2 = .constant b → m.1 = .constant k b := by
  intro m member b same
  have comes := each m member
  rw [same, Predicate.ComesTo, own m member] at comes
  exact comes

theorem neutral_of_constant {op : Connective} (undecided : .constant (!op.neutral) ∉ members.map Prod.snd) :
    ∀ m ∈ members, m.2.isConstant = true → m.2 = .constant op.neutral := by
  intro m member constant
  cases same : m.2 with
  | constant b =>
    rcases op.neutral_or_deciding b with rfl | rfl
    · rfl
    · exact absurd (same ▸ List.mem_map_of_mem member) undecided
  | _ =>
    rw [same] at constant
    cases constant

theorem live_of_member (each : ∀ m ∈ members, m.1.ComesTo mode m.2) (sure : .lossy ∉ members.map Prod.snd) :
    ∀ m ∈ members, m.2.isConstant = false → ∀ b, m.1.isConstant b = false := by
  intro m member live b
  refine Predicate.live_of_comesTo (each m member) live ?_ b
  intro lossy
  exact sure (lossy ▸ List.mem_map_of_mem member)

section Undecided

variable {op : Connective} (own : ∀ m ∈ members, m.1.kind = k) (each : ∀ m ∈ members, m.1.ComesTo mode m.2)
  (undecided : .constant (!op.neutral) ∉ members.map Prod.snd) (sure : .lossy ∉ members.map Prod.snd)
include own each undecided sure

theorem isConstant_alike : ∀ m ∈ members, m.1.isConstant op.neutral = m.2.isConstant := by
  intro m member
  cases constant : m.2.isConstant with
  | true =>
    have same := neutral_of_constant undecided m member constant
    rw [Predicate.isConstant_exact, own m member, constant_of_comesTo own each m member _ same]
  | false => exact live_of_member each sure m member constant _

theorem undecided_alike : .constant k (!op.neutral) ∉ members.map Prod.fst := by
  intro decided
  obtain ⟨m, member, same⟩ := List.mem_map.mp decided
  cases constant : m.2.isConstant with
  | true =>
    have passed := constant_of_comesTo own each m member _ (neutral_of_constant undecided m member constant)
    rw [same] at passed
    cases k <;> cases op <;> cases passed
  | false =>
    have live := live_of_member each sure m member constant (!op.neutral)
    rw [Predicate.isConstant_exact.mpr (by rw [same, Predicate.kind_constant])] at live
    cases live

theorem join_passed (settled : (members.map Prod.snd).filter (!·.isConstant) = []) :
    Predicate.join k op (members.map Prod.fst) = .constant k ((members.map Prod.snd).isEmpty || op.neutral) := by
  cases members with
  | nil => exact Predicate.join_nil k op
  | cons m rest =>
    rw [List.map_cons, List.map_cons, List.isEmpty_cons, Bool.false_or]
    refine Predicate.join_neutral op (by simp) ?_
    rw [← List.map_cons]
    intro p member
    obtain ⟨x, among, rfl⟩ := List.mem_map.mp member
    have constant : x.2.isConstant = true := by
      simpa using List.filter_eq_nil_iff.mp settled x.2 (List.mem_map_of_mem (f := Prod.snd) among)
    exact constant_of_comesTo own each x among _ (neutral_of_constant undecided x among constant)

theorem join_left (steady : ∀ m ∈ members, m.1.Steady) (lone : (members.map Prod.snd).filter (!·.isConstant) = [e]) :
    (Predicate.join k op (members.map Prod.fst)).ComesTo mode e := by
  rw [List.filter_map, List.map_eq_singleton_iff] at lone
  obtain ⟨m, only, rfl⟩ := lone
  have among : m ∈ members.filter ((!·.isConstant) ∘ Prod.snd) := by simp [only]
  have member := (List.mem_filter.mp among).1
  have left : (members.map Prod.fst).filter (!Predicate.isConstant op.neutral ·) = [m.1] := by
    rw [List.filter_map, ← List.map_singleton, ← only]
    refine congrArg (List.map Prod.fst) (List.filter_congr ?_)
    intro x here
    exact congrArg (!·) (isConstant_alike own each undecided sure x here)
  have kinds : ∀ p ∈ members.map Prod.fst, p.kind = k := List.forall_mem_map.mpr own
  rw [Predicate.join_lone op kinds left (steady m member)]
  exact each m member

theorem join_several (two : 2 ≤ ((members.map Prod.snd).filter (!·.isConstant)).length) :
    2 ≤ (Predicate.join k op (members.map Prod.fst)).atoms := by
  have kinds : ∀ p ∈ members.map Prod.fst, p.kind = k := List.forall_mem_map.mpr own
  rw [Predicate.atoms_join op kinds (undecided_alike own each undecided sure)]
  exact Nat.le_trans two (length_le_atoms each sure)

end Undecided

theorem join_comesTo (op : Connective) (own : ∀ m ∈ members, m.1.kind = k) (steady : ∀ m ∈ members, m.1.Steady)
    (each : ∀ m ∈ members, m.1.ComesTo mode m.2) :
    (Predicate.join k op (members.map Prod.fst)).ComesTo mode (Extent.join op (members.map Prod.snd)) := by
  unfold Extent.join
  split
  · rename_i decided
    obtain ⟨m, among, same⟩ := List.mem_map.mp decided
    have member : Predicate.constant k (!op.neutral) ∈ members.map Prod.fst := by
      rw [← constant_of_comesTo own each m among _ same]
      exact List.mem_map_of_mem among
    rw [Predicate.join_decided op member]
    simp [Predicate.ComesTo]
  · rename_i undecided
    split
    · trivial
    · rename_i sure
      split
      · rename_i settled
        rw [join_passed own each undecided sure settled]
        simp [Predicate.ComesTo]
      · rename_i e lone
        exact join_left own each undecided sure steady lone
      · rename_i nonempty more
        refine join_several own each undecided sure ?_
        match left : (members.map Prod.snd).filter (!·.isConstant) with
        | [] => exact absurd left nonempty
        | [e] => exact absurd left (more e)
        | _ :: _ :: _ => simp [left]

end Joined

namespace CompiledQuery

theorem closeScope_scope {below : CompiledQuery} {p : Predicate}
    (accepted : below.closeScope? parent binding link p mode = some closed) : closed.scope? = some mode.negated := by
  cases below <;> cases p <;> cases accepted
  · cases mode <;> rfl
  · cases mode <;> rfl

end CompiledQuery

namespace Route

variable {c : FilterContext} {names : List String}

-- What is walked together down to a to-many association ends up in one scope.
theorem compile_together (reorder : Bool) (op : Connective) {ns : List FilterNode} (occupied : ns ≠ [])
    (shares : ∀ n ∈ ns, n.standsAlone = false) (behind : ∀ l ∈ FilterNode.listLeaves ns, l.Behind names) {scope : Scope}
    (toMany : c.resolver.ToMany c.adapter scope.queryable names) {q joined : CompiledQuery} {p : Predicate}
    (own : c.adapter.kind = q.kind) (compiled : (ofNodes reorder op ns).compile c scope q = .ok (p, joined)) :
    p.scope? = some c.mode.negated := by
  induction names generalizing ns scope q joined p with
  | nil => exact toMany.elim
  | cons name rest ih =>
    have starts : ∀ n ∈ ns, n.sharedHead? = some name := by
      intro n member
      refine FilterNode.sharedHead_of_start ?_ (shares n member)
      intro l leaf
      exact Leaf.firstHop_of_behind (behind l (FilterNode.mem_listLeaves.mpr ⟨n, member, leaf⟩))
    rw [ofNodes_shared reorder op occupied starts, alike_lone op _ c scope q own] at compiled
    obtain ⟨hop, crossed, way⟩ := through_parts.mp compiled
    obtain ⟨hop', crossed', kind⟩ := toMany
    rw [crossed] at crossed'
    cases crossed'
    rcases way with ⟨one, inside⟩ | ⟨_, _, _, _, _, closed⟩
    · rcases kind with ⟨many, _⟩ | ⟨_, toMany⟩
      · rw [one] at many
        cases many
      · have shares' : ∀ n ∈ FilterNode.stripAll ns, n.standsAlone = false := by
          intro n member
          rw [FilterNode.stripAll_eq_map] at member
          obtain ⟨m, among, rfl⟩ := List.mem_map.mp member
          rw [FilterNode.standsAlone_strip, shares m among]
        have behind' : ∀ l ∈ FilterNode.listLeaves (FilterNode.stripAll ns), l.Behind rest := by
          intro l member
          rw [FilterNode.listLeaves_stripAll] at member
          obtain ⟨m, among, rfl⟩ := List.mem_map.mp member
          exact Leaf.strip_behind (behind m among)
        exact ih (FilterNode.stripAll_ne_nil occupied) shares' behind' toMany (by simpa using own) inside
    · exact CompiledQuery.closeScope_scope closed

theorem compile_group (reorder : Bool) (op : Connective) (group : Companions head)
    (far : ∀ l ∈ FilterNode.listLeaves group.nodes, c.resolver.ToMany c.adapter scope.queryable names ∧ l.Behind names)
    (own : c.adapter.kind = q.kind)
    (compiled : (through head (ofNodes reorder op (FilterNode.stripAll group.nodes))).compile c scope q = .ok (p, joined)) :
    p.scope? = some c.mode.negated := by
  obtain ⟨l, leaf⟩ := group.some_leaf
  rw [← alike_lone op _ c scope q own, ← ofNodes_shared reorder op group.nonempty group.shared] at compiled
  refine compile_together reorder op group.nonempty ?_ (fun l member => (far l member).2) (far l leaf).1 own compiled
  intro n member
  cases alone : n.standsAlone with
  | false => rfl
  | true =>
    have shared := group.shared n member
    rw [FilterNode.sharedHead_of_alone alone] at shared
    cases shared

theorem compileAll_comesTo (reorder : Bool) (op : Connective) {siblings : List Sibling} {scope : Scope}
    (far : ∀ l ∈ FilterNode.listLeaves (Sibling.nodes siblings),
      c.resolver.ToMany c.adapter scope.queryable names ∧ l.Behind names)
    (each : ∀ n ∈ Sibling.nodes siblings, ∀ q joined p, c.adapter.kind = q.kind →
      (ofNode reorder n).compile c scope q = .ok (p, joined) → p.ComesTo c.mode n.extent)
    {q joined : CompiledQuery} {ps : List Predicate} (own : c.adapter.kind = q.kind)
    (compiled : compileAll c scope (ofSiblings reorder op siblings) q = .ok (ps, joined)) :
    ∃ members : List (Predicate × Extent), members.map Prod.fst = ps ∧
      members.map Prod.snd = siblings.map (Sibling.extent op) ∧ ∀ m ∈ members, m.1.ComesTo c.mode m.2 := by
  match siblings with
  | [] =>
    rw [ofSiblings] at compiled
    obtain ⟨rfl, _⟩ := nil_parts.mp compiled
    exact ⟨[], rfl, rfl, by simp⟩
  | .alone n :: rest =>
    rw [ofSiblings] at compiled
    obtain ⟨p, mid, others, here, later, rfl⟩ := cons_parts.mp compiled
    simp only [Sibling.nodes, FilterNode.listLeaves, List.mem_append] at far
    obtain ⟨first, further⟩ := List.forall_mem_cons.mp each
    have comes := Predicate.within_comesTo op n.leafy (first q mid p own here)
    obtain ⟨members, rfl, extents, known⟩ := compileAll_comesTo reorder op (fun l member => far l (.inr member)) further
      (own.trans (joined_kind here).symm) later
    exact ⟨(p, n.extent.within op n.leafy) :: members, rfl, by rw [List.map_cons, extents]; rfl,
      List.forall_mem_cons.mpr ⟨comes, known⟩⟩
  | .together head group :: rest =>
    rw [ofSiblings] at compiled
    obtain ⟨p, mid, others, here, later, rfl⟩ := cons_parts.mp compiled
    simp only [Sibling.nodes, FilterNode.listLeaves_append, List.mem_append] at far
    have scope := compile_group reorder op group (fun l member => far l (.inl member)) own here
    obtain ⟨members, rfl, extents, known⟩ := compileAll_comesTo reorder op (fun l member => far l (.inr member))
      (fun n member => each n (List.mem_append_right _ member)) (own.trans (joined_kind here).symm) later
    exact ⟨(p, .one true) :: members, rfl, by rw [List.map_cons, extents]; rfl,
      List.forall_mem_cons.mpr ⟨by simpa [Predicate.ComesTo] using scope, known⟩⟩

theorem compile_comesTo (reorder : Bool) (n : FilterNode) {scope : Scope}
    (far : ∀ l ∈ n.leaves, c.resolver.ToMany c.adapter scope.queryable names ∧ l.Behind names)
    {q joined : CompiledQuery} {p : Predicate} (own : c.adapter.kind = q.kind)
    (compiled : (ofNode reorder n).compile c scope q = .ok (p, joined)) : p.ComesTo c.mode n.extent := by
  match n, far, compiled with
  | .leaf l, far, compiled =>
    rw [← lone_leaf reorder .and l c scope q own] at compiled
    have here := far l (by simp [FilterNode.leaves])
    have scope := compile_together reorder .and (by simp)
      (by simp [FilterNode.standsAlone, FilterNode.isNegation, FilterNode.leafy, FilterNode.leaves])
      (by simpa [FilterNode.listLeaves, FilterNode.leaves] using here.2) here.1 own compiled
    simpa [Predicate.ComesTo, FilterNode.extent] using scope
  | .combine op children, far, compiled =>
    have below : ∀ child ∈ children, ∀ q joined p, c.adapter.kind = q.kind →
        (ofNode reorder child).compile c scope q = .ok (p, joined) → p.ComesTo c.mode child.extent := by
      intro child member q joined p own compiled
      exact compile_comesTo reorder child (fun l leaf => far l (FilterNode.leaves_of_child member leaf)) own compiled
    rcases FilterNode.negation_or_plain op children with ⟨child, rest, rfl, rfl⟩ | plain
    · rw [ofNode] at compiled
      obtain ⟨plain, inside, rfl⟩ := negate_parts.mp compiled
      rw [FilterNode.extent]
      exact Predicate.negate_comesTo (below child (List.mem_cons_self ..) _ _ _ own inside)
    · rw [ofNode_connective reorder plain, ofNodes] at compiled
      obtain ⟨ps, inside, rfl⟩ := join_parts.mp compiled
      have laid := Sibling.nodes_arranged reorder children
      have leaves := FilterNode.listLeaves_perm laid
      obtain ⟨members, rfl, extents, known⟩ := compileAll_comesTo reorder (.ofCombinator op)
        (fun l member => far l (leaves.mem_iff.mp member)) (fun n member => below n (laid.mem_iff.mp member)) own inside
      have start : ∀ l ∈ FilterNode.listLeaves children, l.field.firstHop? = some (names.headD "") := by
        intro l member
        obtain ⟨toMany, behind⟩ := far l member
        cases names with
        | nil => exact toMany.elim
        | cons name rest => exact Leaf.firstHop_of_behind behind
      rw [FilterNode.extent_connective plain, ← Sibling.join_extents reorder _ start, ← extents]
      refine join_comesTo (.ofCombinator op) ?_ ?_ known
      · intro m member
        exact compileAll_own _ own inside m.1 (List.mem_map_of_mem member)
      · intro m member
        exact compileAll_steady _ inside m.1 (List.mem_map_of_mem member)
termination_by n.weight
decreasing_by
  have lighter := FilterNode.weight_child member
  simp only [FilterNode.weight]
  omega

end Route
end FilterQuery
