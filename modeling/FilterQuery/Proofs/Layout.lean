import FilterQuery.Compile.Route
import FilterQuery.Proofs.RouteParts
import FilterQuery.Proofs.Truth

namespace FilterQuery

-- The leaf as it is told from the root, when it is told here from the end of the path.
def Leaf.under (path : FieldPath) (l : Leaf) : Leaf := { l with field := path.append l.field }

theorem Leaf.under_empty (l : Leaf) : l.under .empty = l := by
  simp [under, FieldPath.append, FieldPath.empty]

theorem FieldPath.firstHop_exact {path : FieldPath} :
    path.firstHop? = some head ↔ ∃ next rest, path.segments = head :: next :: rest := by
  unfold firstHop?
  split
  · rename_i first next rest shape
    constructor
    · intro same
      cases Option.some.inj same
      exact ⟨next, rest, shape⟩
    · intro given
      obtain ⟨next', rest', shape'⟩ := given
      rw [shape] at shape'
      rw [(List.cons.inj shape').1]
  · rename_i flat
    constructor
    · intro found
      cases found
    · intro given
      obtain ⟨next, rest, shape⟩ := given
      exact absurd shape (flat head next rest)

theorem Leaf.under_strip {l : Leaf} (path : FieldPath) (nested : l.field.firstHop? = some head) :
    l.strip.under (path.child head) = l.under path := by
  obtain ⟨next, rest, shape⟩ := FieldPath.firstHop_exact.mp nested
  simp [under, strip, FieldPath.append, FieldPath.child, FieldPath.tail, shape]

namespace FilterNode

mutual
-- NOT of its child, AND and OR of their children; nothing below AND or OR is no constraint.
def kleene (truth : Leaf → Truth) : FilterNode → Truth
  | leaf l => truth l
  | combine .not (child :: _) => (child.kleene truth).not
  | combine .not [] => .true
  | combine .and children => Connective.and.value (kleenes truth children)
  | combine .or children => Connective.or.value (kleenes truth children)

def kleenes (truth : Leaf → Truth) : List FilterNode → List Truth
  | [] => []
  | n :: rest => n.kleene truth :: kleenes truth rest
end

theorem kleenes_eq_map (truth : Leaf → Truth) (nodes : List FilterNode) :
    kleenes truth nodes = nodes.map (kleene truth) := by
  induction nodes with
  | nil => rfl
  | cons n rest ih => rw [kleenes, ih, List.map_cons]

theorem kleene_connective (truth : Leaf → Truth) (op : Combinator) (children : List FilterNode)
    (plain : ∀ child rest, op = .not → children = child :: rest → False) :
    (combine op children).kleene truth = (Connective.ofCombinator op).value (children.map (kleene truth)) := by
  cases op with
  | and => rw [kleene, kleenes_eq_map]; rfl
  | or => rw [kleene, kleenes_eq_map]; rfl
  | not =>
    cases children with
    | nil => rfl
    | cons child rest => exact absurd rfl (plain child rest rfl)

theorem negation_or_plain (op : Combinator) (children : List FilterNode) :
    (∃ child rest, op = .not ∧ children = child :: rest) ∨
      ∀ child rest, op = .not → children = child :: rest → False := by
  by_cases negation : ∃ child rest, op = .not ∧ children = child :: rest
  · exact .inl negation
  · exact .inr fun child rest same shape => negation ⟨child, rest, same, shape⟩

def isNegation : FilterNode → Bool
  | combine .not _ => true
  | _ => false

theorem sharedHead_exact {n : FilterNode} : n.sharedHead? = some head ↔
    n.isNegation = false ∧ n.leaves ≠ [] ∧ ∀ l ∈ n.leaves, l.field.firstHop? = some head := by
  unfold sharedHead?
  split
  · simp [isNegation]
  · rename_i negation
    have plain : n.isNegation = false := by
      unfold isNegation
      split
      · rename_i children
        exact absurd rfl (negation children)
      · rfl
    split
    · rename_i leafless
      simp [leafless]
    · rename_i first rest found
      simp only [found, plain, ne_eq, reduceCtorEq, not_false_eq_true, true_and, List.mem_cons, forall_eq_or_imp]
      split
      · rename_i flat
        simp [flat]
      · rename_i start nested
        rw [nested]
        split
        · rename_i same
          simp only [Option.some.injEq]
          constructor
          · rintro rfl
            exact ⟨rfl, fun l member => by simpa using List.all_eq_true.mp same l member⟩
          · exact fun both => both.1
        · rename_i different
          simp only [reduceCtorEq, Option.some.injEq, false_iff, not_and]
          rintro rfl each
          exact different (List.all_eq_true.mpr fun l member => by simpa using each l member)

mutual
theorem kleene_strip (n : FilterNode) {truth moved : Leaf → Truth} (same : ∀ l ∈ n.leaves, truth l = moved l.strip) :
    n.strip.kleene moved = n.kleene truth := by
  cases n with
  | leaf l => exact (same l (by simp [leaves])).symm
  | combine op children =>
    have all := kleenes_strip children (by simpa only [leaves] using same)
    cases op with
    | and => rw [strip, kleene, kleene, all]
    | or => rw [strip, kleene, kleene, all]
    | not =>
      cases children with
      | nil => rfl
      | cons child rest =>
        rw [stripAll, kleenes, kleenes] at all
        rw [strip, stripAll, kleene, kleene, (List.cons.inj all).1]

theorem kleenes_strip (nodes : List FilterNode) {truth moved : Leaf → Truth}
    (same : ∀ l ∈ listLeaves nodes, truth l = moved l.strip) :
    kleenes moved (stripAll nodes) = kleenes truth nodes := by
  cases nodes with
  | nil => rfl
  | cons n rest =>
    simp only [listLeaves, List.mem_append] at same
    rw [stripAll, kleenes, kleenes, kleene_strip n fun l member => same l (.inl member),
      kleenes_strip rest fun l member => same l (.inr member)]
end

mutual
theorem kleene_congr (n : FilterNode) {truth other : Leaf → Truth} (same : ∀ l ∈ n.leaves, truth l = other l) :
    n.kleene truth = n.kleene other := by
  cases n with
  | leaf l => exact same l (by simp [leaves])
  | combine op children =>
    have all := kleenes_congr children (by simpa only [leaves] using same)
    cases op with
    | and => rw [kleene, kleene, all]
    | or => rw [kleene, kleene, all]
    | not =>
      cases children with
      | nil => rfl
      | cons child rest =>
        rw [kleenes, kleenes] at all
        rw [kleene, kleene, (List.cons.inj all).1]

theorem kleenes_congr (nodes : List FilterNode) {truth other : Leaf → Truth}
    (same : ∀ l ∈ listLeaves nodes, truth l = other l) : kleenes truth nodes = kleenes other nodes := by
  cases nodes with
  | nil => rfl
  | cons n rest =>
    simp only [listLeaves, List.mem_append] at same
    rw [kleenes, kleenes, kleene_congr n fun l member => same l (.inl member),
      kleenes_congr rest fun l member => same l (.inr member)]
end

theorem mem_listLeaves {nodes : List FilterNode} : l ∈ listLeaves nodes ↔ ∃ n ∈ nodes, l ∈ n.leaves := by
  induction nodes with
  | nil => simp [listLeaves]
  | cons n rest ih => simp [listLeaves, ih]

mutual
-- Every negation is of one child.
def NegatesOne : FilterNode → Prop
  | leaf _ => True
  | combine op children => (op = .not → children.length = 1) ∧ AllNegateOne children

def AllNegateOne : List FilterNode → Prop
  | [] => True
  | n :: rest => n.NegatesOne ∧ AllNegateOne rest
end

theorem allNegateOne_exact {nodes : List FilterNode} : AllNegateOne nodes ↔ ∀ n ∈ nodes, n.NegatesOne := by
  induction nodes with
  | nil => simp [AllNegateOne]
  | cons n rest ih => simp [AllNegateOne, ih]

theorem allNegateOne_append {left right : List FilterNode} :
    AllNegateOne (left ++ right) ↔ AllNegateOne left ∧ AllNegateOne right := by
  simp only [allNegateOne_exact, List.mem_append, or_imp, forall_and]

theorem allNegateOne_perm {left right : List FilterNode} (moved : left.Perm right) (sound : AllNegateOne left) :
    AllNegateOne right := by
  rw [allNegateOne_exact] at sound ⊢
  exact fun n member => sound n (moved.mem_iff.mpr member)

theorem length_stripAll (nodes : List FilterNode) : (stripAll nodes).length = nodes.length := by
  induction nodes with
  | nil => rfl
  | cons n rest ih => rw [stripAll, List.length_cons, List.length_cons, ih]

mutual
theorem negatesOne_strip (n : FilterNode) (sound : n.NegatesOne) : n.strip.NegatesOne := by
  cases n with
  | leaf l => trivial
  | combine op children =>
    refine ⟨?_, allNegateOne_stripAll sound.2⟩
    rw [length_stripAll]
    exact sound.1

theorem allNegateOne_stripAll {nodes : List FilterNode} (sound : AllNegateOne nodes) :
    AllNegateOne (stripAll nodes) := by
  cases nodes with
  | nil => trivial
  | cons n rest => exact ⟨negatesOne_strip n sound.1, allNegateOne_stripAll sound.2⟩
end

theorem validateAll_exact {nodes : List FilterNode} :
    validateAll nodes = .ok () ↔ ∀ n ∈ nodes, n.validate = .ok () := by
  induction nodes with
  | nil => simp [validateAll]
  | cons n rest ih =>
    rw [validateAll, bind_exact, List.forall_mem_cons, ← ih]
    constructor
    · rintro ⟨_, here, later⟩
      exact ⟨here, later⟩
    · intro both
      exact ⟨(), both⟩

mutual
theorem negatesOne_of_valid (n : FilterNode) (valid : n.validate = .ok ()) : n.NegatesOne := by
  cases n with
  | leaf l => trivial
  | combine op children =>
    cases op with
    | and => exact ⟨by simp, allNegateOne_of_valid children valid⟩
    | or => exact ⟨by simp, allNegateOne_of_valid children valid⟩
    | not =>
      rw [validate] at valid
      split at valid
      · rename_i one
        exact ⟨fun _ => one, allNegateOne_of_valid children valid⟩
      · cases valid

theorem allNegateOne_of_valid (nodes : List FilterNode) (valid : validateAll nodes = .ok ()) :
    AllNegateOne nodes := by
  cases nodes with
  | nil => trivial
  | cons n rest =>
    obtain ⟨_, first, later⟩ := bind_exact.mp valid
    exact ⟨negatesOne_of_valid n first, allNegateOne_of_valid rest later⟩
end

theorem listLeaves_append (left right : List FilterNode) :
    listLeaves (left ++ right) = listLeaves left ++ listLeaves right := by
  induction left with
  | nil => rfl
  | cons n rest ih => simp only [List.cons_append, listLeaves, ih, List.append_assoc]

theorem listLeaves_perm {left right : List FilterNode} (moved : left.Perm right) :
    (listLeaves left).Perm (listLeaves right) := by
  induction moved with
  | nil => exact .refl _
  | cons n _ ih => exact ih.append_left n.leaves
  | swap n m rest =>
    simp only [listLeaves, ← List.append_assoc]
    exact List.perm_append_comm.append_right (listLeaves rest)
  | trans _ _ first second => exact first.trans second

mutual
theorem leaves_strip (n : FilterNode) : n.strip.leaves = n.leaves.map Leaf.strip := by
  cases n with
  | leaf l => rfl
  | combine op children => simpa only [strip, leaves] using listLeaves_stripAll children

theorem listLeaves_stripAll (nodes : List FilterNode) :
    listLeaves (stripAll nodes) = (listLeaves nodes).map Leaf.strip := by
  cases nodes with
  | nil => rfl
  | cons n rest => rw [stripAll, listLeaves, listLeaves, leaves_strip, listLeaves_stripAll, List.map_append]
end

mutual
theorem leaves_of_empty (n : FilterNode) (empty : n.isEmpty = true) : n.leaves = [] := by
  cases n with
  | leaf l => cases empty
  | combine op children =>
    cases op with
    | and => exact listLeaves_of_empty children empty
    | or => exact listLeaves_of_empty children empty
    | not => cases empty

theorem listLeaves_of_empty (nodes : List FilterNode) (empty : allEmpty nodes = true) : listLeaves nodes = [] := by
  cases nodes with
  | nil => rfl
  | cons n rest =>
    rw [allEmpty, Bool.and_eq_true] at empty
    rw [listLeaves, leaves_of_empty n empty.1, listLeaves_of_empty rest empty.2]
    rfl
end

mutual
theorem kleene_of_empty (n : FilterNode) (truth : Leaf → Truth) (empty : n.isEmpty = true) :
    n.kleene truth = .true := by
  cases n with
  | leaf l => cases empty
  | combine op children =>
    cases op with
    | and =>
      rw [kleene, Connective.value_and]
      exact (fold_of_empty children truth empty).1
    | or =>
      rw [kleene]
      cases children with
      | nil => rfl
      | cons n rest => exact (fold_of_empty (n :: rest) truth empty).2 (by simp)
    | not => cases empty

theorem fold_of_empty (nodes : List FilterNode) (truth : Leaf → Truth) (empty : allEmpty nodes = true) :
    Connective.and.fold (kleenes truth nodes) = .true ∧
      (nodes ≠ [] → Connective.or.value (kleenes truth nodes) = .true) := by
  cases nodes with
  | nil => exact ⟨rfl, fun nonempty => absurd rfl nonempty⟩
  | cons n rest =>
    rw [allEmpty, Bool.and_eq_true] at empty
    have here := kleene_of_empty n truth empty.1
    have later := (fold_of_empty rest truth empty.2).1
    rw [kleenes, here]
    refine ⟨?_, fun _ => ?_⟩
    · rw [Connective.fold_cons, later]
      rfl
    · exact Truth.true_or (Connective.or.fold (kleenes truth rest))
end

end FilterNode

namespace Sibling

def nodes : List Sibling → List FilterNode
  | [] => []
  | alone n :: rest => n :: nodes rest
  | together _ group :: rest => group.nodes ++ nodes rest

theorem nodes_append (left right : List Sibling) : nodes (left ++ right) = nodes left ++ nodes right := by
  induction left with
  | nil => rfl
  | cons s rest ih => cases s <;> simp only [List.cons_append, nodes, ih, List.append_assoc]

theorem nodes_place (n : FilterNode) (shared : n.sharedHead? = some head) (placed : List Sibling) :
    (nodes (place n head shared placed)).Perm (nodes placed ++ [n]) := by
  induction placed with
  | nil => exact .refl _
  | cons s rest ih =>
    cases s with
    | alone m => exact ih.cons m
    | together other group =>
      simp only [place]
      split
      · simp only [nodes, Companions.push, List.append_assoc]
        exact List.perm_append_comm.append_left group.nodes
      · simp only [nodes, List.append_assoc]
        exact ih.append_left group.nodes

theorem nodes_add (placed : List Sibling) (n : FilterNode) : (nodes (add placed n)).Perm (nodes placed ++ [n]) := by
  unfold add
  split
  · rw [nodes_append]
    exact .refl _
  · exact nodes_place n _ placed

theorem nodes_foldl (ns : List FilterNode) (placed : List Sibling) :
    (nodes (ns.foldl add placed)).Perm (nodes placed ++ ns) := by
  induction ns generalizing placed with
  | nil => simp
  | cons n rest ih =>
    refine (ih (add placed n)).trans ?_
    simpa using (nodes_add placed n).append_right rest

theorem nodes_ofNodes (ns : List FilterNode) : (nodes (ofNodes ns)).Perm ns := nodes_foldl ns []

end Sibling

theorem Leaf.strip_parts {l : Leaf} (nested : l.field.firstHop? = some head) :
    ∃ next rest, l.field.segments = head :: next :: rest ∧ l.strip.field.segments = next :: rest := by
  obtain ⟨next, rest, shape⟩ := FieldPath.firstHop_exact.mp nested
  exact ⟨next, rest, shape, by simp [strip, FieldPath.tail, shape]⟩

namespace Companions

theorem nested (group : Companions head) (member : l ∈ FilterNode.listLeaves group.nodes) :
    l.field.firstHop? = some head := by
  obtain ⟨n, among, leaf⟩ := FilterNode.mem_listLeaves.mp member
  exact (FilterNode.sharedHead_exact.mp (group.shared n among)).2.2 l leaf

theorem some_leaf (group : Companions head) : ∃ l, l ∈ FilterNode.listLeaves group.nodes := by
  obtain ⟨n, among⟩ := List.exists_mem_of_ne_nil _ group.nonempty
  obtain ⟨l, leaf, _⟩ := FilterNode.leaf_of_sharedHead (group.shared n among)
  exact ⟨l, FilterNode.mem_listLeaves.mpr ⟨n, among, leaf⟩⟩

end Companions

theorem FilterNode.arrange_perm (reorder : Bool) (ns : List FilterNode) : (arrange reorder ns).Perm ns := by
  unfold arrange
  split
  · exact List.mergeSort_perm ns _
  · exact .refl _

theorem FilterNode.arrange_nil (reorder : Bool) : arrange reorder [] = [] :=
  List.perm_nil.mp (arrange_perm reorder [])

theorem Sibling.ofNodes_nil : ofNodes [] = [] := rfl

-- The siblings are the children, each once, whatever their order.
theorem Sibling.nodes_arranged (reorder : Bool) (ns : List FilterNode) :
    (nodes (ofNodes (FilterNode.arrange reorder ns))).Perm ns :=
  (nodes_ofNodes _).trans (FilterNode.arrange_perm reorder ns)

namespace Route

mutual
-- What the route comes to when it starts at the end of the path.
def truth (known : Leaf → Truth) (path : FieldPath) : Route → Truth
  | test l => known (l.under path)
  | negate inner => (inner.truth known path).not
  | join op parts => op.value (truths known path parts)
  | through head inner => inner.truth known (path.child head)

def truths (known : Leaf → Truth) (path : FieldPath) : List Route → List Truth
  | [] => []
  | part :: rest => part.truth known path :: truths known path rest
end

theorem truths_ne_nil (known : Leaf → Truth) (path : FieldPath) {parts : List Route} (nonempty : parts ≠ []) :
    truths known path parts ≠ [] := by
  cases parts with
  | nil => exact absurd rfl nonempty
  | cons part rest => simp [truths]

theorem ofSiblings_ne_nil (reorder : Bool) (op : Connective) {siblings : List Sibling}
    (nonempty : Sibling.nodes siblings ≠ []) : ofSiblings reorder op siblings ≠ [] := by
  match siblings with
  | [] => exact absurd rfl nonempty
  | .alone n :: rest => simp [ofSiblings]
  | .together head group :: rest => simp [ofSiblings]

theorem ofNode_flat (reorder : Bool) {l : Leaf} (flat : l.field.firstHop? = none) :
    ofNode reorder (.leaf l) = test l := by
  rw [ofNode]
  split
  · rfl
  · rename_i head nested
    rw [flat] at nested
    cases nested

theorem ofNode_nested (reorder : Bool) {l : Leaf} (nested : l.field.firstHop? = some head) :
    ofNode reorder (.leaf l) = through head (ofNodes reorder .and [.leaf l.strip]) := by
  rw [ofNode]
  split
  · rename_i flat
    rw [nested] at flat
    cases flat
  · rename_i other nested'
    rw [nested] at nested'
    cases Option.some.inj nested'
    rfl

theorem ofNode_connective (reorder : Bool) {op : Combinator} {children : List FilterNode}
    (plain : ∀ child rest, op = .not → children = child :: rest → False) :
    ofNode reorder (.combine op children) = ofNodes reorder (.ofCombinator op) children := by
  rw [ofNode]
  exact plain

-- Each group is one part, so the folds over the parts and over the children agree group by group.
theorem layout_truth (reorder : Bool) (known : Leaf → Truth) :
    ∀ n path, (ofNode reorder n).truth known path = n.kleene fun l => known (l.under path) := by
  apply ofNode.induct reorder
    (fun n => ∀ path, (ofNode reorder n).truth known path = n.kleene fun l => known (l.under path))
    (fun op ns => ∀ path, (ofNodes reorder op ns).truth known path =
      op.value (ns.map (FilterNode.kleene fun l => known (l.under path))))
    (fun op siblings => ∀ path, op.fold (truths known path (ofSiblings reorder op siblings)) =
      op.fold ((Sibling.nodes siblings).map (FilterNode.kleene fun l => known (l.under path))))
  case case1 =>
    intro l flat path
    rw [ofNode_flat reorder flat, truth, FilterNode.kleene]
  case case2 =>
    intro l head nested ih path
    rw [ofNode_nested reorder nested, truth, ih, List.map_singleton, Connective.value_singleton, FilterNode.kleene,
      FilterNode.kleene, Leaf.under_strip path nested]
  case case3 =>
    intro child rest ih path
    rw [ofNode, truth, ih path, FilterNode.kleene]
  case case4 =>
    intro op children plain ih path
    rw [ofNode_connective reorder plain, ih path, FilterNode.kleene_connective _ _ _ plain]
  case case5 =>
    intro op ns ih path
    rw [ofNodes, truth]
    have moved := Sibling.nodes_arranged reorder ns
    by_cases childless : ns = []
    · subst childless
      rw [FilterNode.arrange_nil, Sibling.ofNodes_nil, ofSiblings]
      rfl
    · have nonempty : Sibling.nodes (Sibling.ofNodes (FilterNode.arrange reorder ns)) ≠ [] := by
        intro empty
        rw [empty] at moved
        exact childless moved.nil_eq.symm
      rw [Connective.value_of_ne_nil op (truths_ne_nil known path (ofSiblings_ne_nil reorder op nonempty)), ih path,
        Connective.value_of_ne_nil op (by simpa using childless)]
      exact op.fold_perm (moved.map _)
  case case6 =>
    intro op path
    rw [ofSiblings]
    rfl
  case case7 =>
    intro op n rest here later path
    rw [ofSiblings, truths, Connective.fold_cons, here path, later path, Sibling.nodes, List.map_cons,
      Connective.fold_cons]
  case case8 =>
    intro op head group rest here later path
    have moved : (FilterNode.stripAll group.nodes).map (FilterNode.kleene fun l => known (l.under (path.child head))) =
        group.nodes.map (FilterNode.kleene fun l => known (l.under path)) := by
      rw [← FilterNode.kleenes_eq_map, ← FilterNode.kleenes_eq_map]
      apply FilterNode.kleenes_strip
      intro l member
      rw [Leaf.under_strip path (group.nested member)]
    rw [ofSiblings, truths, Connective.fold_cons, truth, here, moved, later path, Sibling.nodes, List.map_append,
      Connective.fold_append, Connective.value_of_ne_nil op (by simpa using group.nonempty)]

-- The layout of a filter comes to what the filter comes to.
theorem ofNode_truth (reorder : Bool) (known : Leaf → Truth) (n : FilterNode) :
    (ofNode reorder n).truth known .empty = n.kleene known := by
  rw [layout_truth]
  simp only [Leaf.under_empty]

mutual
-- The leaves that the route tests, told from where the path starts.
def leaves (path : FieldPath) : Route → List Leaf
  | test l => [l.under path]
  | negate inner => inner.leaves path
  | join _ parts => listLeaves path parts
  | through head inner => inner.leaves (path.child head)

def listLeaves (path : FieldPath) : List Route → List Leaf
  | [] => []
  | part :: rest => part.leaves path ++ listLeaves path rest
end

-- Nothing is lost and nothing is tested twice, whichever way siblings were grouped and reordered.
theorem layout_leaves (reorder : Bool) :
    ∀ n path, n.NegatesOne → ((ofNode reorder n).leaves path).Perm (n.leaves.map (Leaf.under path)) := by
  apply ofNode.induct reorder
    (fun n => ∀ path, n.NegatesOne → ((ofNode reorder n).leaves path).Perm (n.leaves.map (Leaf.under path)))
    (fun op ns => ∀ path, FilterNode.AllNegateOne ns →
      ((ofNodes reorder op ns).leaves path).Perm ((FilterNode.listLeaves ns).map (Leaf.under path)))
    (fun op siblings => ∀ path, FilterNode.AllNegateOne (Sibling.nodes siblings) →
      (listLeaves path (ofSiblings reorder op siblings)).Perm
        ((FilterNode.listLeaves (Sibling.nodes siblings)).map (Leaf.under path)))
  case case1 =>
    intro l flat path _
    rw [ofNode_flat reorder flat, leaves, FilterNode.leaves]
    exact .refl _
  case case2 =>
    intro l head nested ih path _
    rw [ofNode_nested reorder nested, leaves]
    refine (ih (path.child head) ⟨trivial, trivial⟩).trans ?_
    rw [FilterNode.listLeaves, FilterNode.leaves, FilterNode.leaves, FilterNode.listLeaves, List.append_nil,
      List.map_singleton, List.map_singleton, Leaf.under_strip path nested]
  case case3 =>
    intro child rest ih path sound
    obtain ⟨one, below⟩ := sound
    have alone : rest = [] := by simpa using one rfl
    subst alone
    rw [ofNode, leaves, FilterNode.leaves, FilterNode.listLeaves, FilterNode.listLeaves, List.append_nil]
    exact ih path below.1
  case case4 =>
    intro op children plain ih path sound
    rw [ofNode_connective reorder plain, FilterNode.leaves]
    exact ih path sound.2
  case case5 =>
    intro op ns ih path sound
    have moved := Sibling.nodes_arranged reorder ns
    rw [ofNodes, leaves]
    exact (ih path (FilterNode.allNegateOne_perm moved.symm sound)).trans ((FilterNode.listLeaves_perm moved).map _)
  case case6 =>
    intro op path _
    rw [ofSiblings]
    exact .refl _
  case case7 =>
    intro op n rest here later path sound
    rw [ofSiblings, listLeaves, Sibling.nodes, FilterNode.listLeaves, List.map_append]
    exact (here path sound.1).append (later path sound.2)
  case case8 =>
    intro op head group rest here later path sound
    obtain ⟨grouped, others⟩ := FilterNode.allNegateOne_append.mp sound
    rw [ofSiblings, listLeaves, leaves, Sibling.nodes, FilterNode.listLeaves_append, List.map_append]
    refine .append ((here (path.child head) (FilterNode.allNegateOne_stripAll grouped)).trans ?_) (later path others)
    rw [FilterNode.listLeaves_stripAll, List.map_map]
    refine .of_eq (List.map_congr_left ?_)
    intro l member
    exact Leaf.under_strip path (group.nested member)

theorem ofNode_leaves (reorder : Bool) {n : FilterNode} (valid : n.validate = .ok ()) :
    ((ofNode reorder n).leaves .empty).Perm n.leaves := by
  have all := layout_leaves reorder n .empty (FilterNode.negatesOne_of_valid n valid)
  rwa [List.map_congr_left (fun l _ => l.under_empty), List.map_id'] at all

end Route
end FilterQuery
