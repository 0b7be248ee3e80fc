import FilterQuery.Proofs.QueryKinds
import FilterQuery.Proofs.Siblings

namespace FilterQuery

namespace FilterNode

theorem mem_addNew [DecidableEq α] {seen : List α} {x y : α} : y ∈ addNew seen x ↔ y ∈ seen ∨ y = x := by
  unfold addNew
  split
  · rename_i known
    constructor
    · exact .inl
    · rintro (before | rfl)
      · exact before
      · exact known
  · simp

theorem mem_foldl_addNew [DecidableEq α] (xs seen : List α) : y ∈ xs.foldl addNew seen ↔ y ∈ seen ∨ y ∈ xs := by
  induction xs generalizing seen with
  | nil => simp
  | cons x rest ih => rw [List.foldl_cons, ih, mem_addNew, List.mem_cons, or_assoc]

theorem mem_referencedPaths {n : FilterNode} : path ∈ n.referencedPaths ↔ ∃ l ∈ n.leaves, l.field = path := by
  rw [referencedPaths, mem_foldl_addNew]
  simp

theorem forall_referencedPaths {n : FilterNode} {good : FieldPath → Prop} :
    (∀ path ∈ n.referencedPaths, good path) ↔ ∀ l ∈ n.leaves, good l.field := by
  simp only [mem_referencedPaths, forall_exists_index, and_imp, forall_apply_eq_imp_iff₂]

mutual
theorem valid_leaf (n : FilterNode) (valid : n.validate = .ok ()) : ∀ l ∈ n.leaves, (leaf l).validate = .ok () := by
  cases n with
  | leaf l => simpa [leaves] using valid
  | combine op children =>
    rw [leaves]
    cases op with
    | and => exact valid_leaves children valid
    | or => exact valid_leaves children valid
    | not =>
      rw [validate] at valid
      split at valid
      · exact valid_leaves children valid
      · cases valid

theorem valid_leaves (nodes : List FilterNode) (valid : validateAll nodes = .ok ()) :
    ∀ l ∈ listLeaves nodes, (leaf l).validate = .ok () := by
  cases nodes with
  | nil => simp [listLeaves]
  | cons n rest =>
    obtain ⟨_, first, later⟩ := bind_exact.mp valid
    intro l member
    rcases List.mem_append.mp member with among | among
    · exact valid_leaf n first l among
    · exact valid_leaves rest later l among
end

end FilterNode

namespace FieldAccess

theorem noteDenied_nil {access : FieldAccess} {denied : List String} {path : FieldPath} :
    access.noteDenied denied path = [] ↔ denied = [] ∧ access.allows path = true := by
  unfold noteDenied
  split
  · rename_i passed
    constructor
    · rintro rfl
      exact ⟨rfl, by simpa using passed⟩
    · exact And.left
  · rename_i refused
    constructor
    · intro empty
      simp at empty
    · rintro ⟨rfl, allowed⟩
      simp [allowed] at refused

theorem foldl_noteDenied_nil (access : FieldAccess) (paths : List FieldPath) (denied : List String) :
    paths.foldl access.noteDenied denied = [] ↔ denied = [] ∧ ∀ path ∈ paths, access.allows path = true := by
  induction paths generalizing denied with
  | nil => simp
  | cons path rest ih => rw [List.foldl_cons, ih, noteDenied_nil, List.forall_mem_cons, and_assoc]

theorem check_exact {access : FieldAccess} {paths : List FieldPath} :
    access.check paths = .ok () ↔ ∀ path ∈ paths, access.allows path = true := by
  have passes := access.foldl_noteDenied_nil paths []
  simp only [true_and] at passes
  rw [← passes, check, denied]
  split
  · rename_i passed
    simp [passed]
  · rename_i fields refused
    simpa using refused

end FieldAccess

theorem Resolver.checkDepths_exact {r : Resolver} {paths : List FieldPath} :
    r.checkDepths paths = .ok () ↔ ∀ path ∈ paths, r.checkDepth path = .ok () := by
  induction paths with
  | nil => simp [checkDepths]
  | cons path rest ih =>
    rw [checkDepths, bind_exact, List.forall_mem_cons, ← ih]
    exact ⟨fun ⟨_, here, later⟩ => ⟨here, later⟩, fun ⟨here, later⟩ => ⟨(), here, later⟩⟩

namespace Route

variable {c : FilterContext}

-- A leaf behind an association is accepted when it is from the definition on the other side.
theorem cleared_strip (reorder : Bool) {l : Leaf} (nested : l.field.firstHop? = some head) {owner : Queryable} :
    (ofNode reorder (.leaf l)).Cleared c owner ↔ ∃ hop, c.resolver.cross? c.adapter owner head = some hop ∧
      (ofNode reorder (.leaf l.strip)).Cleared c hop.related := by
  have alone : ∀ l : Leaf, ∀ owner,
      (ofNodes reorder .and [.leaf l]).Cleared c owner ↔ (ofNode reorder (.leaf l)).Cleared c owner := by
    intro l owner
    cases start : l.field.firstHop? with
    | none =>
      have headless : (FilterNode.leaf l).sharedHead? = none := by
        simp [FilterNode.sharedHead?, FilterNode.leaves, start]
      rw [ofNodes_alone reorder .and headless, Cleared, AllCleared, AllCleared, and_true]
    | some head =>
      have shared : ∀ n ∈ [FilterNode.leaf l], n.sharedHead? = some head := by
        simp [FilterNode.sharedHead?, FilterNode.leaves, start]
      rw [ofNodes_shared reorder .and (List.cons_ne_nil _ _) shared, ofNode_nested reorder start, Cleared, AllCleared,
        AllCleared, and_true]
      rfl
  rw [ofNode_nested reorder nested, Cleared]
  simp only [alone]

-- Siblings walked together cross the association as each of their leaves would alone.
theorem cleared_together (reorder : Bool) (group : Companions head) {owner : Queryable} :
    (∃ hop, c.resolver.cross? c.adapter owner head = some hop ∧
      ∀ l ∈ FilterNode.listLeaves (FilterNode.stripAll group.nodes),
        (ofNode reorder (.leaf l)).Cleared c hop.related) ↔
      ∀ l ∈ FilterNode.listLeaves group.nodes, (ofNode reorder (.leaf l)).Cleared c owner := by
  simp only [FilterNode.listLeaves_stripAll, List.forall_mem_map]
  constructor
  · rintro ⟨hop, crossed, each⟩ l member
    exact (cleared_strip reorder (group.nested member)).mpr ⟨hop, crossed, each l member⟩
  · intro each
    obtain ⟨first, among⟩ := group.some_leaf
    obtain ⟨hop, crossed, _⟩ := (cleared_strip reorder (group.nested among)).mp (each first among)
    refine ⟨hop, crossed, ?_⟩
    intro l member
    obtain ⟨hop', crossed', cleared⟩ := (cleared_strip reorder (group.nested member)).mp (each l member)
    rw [crossed] at crossed'
    cases Option.some.inj crossed'
    exact cleared

-- However the tree is laid out, its leaves are accepted there when each is on a route of its own.
theorem ofNode_cleared (reorder : Bool) : ∀ n owner, n.NegatesOne →
    ((ofNode reorder n).Cleared c owner ↔ ∀ l ∈ n.leaves, (ofNode reorder (.leaf l)).Cleared c owner) := by
  apply ofNode.induct reorder
    (fun n => ∀ owner, n.NegatesOne →
      ((ofNode reorder n).Cleared c owner ↔ ∀ l ∈ n.leaves, (ofNode reorder (.leaf l)).Cleared c owner))
    (fun op ns => ∀ owner, FilterNode.AllNegateOne ns →
      ((ofNodes reorder op ns).Cleared c owner ↔
        ∀ l ∈ FilterNode.listLeaves ns, (ofNode reorder (.leaf l)).Cleared c owner))
    (fun op siblings => ∀ owner, FilterNode.AllNegateOne (Sibling.nodes siblings) →
      (AllCleared c owner (ofSiblings reorder op siblings) ↔
        ∀ l ∈ FilterNode.listLeaves (Sibling.nodes siblings), (ofNode reorder (.leaf l)).Cleared c owner))
  case case1 | case2 =>
    intros
    simp only [FilterNode.leaves, List.mem_singleton, forall_eq]
  case case3 =>
    intro child rest ih owner sound
    obtain ⟨one, below⟩ := sound
    have alone : rest = [] := by simpa using one rfl
    subst alone
    rw [ofNode, Cleared, FilterNode.leaves, FilterNode.listLeaves, FilterNode.listLeaves, List.append_nil]
    exact ih owner below.1
  case case4 =>
    intro op children plain ih owner sound
    rw [ofNode_connective reorder plain, FilterNode.leaves]
    exact ih owner sound.2
  case case5 =>
    intro op ns ih owner sound
    have moved := Sibling.nodes_arranged reorder ns
    rw [ofNodes, Cleared, ih owner (FilterNode.allNegateOne_perm moved.symm sound)]
    simp only [(FilterNode.listLeaves_perm moved).mem_iff]
  case case6 =>
    intro op owner _
    simp [ofSiblings, AllCleared, Sibling.nodes, FilterNode.listLeaves]
  case case7 =>
    intro op n rest here later owner sound
    rw [ofSiblings, AllCleared, Sibling.nodes, FilterNode.listLeaves, List.forall_mem_append, here owner sound.1,
      later owner sound.2]
  case case8 =>
    intro op head group rest here later owner sound
    obtain ⟨grouped, others⟩ := FilterNode.allNegateOne_append.mp sound
    rw [ofSiblings, AllCleared, Cleared, Sibling.nodes, FilterNode.listLeaves_append, List.forall_mem_append,
      later owner others, ← cleared_together]
    simp only [here _ (FilterNode.allNegateOne_stripAll grouped)]

end Route

namespace Resolver

-- What is asked of one leaf, told by its own path.
structure Admits (r : Resolver) (a : Adapter) (q : Queryable) (options : CompileOptions) (l : Leaf) : Prop where
  permitted : options.access.allows l.field = true
  shallow : r.checkDepth l.field = .ok ()
  cleared : (Route.ofNode r.settings.reorder (.leaf l)).Cleared ⟨r, a, options⟩ q

variable {r : Resolver} {a : Adapter} {q : Queryable} {filter : FilterNode} {options : CompileOptions}

theorem compileFilter_admits (served : r.adapterFor q = .ok a) (valid : filter.validate = .ok ()) :
    (∃ query, r.compileFilter q filter options = .ok query) ↔ ∀ l ∈ filter.leaves, r.Admits a q options l := by
  let c : FilterContext := ⟨r, a, options⟩
  obtain ⟨grouped, _⟩ := Route.ofNode_grouped r.settings.reorder filter
  have apart : (Route.ofNode r.settings.reorder filter).Cleared c q ↔
      ∀ l ∈ filter.leaves, (Route.ofNode r.settings.reorder (.leaf l)).Cleared c q :=
    Route.ofNode_cleared _ filter q (filter.negatesOne_of_valid valid)
  constructor
  · rintro ⟨query, accepted⟩ l member
    have leafy : filter.leaves ≠ [] := List.ne_nil_of_mem member
    obtain ⟨_, permitted, shallow, compiled⟩ := (compileFilter_exact leafy served).mp ⟨query, accepted⟩
    have cleared := apart.mp ((Route.compile_exact _ grouped _ _).mp compiled)
    rw [FieldAccess.check_exact, FilterNode.forall_referencedPaths] at permitted
    rw [checkDepths_exact, FilterNode.forall_referencedPaths] at shallow
    exact ⟨permitted l member, shallow l member, cleared l member⟩
  · intro each
    have permitted : options.access.check filter.referencedPaths = .ok () := by
      rw [FieldAccess.check_exact, FilterNode.forall_referencedPaths]
      exact fun l member => (each l member).permitted
    have shallow : r.checkDepths filter.referencedPaths = .ok () := by
      rw [checkDepths_exact, FilterNode.forall_referencedPaths]
      exact fun l member => (each l member).shallow
    have compiles : ∃ p joined, (Route.ofNode r.settings.reorder filter).compile c
        (.root q (CompiledQuery.forQueryable q).rootBinding) (.forQueryable q) = .ok (p, joined) :=
      (Route.compile_exact _ grouped _ _).mpr (apart.mpr fun l member => (each l member).cleared)
    obtain ⟨p, joined, compiled⟩ := compiles
    exact compileFilter_of_route served valid permitted shallow compiled

-- Accepted as a whole is accepted leaf by leaf, in whichever part of the tree the leaf stands.
theorem compileFilter_leaves (served : r.adapterFor q = .ok a) (valid : filter.validate = .ok ()) :
    (∃ query, r.compileFilter q filter options = .ok query) ↔
      ∀ l ∈ filter.leaves, ∃ query, r.compileFilter q (.leaf l) options = .ok query := by
  rw [compileFilter_admits served valid]
  have alone : ∀ l ∈ filter.leaves,
      ((∃ query, r.compileFilter q (.leaf l) options = .ok query) ↔ r.Admits a q options l) := by
    intro l member
    rw [compileFilter_admits served (filter.valid_leaf valid l member)]
    simp [FilterNode.leaves]
  constructor
  · exact fun each l member => (alone l member).mpr (each l member)
  · exact fun each l member => (alone l member).mp (each l member)

end Resolver

def track : Queryable :=
  ((Queryable.new "Track" "tracks" .sqlite).withColumn "title" "text" false).withColumn "seconds" "integer" false

def album : Queryable :=
  ((Queryable.new "Album" "albums" .sqlite).withColumn "name" "text" false).hasMany "tracks" "Track" "album_id"

def albumResolver : Resolver :=
  { Resolver.ofAdapters .standard .standard with registry := (Registry.empty.register album).register track }

-- The childless AND is true, whatever the negation of the two tests comes to.
def anythingOrNoTrack (seconds : Json) : FilterNode :=
  .combine .or [
    .combine .and [],
    .combine .not [.combine .and [
      .leaf ⟨⟨["tracks", "title"]⟩, .eq, .str "a"⟩,
      .leaf ⟨⟨["tracks", "seconds"]⟩, .gt, seconds⟩]]]

theorem anythingOrNoTrack_leaves :
    albumResolver.adapterFor album = .ok .sqlite ∧ (∀ seconds, (anythingOrNoTrack seconds).validate = .ok ()) ∧
      (∀ l ∈ (anythingOrNoTrack (.int 300)).leaves,
        ∃ query, albumResolver.compileFilter album (.leaf l) .standard = .ok query) ∧
      ¬∀ l ∈ (anythingOrNoTrack (.str "long")).leaves,
        ∃ query, albumResolver.compileFilter album (.leaf l) .standard = .ok query := by
  have served : albumResolver.adapterFor album = .ok .sqlite := by rfl
  have valid : ∀ seconds, (anythingOrNoTrack seconds).validate = .ok () := fun _ => rfl
  have accepted : (albumResolver.compileFilter album (anythingOrNoTrack (.int 300)) .standard).isOk = true := by
    decide +kernel
  have refused : (albumResolver.compileFilter album (anythingOrNoTrack (.str "long")) .standard).isOk = false := by
    decide +kernel
  refine ⟨served, valid, (Resolver.compileFilter_leaves served (valid _)).mp (ok_of_isOk accepted), ?_⟩
  intro each
  obtain ⟨query, compiled⟩ := (Resolver.compileFilter_leaves served (valid _)).mpr each
  rw [compiled] at refused
  cases refused

end FilterQuery
