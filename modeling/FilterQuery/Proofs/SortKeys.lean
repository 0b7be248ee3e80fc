import FilterQuery.Proofs.Reordering
import FilterQuery.Proofs.SelectNames

namespace FilterQuery

-- A column of what the path leads to, or the least or greatest of the related values.
inductive SortTarget where
  | column (binding column : String)
  -- A column of the related rows, which are found from the parent.
  | related (parent binding : String) (hop : Hop) (column : String)

structure Sorting where
  target : SortTarget
  direction : Direction
  nulls : Nulls

namespace Sorting

-- The least related value going up and the greatest going down, in a SELECT for the row at hand.
def key (s : Sorting) : SortKey :=
  match s.target with
  | .column binding column => ⟨.column (qualifier binding) column, s.direction, s.nulls⟩
  | .related parent binding hop column =>
    let aggregate := match s.direction with
      | .asc => "MIN"
      | .desc => "MAX"
    let values : Select :=
      ⟨hop.related.source, binding, [.func aggregate [.column (some binding) column]], [],
        [correlation parent binding hop.link], [], none, none⟩
    ⟨.scalar values, s.direction, s.nulls⟩

def entry (s : Sorting) : Json :=
  match s.target with
  | .column binding column => sortEntry (searchField binding column) s.direction s.nulls []
  | .related _ binding _ column =>
    let mode := match s.direction with
      | .asc => "min"
      | .desc => "max"
    sortEntry (searchField binding column) s.direction s.nulls
      [("mode", .str mode), ("nested", .single "path" (.str binding))]

end Sorting

namespace Select

def orderedBy (s : Select) (keys : List SortKey) : Select := { s with orders := s.orders ++ keys }

theorem orderedBy_nil (s : Select) : s.orderedBy [] = s := by
  cases s
  simp [orderedBy]

theorem orderedBy_orderedBy (s : Select) (keys further : List SortKey) :
    (s.orderedBy keys).orderedBy further = s.orderedBy (keys ++ further) := by
  simp [orderedBy]

theorem join_orderedBy (s : Select) (keys : List SortKey) (j : Join) :
    (s.orderedBy keys).join j = (s.join j).orderedBy keys :=
  (apply_ite (fun t : Select => t.orderedBy keys) (s.hasJoin j.binding = true) s
    { s with joins := s.joins ++ [j] }).symm

end Select

-- The joins that are added where the bindings are taken already, each binding once.
def Join.fresh (taken : List String) : List Join → List Join
  | [] => []
  | j :: rest => if j.binding ∈ taken then fresh taken rest else j :: fresh (taken ++ [j.binding]) rest

namespace Join

theorem binding_of_fresh {taken : List String} {js : List Join} (member : j ∈ fresh taken js) : j.binding ∉ taken := by
  induction js generalizing taken with
  | nil => cases member
  | cons k rest ih =>
    rw [fresh] at member
    split at member
    · exact ih member
    · rename_i new
      rcases List.mem_cons.mp member with rfl | later
      · exact new
      · exact fun known => ih later (List.mem_append_left _ known)

theorem mem_fresh {taken : List String} {js : List Join} (distinct : ∀ j ∈ js, ∀ k ∈ js, j.binding = k.binding → j = k) :
    j ∈ fresh taken js ↔ j ∈ js ∧ j.binding ∉ taken := by
  induction js generalizing taken with
  | nil => simp [fresh]
  | cons k rest ih =>
    have deeper := fun taken => @ih taken
      (fun j member k member' => distinct j (List.mem_cons_of_mem _ member) k (List.mem_cons_of_mem _ member'))
    rw [fresh]
    split
    · rename_i known
      rw [deeper, List.mem_cons, or_and_right]
      refine (or_iff_right ?_).symm
      rintro ⟨rfl, new⟩
      exact new known
    · rename_i new
      rw [List.mem_cons, deeper, List.mem_cons, or_and_right]
      constructor
      · rintro (rfl | ⟨later, apart⟩)
        · exact .inl ⟨rfl, new⟩
        · exact .inr ⟨later, fun known => apart (List.mem_append_left _ known)⟩
      · rintro (⟨rfl, _⟩ | ⟨later, apart⟩)
        · exact .inl rfl
        · by_cases same : j.binding = k.binding
          · exact .inl (distinct j (List.mem_cons_of_mem _ later) k (List.mem_cons_self ..) same)
          · exact .inr ⟨later, by simp [apart, same]⟩

theorem nodup_fresh (taken : List String) (js : List Join) : (fresh taken js).Nodup := by
  induction js generalizing taken with
  | nil => exact List.nodup_nil
  | cons k rest ih =>
    rw [fresh]
    split
    · exact ih taken
    · refine List.nodup_cons.mpr ⟨?_, ih _⟩
      intro again
      exact binding_of_fresh again (List.mem_append_right _ (List.mem_singleton.mpr rfl))

-- The order that they are given in decides in which order they stand, as long as no two of them share a binding.
theorem fresh_perm (taken : List String) {js ks : List Join}
    (distinct : ∀ j ∈ js, ∀ k ∈ js, j.binding = k.binding → j = k) (members : ∀ j, j ∈ js ↔ j ∈ ks) :
    (fresh taken js).Perm (fresh taken ks) := by
  refine (List.perm_ext_iff_of_nodup (nodup_fresh _ _) (nodup_fresh _ _)).mpr ?_
  intro j
  have distinct' : ∀ j ∈ ks, ∀ k ∈ ks, j.binding = k.binding → j = k :=
    fun j member k member' => distinct j ((members j).mpr member) k ((members k).mpr member')
  rw [mem_fresh distinct, mem_fresh distinct', members]

end Join

theorem Select.foldl_join_fresh (js : List Join) (s : Select) :
    js.foldl join s = s.withJoins (Join.fresh (s.joins.map Join.binding) js) := by
  induction js generalizing s with
  | nil => exact s.withJoins_nil.symm
  | cons j rest ih =>
    have there : s.hasJoin j.binding = true ↔ j.binding ∈ s.joins.map Join.binding := by
      simp only [hasJoin, List.any_eq_true, beq_iff_eq, List.mem_map]
    rw [List.foldl_cons, ih, Join.fresh, join]
    by_cases known : j.binding ∈ s.joins.map Join.binding
    · rw [if_pos (there.mpr known), if_pos known]
    · rw [if_neg (mt there.mp known), if_neg known]
      simp [withJoins]

namespace CompiledQuery

def joining (q : CompiledQuery) (js : List Join) : CompiledQuery :=
  match q with
  | sql d s => sql d (s.withJoins js)
  | search r => search r

theorem foldl_addJoin_joining (js : List Join) (q : CompiledQuery) :
    js.foldl addJoin q = q.joining (Join.fresh (q.joins.map Join.binding) js) := by
  cases q with
  | sql d s => rw [foldl_addJoin_sql, Select.foldl_join_fresh]; rfl
  | search r => exact foldl_addJoin_search js r

def sortedBy (q : CompiledQuery) (keys : List Sorting) : CompiledQuery :=
  match q with
  | sql d s => sql d (s.orderedBy (keys.map Sorting.key))
  | search r => search { r with sort := r.sort ++ keys.map Sorting.entry }

theorem pushOrder_eq (q : CompiledQuery) (binding column : String) (direction : Direction) (nulls : Nulls) :
    q.pushOrder binding column direction nulls = q.sortedBy [⟨.column binding column, direction, nulls⟩] := by
  cases q <;> rfl

theorem pushAggregateOrder_eq (q : CompiledQuery) (parent binding : String) (hop : Hop) (column : String)
    (direction : Direction) (nulls : Nulls) :
    q.pushAggregateOrder parent binding hop.link hop.related column direction nulls =
      q.sortedBy [⟨.related parent binding hop column, direction, nulls⟩] := by
  cases q with
  | sql d s => cases direction <;> rfl
  | search r =>
    have mode : Direction.asc.aggregate.toLower = "min" ∧ Direction.desc.aggregate.toLower = "max" := by decide +kernel
    cases direction
    · rw [pushAggregateOrder, mode.1]
      rfl
    · rw [pushAggregateOrder, mode.2]
      rfl

@[simp] theorem sortedBy_nil (q : CompiledQuery) : q.sortedBy [] = q := by
  cases q <;> simp [sortedBy, Select.orderedBy_nil]

@[simp] theorem sortedBy_sortedBy (q : CompiledQuery) (keys further : List Sorting) :
    (q.sortedBy keys).sortedBy further = q.sortedBy (keys ++ further) := by
  cases q <;> simp [sortedBy, Select.orderedBy_orderedBy]

@[simp] theorem kind_sortedBy (q : CompiledQuery) (keys : List Sorting) : (q.sortedBy keys).kind = q.kind := by
  cases q <;> rfl

@[simp] theorem rootBinding_sortedBy (q : CompiledQuery) (keys : List Sorting) :
    (q.sortedBy keys).rootBinding = q.rootBinding := by
  cases q <;> rfl

theorem kind_foldl_addJoin (js : List Join) (q : CompiledQuery) : (js.foldl addJoin q).kind = q.kind :=
  kind_of_unjoined (unjoined_foldl js q)

theorem rootBinding_foldl_addJoin (js : List Join) (q : CompiledQuery) :
    (js.foldl addJoin q).rootBinding = q.rootBinding := by
  rw [← rootBinding_unjoined, unjoined_foldl, rootBinding_unjoined]

theorem sortedBy_addJoin (q : CompiledQuery) (keys : List Sorting) (j : Join) :
    (q.sortedBy keys).addJoin j = (q.addJoin j).sortedBy keys := by
  cases q with
  | search r => rfl
  | sql d s => exact congrArg (sql d) (s.join_orderedBy _ j)

theorem foldl_addJoin_sortedBy (js : List Join) (q : CompiledQuery) (keys : List Sorting) :
    js.foldl addJoin (q.sortedBy keys) = (js.foldl addJoin q).sortedBy keys := by
  induction js generalizing q with
  | nil => rfl
  | cons j rest ih => rw [List.foldl_cons, List.foldl_cons, sortedBy_addJoin, ih]

end CompiledQuery

namespace OrderContext

variable {c : OrderContext} {base : CompiledQuery}

-- Names that lead to something to sort by. Bindings are those of the base.
inductive SortsBy (c : OrderContext) (base : CompiledQuery) : Scope → List String → SortTarget → Prop where
  | here {scope : Scope} : c.sortable scope.queryable name = .ok f →
      SortsBy c base scope [name] (.column scope.binding f.column)
  | one {scope : Scope} : c.resolver.cross? c.adapter scope.queryable name = some hop → hop.link.cardinality = .one →
      SortsBy c base (scope.enter base name hop) (next :: rest) target →
        SortsBy c base scope (name :: next :: rest) target
  | many {scope : Scope} : c.resolver.cross? c.adapter scope.queryable name = some hop → hop.link.cardinality = .many →
      c.options.ordersThrough (scope.path.child name) = true → c.sortable hop.related last = .ok f →
        SortsBy c base scope [name, last]
          (.related scope.binding (base.bindingFor (scope.path.child name)) hop f.column)

theorem aggregate_exact {scope : Scope} {path : FieldPath} {hop : Hop} {rest : List String} {q sorted : CompiledQuery} :
    c.aggregate scope path hop rest q = .ok sorted ↔ c.options.ordersThrough path = true ∧
      ∃ last f, rest = [last] ∧ c.sortable hop.related last = .ok f ∧
        sorted = q.sortedBy [⟨.related scope.binding (q.bindingFor path) hop f.column, c.term.direction, c.term.nulls⟩] := by
  unfold aggregate
  cases opened : c.options.ordersThrough path with
  | false => simp
  | true =>
    simp only [Bool.not_true, Bool.false_eq_true, if_false, true_and]
    constructor
    · intro pushed
      split at pushed
      · rename_i last
        obtain ⟨f, found, pushed⟩ := bind_exact.mp pushed
        cases pushed
        exact ⟨last, f, rfl, found, CompiledQuery.pushAggregateOrder_eq ..⟩
      · cases pushed
    · rintro ⟨last, f, rfl, found, rfl⟩
      rw [← CompiledQuery.pushAggregateOrder_eq]
      exact bind_exact.mpr ⟨f, found, rfl⟩

theorem wants_one {root : Queryable} {scope : Scope} {rest : List String}
    (crossed : c.resolver.cross? c.adapter scope.queryable name = some hop) (one : hop.link.cardinality = .one) :
    c.wants root scope base (name :: next :: rest) =
      Bound.of root scope [] base name hop :: c.wants root (scope.enter base name hop) base (next :: rest) := by
  rw [wants, crossed]
  simp only [one]

theorem wants_many {root : Queryable} {scope : Scope} {rest : List String}
    (crossed : c.resolver.cross? c.adapter scope.queryable name = some hop) (many : hop.link.cardinality = .many) :
    c.wants root scope base (name :: next :: rest) = [] := by
  rw [wants, crossed]
  simp only [many]

-- The walk over the names finds what they sort by, and joins what is to-one on the way.
theorem walk_exact (root : Queryable) {names : List String} {scope : Scope} {q sorted : CompiledQuery}
    (kind : q.kind = base.kind) : c.walk scope q names = .ok sorted ↔ ∃ target, c.SortsBy base scope names target ∧
      sorted = (((c.wants root scope base names).map Bound.join).foldl .addJoin q).sortedBy
        [⟨target, c.term.direction, c.term.nulls⟩] := by
  induction names generalizing scope q sorted with
  | nil =>
    constructor
    · intro accepted
      cases accepted
    · rintro ⟨target, sorts, _⟩
      cases sorts
  | cons name later ih =>
    cases later with
    | nil =>
      rw [walk, bind_exact]
      constructor
      · rintro ⟨f, found, pushed⟩
        cases pushed
        exact ⟨_, .here found, CompiledQuery.pushOrder_eq ..⟩
      · rintro ⟨target, sorts, rfl⟩
        cases sorts with
        | here found =>
          rename_i f
          refine ⟨f, found, ?_⟩
          rw [CompiledQuery.pushOrder_eq]
          rfl
    | cons next rest =>
      rw [walk_parts]
      have binding := CompiledQuery.bindingFor_of_kind kind (scope.path.child name)
      have entered : ∀ hop, scope.enter q name hop = scope.enter base name hop := by
        intro hop
        rw [Scope.enter, Scope.enter, binding]
      have joined : ∀ hop : Hop, (q.bindToOne scope.binding (base.bindingFor (scope.path.child name)) hop.link
          hop.related).kind = base.kind := by
        intro hop
        rw [CompiledQuery.kind_bindToOne, kind]
      constructor
      · rintro ⟨hop, crossed, ⟨one, further⟩ | ⟨many, further⟩⟩
        · rw [entered, binding] at further
          obtain ⟨target, sorts, rfl⟩ := (ih (joined hop)).mp further
          refine ⟨target, .one crossed one sorts, ?_⟩
          rw [wants_one crossed one, List.map_cons, List.foldl_cons, CompiledQuery.bindToOne_eq]
          rfl
        · obtain ⟨opened, last, f, shape, found, rfl⟩ := aggregate_exact.mp further
          cases shape
          rw [binding, wants_many crossed many]
          exact ⟨_, .many crossed many opened found, rfl⟩
      · rintro ⟨target, sorts, rfl⟩
        cases sorts with
        | one crossed one sorts =>
          rename_i hop
          refine ⟨hop, crossed, .inl ⟨one, ?_⟩⟩
          rw [entered, binding, wants_one crossed one, List.map_cons, List.foldl_cons]
          refine (ih (joined hop)).mpr ⟨target, sorts, ?_⟩
          rw [CompiledQuery.bindToOne_eq]
          rfl
        | many crossed many opened found =>
          rename_i hop f
          refine ⟨hop, crossed, .inr ⟨many, aggregate_exact.mpr ⟨opened, _, f, rfl, found, ?_⟩⟩⟩
          rw [binding, wants_many crossed many]
          rfl

-- What is joined is bound along a path on the way of the names, and goes by it.
theorem wants_byPath {root : Queryable} {names : List String} {scope : Scope} (served : c.adapter = root.adapter)
    (placed : scope.Placed c.resolver root.adapter root base) : ∀ b ∈ c.wants root scope base names,
      b.root = root ∧ b.path ∈ scope.path.hopsTo names ∧ b.ByPath c.resolver base := by
  induction names generalizing scope with
  | nil => simp [wants]
  | cons name later ih =>
    cases later with
    | nil => simp [wants]
    | cons next rest =>
      intro b member
      cases found : c.resolver.cross? c.adapter scope.queryable name with
      | none => simp [wants, found] at member
      | some hop =>
        cases cardinality : hop.link.cardinality with
        | many => simp [wants_many found cardinality] at member
        | one =>
          rw [wants_one found cardinality] at member
          rw [FieldPath.hopsTo]
          rw [served] at found
          rcases List.mem_cons.mp member with rfl | deeper
          · exact ⟨rfl, List.mem_cons_self .., scope.path, name, scope.queryable, rfl, placed.reached, found,
              placed.bound, rfl⟩
          · obtain ⟨led, among, byPath⟩ := ih (placed.enter_placed found rfl) b deeper
            exact ⟨led, List.mem_cons_of_mem _ among, byPath⟩

end OrderContext

namespace Resolver

variable {r : Resolver} {a : Adapter} {root : Queryable} {options : CompileOptions} {base q : CompiledQuery}

-- The associations that are joined on the way of the terms.
def orderWants (r : Resolver) (a : Adapter) (root : Queryable) (options : CompileOptions) (base : CompiledQuery)
    (terms : List OrderTerm) : List Bound :=
  terms.flatMap fun term =>
    OrderContext.wants ⟨r, a, options, term⟩ root (.root root base.rootBinding) base term.path.segments

-- The key of the term.
structure SortsBy (r : Resolver) (a : Adapter) (root : Queryable) (options : CompileOptions) (base : CompiledQuery)
    (term : OrderTerm) (key : Sorting) : Prop where
  target : OrderContext.SortsBy ⟨r, a, options, term⟩ base (.root root base.rootBinding) term.path.segments key.target
  direction : key.direction = term.direction
  nulls : key.nulls = term.nulls

theorem orderBy_exact (base : CompiledQuery) {terms : List OrderTerm} {sorted : CompiledQuery} (kind : q.kind = base.kind)
    (rooted : q.rootBinding = base.rootBinding) : r.orderBy a root options q terms = .ok sorted ↔
      (∀ term ∈ terms, r.checkDepth term.path = .ok ()) ∧
        ∃ keys, List.Forall₂ (r.SortsBy a root options base) terms keys ∧
          sorted = (((r.orderWants a root options base terms).map Bound.join).foldl .addJoin q).sortedBy keys := by
  induction terms generalizing q sorted with
  | nil =>
    simp only [orderBy, Except.ok.injEq, List.not_mem_nil, false_imp_iff, implies_true, true_and,
      List.forall₂_nil_left_iff, exists_eq_left, CompiledQuery.sortedBy_nil]
    exact eq_comm
  | cons term rest ih =>
    have onward : ∀ (js : List Join) (key : Sorting), ((js.foldl CompiledQuery.addJoin q).sortedBy [key]).kind = base.kind ∧
        ((js.foldl CompiledQuery.addJoin q).sortedBy [key]).rootBinding = base.rootBinding := by
      intro js key
      rw [CompiledQuery.kind_sortedBy, CompiledQuery.rootBinding_sortedBy, CompiledQuery.kind_foldl_addJoin,
        CompiledQuery.rootBinding_foldl_addJoin]
      exact ⟨kind, rooted⟩
    -- The joins of the terms after it are added to a query that sorts by this one already.
    have together : ∀ (js more : List Join) (key : Sorting) (keys : List Sorting),
        (more.foldl CompiledQuery.addJoin ((js.foldl .addJoin q).sortedBy [key])).sortedBy keys =
          ((js ++ more).foldl .addJoin q).sortedBy (key :: keys) := by
      intro js more key keys
      rw [CompiledQuery.foldl_addJoin_sortedBy, CompiledQuery.sortedBy_sortedBy, List.foldl_append, List.singleton_append]
    rw [orderBy_parts, rooted, orderWants, List.flatMap_cons, List.map_append]
    simp only [OrderContext.walk_exact root kind]
    constructor
    · rintro ⟨shallow, _, ⟨target, sorts, rfl⟩, later⟩
      obtain ⟨deep, keys, all, rfl⟩ := (ih (onward _ _).1 (onward _ _).2).mp later
      have first : r.SortsBy a root options base term ⟨target, term.direction, term.nulls⟩ := ⟨sorts, rfl, rfl⟩
      exact ⟨List.forall_mem_cons.mpr ⟨shallow, deep⟩, _, .cons first all, together ..⟩
    · rintro ⟨shallow, _, all, rfl⟩
      obtain ⟨here, deep⟩ := List.forall_mem_cons.mp shallow
      cases all with
      | cons sorts all =>
        rename_i key keys
        obtain ⟨target, direction, nulls⟩ := key
        obtain ⟨sorts, rfl, rfl⟩ := sorts
        exact ⟨here, _, ⟨target, sorts, rfl⟩,
          (ih (onward _ _).1 (onward _ _).2).mpr ⟨deep, keys, all, (together ..).symm⟩⟩

theorem applyOrder_parts {terms : List OrderTerm} {sorted : CompiledQuery} :
    r.applyOrder q root terms options = .ok sorted ↔ terms = [] ∧ sorted = q ∨
      terms ≠ [] ∧ (∀ term ∈ terms, options.access.allows term.path = true) ∧
        ∃ a, r.adapterFor root = .ok a ∧ r.orderBy a root options q terms = .ok sorted := by
  unfold applyOrder
  cases terms with
  | nil =>
    simp only [List.isEmpty_nil, if_true, Except.ok.injEq, true_and, ne_eq, not_true_eq_false, false_and, or_false]
    exact eq_comm
  | cons term rest =>
    simp only [List.isEmpty_cons, Bool.false_eq_true, if_false, bind_exact, reduceCtorEq, false_and, false_or,
      ne_eq, not_false_eq_true, true_and]
    constructor
    · rintro ⟨_, permitted, further⟩
      exact ⟨List.forall_mem_map.mp (FieldAccess.check_exact.mp permitted), further⟩
    · rintro ⟨permitted, further⟩
      exact ⟨(), FieldAccess.check_exact.mpr (List.forall_mem_map.mpr permitted), further⟩

end Resolver
end FilterQuery
