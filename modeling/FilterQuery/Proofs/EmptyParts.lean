import FilterQuery.Proofs.LeafAcceptance
import FilterQuery.Proofs.Loosening

namespace FilterQuery

namespace FilterNode

variable {n m : FilterNode}

theorem kleene_lax (lax : n.Lax) (truth : Leaf → Truth) : n.kleene truth = .true := by
  obtain ⟨children, rfl, e, member, empty⟩ := lax
  have decided : Connective.or.absorbing ∈ children.map (kleene truth) := by
    rw [show Connective.or.absorbing = e.kleene truth from (e.kleene_of_empty truth empty).symm]
    exact List.mem_map_of_mem member
  rw [kleene_connective truth .or children (by simp)]
  exact (Connective.or.value_of_ne_nil (List.ne_nil_of_mem decided)).trans (Connective.or.fold_absorbing decided)

theorem kleene_freed (freed : n.Freed m) (truth : Leaf → Truth) : m.kleene truth = n.kleene truth := by
  induction freed with
  | @here n m lax empty => rw [kleene_lax lax, m.kleene_of_empty truth empty]
  | @inside op before after n m _ ih =>
    by_cases negation : op = .not
    · subst negation
      cases before with
      | nil => rw [List.nil_append, List.nil_append, kleene, kleene, ih]
      | cons first rest => rw [List.cons_append, List.cons_append, kleene, kleene]
    · rw [kleene_connective truth op _ fun _ _ same _ => negation same,
        kleene_connective truth op _ fun _ _ same _ => negation same, List.map_append, List.map_append, List.map_cons,
        List.map_cons, ih]

theorem validate_freed (freed : n.Freed m) (valid : n.validate = .ok ()) : m.validate = .ok () := by
  induction freed with
  | here lax empty => exact validate_of_empty _ empty
  | @inside op before after n m _ ih =>
    have all : validateAll (before ++ n :: after) = .ok () → validateAll (before ++ m :: after) = .ok () := by
      rw [validateAll_exact, validateAll_exact]
      intro each child member
      rcases List.mem_append.mp member with early | late
      · exact each child (List.mem_append_left _ early)
      · rcases List.mem_cons.mp late with rfl | later
        · exact ih (each n (List.mem_append_right _ (List.mem_cons_self ..)))
        · exact each child (List.mem_append_right _ (List.mem_cons_of_mem _ later))
    cases op with
    | and => exact all valid
    | or => exact all valid
    | not =>
      have length : (before ++ m :: after).length = (before ++ n :: after).length := by simp
      rw [validate] at valid
      rw [validate, length]
      split at valid
      · rename_i one
        rw [if_pos one]
        exact all valid
      · cases valid

end FilterNode

theorem CompiledQuery.source_andPredicate {q narrowed : CompiledQuery} (accepted : q.andPredicate? p = some narrowed) :
    narrowed.source = q.source := by
  cases q <;> cases p <;> first | cases accepted; done | skip
  · cases Option.some.inj accepted
    rfl
  · cases Option.some.inj accepted
    rfl

namespace Resolver

variable {r : Resolver} {q : Queryable} {filter other : FilterNode} {options : CompileOptions}
  {query moved : CompiledQuery} {d : Database}

-- What is found are the rows of the root that the route is true of.
theorem compileFilter_found (accepted : r.compileFilter q filter options = .ok query) (keeps : d.KeepsRows)
    (outer : d.Row) :
    d.rows outer query.source = d.rows outer (CompiledQuery.forQueryable q).source ∧
      ∀ row, query.truthOn d row = (Route.ofNode r.settings.reorder filter).truthOn ⟨r, q.adapter, options⟩ d
        (.root q (CompiledQuery.forQueryable q).rootBinding) (.forQueryable q) row := by
  obtain ⟨a, served⟩ := (compileFilter_parts.mp accepted).1
  obtain rfl := AdapterSet.forQueryable_exact served
  obtain ⟨_, _, _, p, joined, compiled, narrows⟩ := (compileFilter_route served).mp accepted
  have unjoined := Route.compile_joins _ compiled
  refine ⟨?_, ?_⟩
  · rw [CompiledQuery.source_andPredicate narrows, CompiledQuery.rows_of_unjoined keeps unjoined]
  · intro row
    rw [← CompiledQuery.truth_valuation, CompiledQuery.truth_andPredicate _ narrows,
      ← CompiledQuery.truth_unjoined _ joined, unjoined, CompiledQuery.truth_unjoined, CompiledQuery.truth_forQueryable,
      Truth.true_and, Predicate.truth_valuation]
    exact Route.compile_truthOn _ keeps rfl (CompiledQuery.kind_forQueryable q).symm compiled row

theorem found_congr (accepted : r.compileFilter q filter options = .ok query)
    (accepted' : r.compileFilter q other options = .ok moved) (keeps : d.KeepsRows)
    (same : ∀ row, query.truthOn d row = moved.truthOn d row) (outer : d.Row) :
    query.found d outer = moved.found d outer := by
  rw [CompiledQuery.found, CompiledQuery.found, (compileFilter_found accepted keeps outer).1,
    (compileFilter_found accepted' keeps outer).1]
  simp only [same]

theorem found_forQueryable (q : Queryable) (outer : d.Row) :
    (CompiledQuery.forQueryable q).found d outer = d.rows outer (CompiledQuery.forQueryable q).source := by
  refine List.filter_eq_self.mpr ?_
  intro row _
  rw [← CompiledQuery.truth_valuation, CompiledQuery.truth_forQueryable]
  rfl

-- What is left has leaves that compiled before.
theorem compiles_freed (freed : filter.Freed other) (accepted : r.compileFilter q filter options = .ok query) :
    ∃ moved, r.compileFilter q other options = .ok moved := by
  obtain ⟨a, served⟩ := (compileFilter_parts.mp accepted).1
  have valid := valid_of_compiled accepted
  have each := (compileFilter_admits served valid).mp ⟨query, accepted⟩
  refine (compileFilter_admits served (FilterNode.validate_freed freed valid)).mpr ?_
  exact fun l member => each l (FilterNode.freed_leaves freed l member)

theorem found_toOne (freed : filter.Freed other) (accepted : r.compileFilter q filter options = .ok query)
    (accepted' : r.compileFilter q other options = .ok moved) (keeps : d.KeepsRows)
    (toOne : ∀ l ∈ filter.leaves, r.CrossesToOne q.adapter q l.field.segments) (outer : d.Row) :
    query.found d outer = moved.found d outer := by
  refine found_congr accepted accepted' keeps ?_ outer
  intro row
  have same := truth_of_kleene toOne accepted accepted' (FilterNode.freed_leaves freed)
    (fun truth => FilterNode.kleene_freed freed truth) (d.valuation row)
  rw [← CompiledQuery.truth_valuation, ← CompiledQuery.truth_valuation, same]

theorem found_loosened (loosened : filter.Loosened r q.adapter (options.mode r.settings) q other)
    (accepted : r.compileFilter q filter options = .ok query) (accepted' : r.compileFilter q other options = .ok moved)
    (keeps : d.KeepsRows) (outer : d.Row) : query.found d outer = moved.found d outer := by
  refine found_congr accepted accepted' keeps ?_ outer
  intro row
  have valid := valid_of_compiled accepted
  have sound := filter.negatesOne_of_valid valid
  have sound' := other.negatesOne_of_valid (FilterNode.validate_freed (FilterNode.freed_of_loosened loosened) valid)
  rw [(compileFilter_found accepted keeps outer).2, (compileFilter_found accepted' keeps outer).2,
    Route.ofNode_truthOn _ sound, Route.ofNode_truthOn _ sound']
  exact Route.truthOn_loosened filter sound sound' _ loosened _ row

end Resolver

-- Nothing is related to the row.
structure Database.Unrelated (d : Database) (row : d.Row) : Prop where
  rows : ∀ s, d.rows row s = []
  nested : ∀ path, d.nested row path = []

theorem Database.Unrelated.related {d : Database} {row : d.Row} (unrelated : d.Unrelated row) (q : CompiledQuery)
    (parent binding : String) (link : Link) : q.related d row parent binding link = [] := by
  cases q with
  | sql _ s => rw [CompiledQuery.related, unrelated.rows, List.filter_nil]
  | search r => exact unrelated.nested binding

namespace Route

open FilterNode

-- Whatever is behind a to-many association asks for a related row.
theorem truthOn_unrelated {c : FilterContext} {d : Database} {row : d.Row} (unrelated : d.Unrelated row)
    (mode : c.mode = .anyMatch) (op : Connective) (names : List String) (n : FilterNode) (scope : Scope) (q : CompiledQuery)
    (toMany : c.resolver.ToMany c.adapter scope.queryable names) (alone : n.standsAlone = false)
    (behind : ∀ l ∈ n.leaves, l.Behind names) : siblingsTruth c d scope q op [n] row = .false := by
  induction names generalizing n scope q with
  | nil => cases toMany
  | cons head rest ih =>
    obtain ⟨hop, crossed, way⟩ := toMany
    have start : ∀ l ∈ n.leaves, l.field.firstHop? = some head :=
      fun l member => Leaf.firstHop_of_behind (behind l member)
    rw [siblingsTruth_shared (sharedHead_of_start start alone), List.filter_nil, List.filter_nil, siblingsTruth_nil,
      Connective.apply_unit]
    rcases way with ⟨many, _⟩ | ⟨one, deeper⟩
    · rw [groupTruth_many crossed many, unrelated.related, mode]
      rfl
    · rw [groupTruth_one crossed one]
      refine ih n.strip _ q deeper (by rwa [standsAlone_strip]) ?_
      intro l member
      rw [leaves_strip] at member
      obtain ⟨leaf, among, rfl⟩ := List.mem_map.mp member
      exact Leaf.strip_behind (behind leaf among)

end Route

-- One row that nothing is related to.
def lonely : Database where
  Row := Bool
  test _ _ := .true
  definite := by simp
  rows row _ := if row then [] else [true]
  query _ _ := false
  nested _ _ := []

theorem lonely_keepsRows : lonely.KeepsRows := fun _ _ => rfl

theorem lonely_row : ∃ outer only, (∀ s, lonely.rows outer s = [only]) ∧ lonely.Unrelated only :=
  ⟨false, true, fun _ => rfl, fun _ => rfl, fun _ => rfl⟩

namespace Resolver

variable {r : Resolver} {q : Queryable} {n filter other : FilterNode} {options : CompileOptions} {query : CompiledQuery}

-- The only child of a connective: where one related row is enough it asks for one.
theorem lone_exact (connective : op ≠ .not) (lax : n.Lax)
    (accepted : r.compileFilter q (.combine op [n]) options = .ok query) :
    (∀ d : Database, d.KeepsRows → ∀ outer, query.found d outer = (CompiledQuery.forQueryable q).found d outer) ↔
      options.mode r.settings = .allMatch ∨ ¬n.SharesToMany r q.adapter q := by
  have plain : ∀ child rest, op = .not → [n] = child :: rest → False := fun _ _ same _ => connective same
  have sound := (FilterNode.combine op [n]).negatesOne_of_valid (valid_of_compiled accepted)
  have means : ∀ d : Database, d.KeepsRows → ∀ row, query.truthOn d row =
      Route.siblingsTruth ⟨r, q.adapter, options⟩ d (.root q (CompiledQuery.forQueryable q).rootBinding) (.forQueryable q)
        (.ofCombinator op) [n] row := by
    intro d keeps row
    rw [(compileFilter_found accepted keeps row).2, Route.ofNode_truthOn _ sound, Route.ofNode_connective false plain,
      Route.ofNodes_siblings (by simp)]
  constructor
  · intro free
    by_contra bound
    obtain ⟨every, shares⟩ := not_or.mp bound
    obtain ⟨alone, names, toMany, behind⟩ := not_not.mp shares
    have mode : options.mode r.settings = .anyMatch := by
      cases mode : options.mode r.settings with
      | anyMatch => rfl
      | allMatch => exact absurd mode every
    obtain ⟨outer, only, rows, unrelated⟩ := lonely_row
    have unmet := Route.truthOn_unrelated (c := ⟨r, q.adapter, options⟩) unrelated mode (.ofCombinator op) names n
      (.root q (CompiledQuery.forQueryable q).rootBinding) (.forQueryable q) toMany alone behind
    have found := free lonely lonely_keepsRows outer
    rw [found_forQueryable, CompiledQuery.found, (compileFilter_found accepted lonely_keepsRows outer).1, rows] at found
    have kept := List.filter_eq_self.mp found only (List.mem_singleton_self only)
    rw [means lonely lonely_keepsRows, unmet] at kept
    cases kept
  · intro spared d keeps outer
    rw [found_forQueryable, CompiledQuery.found, (compileFilter_found accepted keeps outer).1]
    refine List.filter_eq_self.mpr ?_
    intro row _
    rw [means d keeps, Route.siblingsTruth_lax _ n lax sound.2, Route.siblingsTruth_nil, Connective.apply_unit]
    · rfl
    · exact spared.imp id .inl

-- An empty child of an AND changes nothing. An OR with one may be replaced by the empty filter where only to-one
-- associations are crossed, and elsewhere as long as nothing hangs on it; on its own it constrains nothing exactly
-- when it is not all behind a to-many association of which one related row is enough.
theorem compileFilter_emptied (r : Resolver) (q : Queryable) (options : CompileOptions) :
    (∀ filter other, filter.Grown other → r.compileFilter q other options = r.compileFilter q filter options) ∧
    (∀ filter other query, filter.Freed other → r.compileFilter q filter options = .ok query →
      ∃ moved, r.compileFilter q other options = .ok moved ∧
        ((∀ l ∈ filter.leaves, r.CrossesToOne q.adapter q l.field.segments) ∨
            filter.Loosened r q.adapter (options.mode r.settings) q other →
          ∀ d : Database, d.KeepsRows → ∀ outer, query.found d outer = moved.found d outer)) ∧
    ∀ op n query, op ≠ .not → n.Lax → r.compileFilter q (.combine op [n]) options = .ok query →
      ((∀ d : Database, d.KeepsRows → ∀ outer, query.found d outer = (CompiledQuery.forQueryable q).found d outer) ↔
        options.mode r.settings = .allMatch ∨ ¬n.SharesToMany r q.adapter q) := by
  refine ⟨?_, ?_, ?_⟩
  · intro filter other grown
    exact compileFilter_grown r q options grown
  · intro filter other query freed accepted
    obtain ⟨moved, accepted'⟩ := compiles_freed freed accepted
    refine ⟨moved, accepted', ?_⟩
    rintro (toOne | loosened) d keeps outer
    · exact found_toOne freed accepted accepted' keeps toOne outer
    · exact found_loosened loosened accepted accepted' keeps outer
  · intro op n query connective lax accepted
    exact lone_exact connective lax accepted

end Resolver

def starred : FilterNode := .leaf ⟨⟨["posts", "stars"]⟩, .gt, .int 3⟩

-- A post of that title, or nothing asked.
def titledOrAny : FilterNode :=
  .combine .or [.leaf ⟨⟨["posts", "title"]⟩, .eq, .str "a"⟩, .combine .and []]

theorem titledOrAny_lax : titledOrAny.Lax := ⟨_, rfl, .combine .and [], by simp, rfl⟩

theorem titledOrAny_shares : titledOrAny.SharesToMany authorResolver author.adapter author := by
  obtain ⟨hop, crossed, many⟩ := Option.map_eq_some_iff.mp author_posts
  refine ⟨by decide, ["posts"], ⟨hop, crossed, .inl ⟨many, rfl⟩⟩, ?_⟩
  intro l member
  obtain rfl : l = ⟨⟨["posts", "title"]⟩, .eq, .str "a"⟩ := by
    simpa [titledOrAny, FilterNode.leaves, FilterNode.listLeaves] using member
  exact ⟨"title", [], rfl⟩

-- The post of many stars is looked for anyway.
theorem titledOrAny_spared : titledOrAny.Spared authorResolver author.adapter .anyMatch .and author [starred] := by
  refine .inr (.inr ⟨rfl, starred, by simp, rfl, ?_⟩)
  rintro head names ⟨_, behind⟩
  obtain ⟨next, later, shape⟩ := behind ⟨⟨["posts", "title"]⟩, .eq, .str "a"⟩
    (by simp [titledOrAny, FilterNode.leaves, FilterNode.listLeaves])
  obtain ⟨rfl, rest⟩ := List.cons.inj shape
  have empty : names = [] := by
    cases names with
    | nil => rfl
    | cons second others => simp at rest
  subst empty
  refine ⟨by simp [starred, FilterNode.leaves], ?_⟩
  intro l member
  obtain rfl := List.mem_singleton.mp member
  exact ⟨"stars", [], rfl⟩

theorem titledOrAny_emptied :
    (FilterNode.Grown (.combine .and [starred]) (.combine .and [.combine .and [], starred]) ∧
      authorResolver.compileFilter author (.combine .and [.combine .and [], starred]) .standard =
        authorResolver.compileFilter author (.combine .and [starred]) .standard) ∧
    (∃ query moved,
      authorResolver.compileFilter author (.combine .and [titledOrAny, starred]) .standard = .ok query ∧
        authorResolver.compileFilter author (.combine .and [.combine .and [], starred]) .standard = .ok moved ∧
          lonely.KeepsRows ∧ ∀ outer, query.found lonely outer = moved.found lonely outer) ∧
    ∃ query, authorResolver.compileFilter author (.combine .or [titledOrAny]) .standard = .ok query ∧
      ¬∀ d : Database, d.KeepsRows → ∀ outer, query.found d outer = (CompiledQuery.forQueryable author).found d outer := by
  obtain ⟨grows, frees, lone⟩ := Resolver.compileFilter_emptied authorResolver author .standard
  have grown : FilterNode.Grown (.combine .and [starred]) (.combine .and [.combine .and [], starred]) :=
    .here [] [starred] rfl
  have freed : FilterNode.Freed (.combine .and [titledOrAny, starred]) (.combine .and [.combine .and [], starred]) :=
    .inside .and [] [starred] (.here titledOrAny_lax rfl)
  have loosened : FilterNode.Loosened authorResolver author.adapter .anyMatch author
      (.combine .and [titledOrAny, starred]) (.combine .and [.combine .and [], starred]) :=
    .among .and [] [starred] (by decide) titledOrAny_lax rfl titledOrAny_spared
  have succeeded : (authorResolver.compileFilter author (.combine .and [titledOrAny, starred]) .standard).isOk = true := by
    decide +kernel
  have succeeded' : (authorResolver.compileFilter author (.combine .or [titledOrAny]) .standard).isOk = true := by
    decide +kernel
  obtain ⟨query, accepted⟩ := ok_of_isOk succeeded
  obtain ⟨query', accepted'⟩ := ok_of_isOk succeeded'
  obtain ⟨moved, compiled, same⟩ := frees _ _ query freed accepted
  refine ⟨⟨grown, grows _ _ grown⟩, ⟨query, moved, accepted, compiled, lonely_keepsRows, ?_⟩, query', accepted', ?_⟩
  · exact same (.inr loosened) lonely lonely_keepsRows
  · intro free
    rcases (lone .or titledOrAny query' (by decide) titledOrAny_lax accepted').mp free with every | apart
    · cases every
    · exact apart titledOrAny_shares

-- Authors without a post are left out.
theorem emptied_narrows : ¬∀ (r : Resolver) (q : Queryable) (options : CompileOptions) (filter other : FilterNode)
    (query moved : CompiledQuery), filter.Freed other → r.compileFilter q filter options = .ok query →
      r.compileFilter q other options = .ok moved →
        ∀ d : Database, d.KeepsRows → ∀ outer, query.found d outer = moved.found d outer := by
  intro all
  have freed : FilterNode.Freed (.combine .and [titledOrAny]) (.combine .and [.combine .and []]) :=
    .inside .and [] [] (.here titledOrAny_lax rfl)
  have succeeded : (authorResolver.compileFilter author (.combine .and [titledOrAny]) .standard).isOk = true := by
    decide +kernel
  obtain ⟨query, accepted⟩ := ok_of_isOk succeeded
  have plain : authorResolver.compileFilter author (.combine .and [.combine .and []]) .standard =
      .ok (.forQueryable author) := by
    rfl
  have free := all authorResolver author .standard _ _ query _ freed accepted plain
  rcases (Resolver.lone_exact (by decide) titledOrAny_lax accepted).mp free with every | apart
  · cases every
  · exact apart titledOrAny_shares

end FilterQuery
