import FilterQuery.Proofs.OrderTrace

namespace FilterQuery

-- One application to a query, with paths told from the definition given.
inductive QueryStep where
  | filter (root : Queryable) (filter : FilterNode) (options : CompileOptions)
  | order (root : Queryable) (terms : List OrderTerm) (options : CompileOptions)

namespace Resolver

def orderTrace (r : Resolver) (a : Adapter) (root : Queryable) (options : CompileOptions) :
    CompiledQuery → List OrderTerm → List Bound
  | _, [] => []
  | q, term :: rest =>
    OrderContext.trace ⟨r, a, options, term⟩ root (.root root q.rootBinding) [q.rootBinding] term.path.segments q ++
      match OrderContext.walk ⟨r, a, options, term⟩ (.root root q.rootBinding) q term.path.segments with
      | .ok sorted => r.orderTrace a root options sorted rest
      | .error _ => []

end Resolver

namespace QueryStep

def root : QueryStep → Queryable
  | filter root _ _ => root
  | order root _ _ => root

def fields : QueryStep → List FieldPath
  | filter _ node _ => node.leaves.map Leaf.field
  | order _ terms _ => terms.map OrderTerm.path

-- An association on the way to a field that the step names.
def Crosses (step : QueryStep) (path : FieldPath) : Prop :=
  ∃ field ∈ step.fields, path ∈ FieldPath.empty.hopsTo field.segments

def run (r : Resolver) (q : CompiledQuery) : QueryStep → Except FilterError CompiledQuery
  | filter root node options => r.applyFilter q root node options
  | order root terms options => r.applyOrder q root terms options

def trace (r : Resolver) (q : CompiledQuery) : QueryStep → List Bound
  | filter root node options =>
    if node.isEmpty then []
    else match r.adapterFor root with
      | .ok a => (Route.ofNode r.settings.reorder node).trace ⟨r, a, options⟩ root (.root root q.rootBinding)
          [q.rootBinding] q
      | .error _ => []
  | order root terms options =>
    match r.adapterFor root with
    | .ok a => r.orderTrace a root options q terms
    | .error _ => []

def runAll (r : Resolver) (q : CompiledQuery) : List QueryStep → Except FilterError CompiledQuery
  | [] => .ok q
  | step :: rest => do
    let next ← step.run r q
    runAll r next rest

def traceAll (r : Resolver) (q : CompiledQuery) : List QueryStep → List Bound
  | [] => []
  | step :: rest =>
    step.trace r q ++
      match step.run r q with
      | .ok next => traceAll r next rest
      | .error _ => []

end QueryStep

-- The query is still that of the base, with joins of what is bound.
structure Built (all : Bound → Prop) (base q : CompiledQuery) : Prop where
  kind : q.kind = base.kind
  rootBinding : q.rootBinding = base.rootBinding
  registered : Registered all q.joins

namespace Built

variable {all : Bound → Prop} {base q : CompiledQuery}

theorem at_root (built : Built all base q) (r : Resolver) (root : Queryable) :
    Surroundings all r base root (.root root q.rootBinding) [q.rootBinding] q := by
  rw [built.rootBinding]
  refine ⟨built.kind, Scope.Placed.root_placed, .inl ⟨rfl, rfl⟩, List.mem_singleton.mpr rfl, ?_, built.registered⟩
  intro name member
  exact .inl (List.mem_singleton.mp member)

end Built

namespace Resolver

variable {all : Bound → Prop} {r : Resolver} {a : Adapter} {base q : CompiledQuery} {root : Queryable}
  {options : CompileOptions}

theorem orderBy_parts {sorted : CompiledQuery} : r.orderBy a root options q (term :: rest) = .ok sorted ↔
    r.checkDepth term.path = .ok () ∧ ∃ mid,
      OrderContext.walk ⟨r, a, options, term⟩ (.root root q.rootBinding) q term.path.segments = .ok mid ∧
        r.orderBy a root options mid rest = .ok sorted := by
  rw [orderBy]
  simp only [bind_exact]
  constructor
  · intro given
    obtain ⟨_, shallow, mid, walked, later⟩ := given
    exact ⟨shallow, mid, walked, later⟩
  · intro given
    obtain ⟨shallow, mid, walked, later⟩ := given
    exact ⟨(), shallow, mid, walked, later⟩

theorem orderTrace_cons {term : OrderTerm} (rest : List OrderTerm) {mid : CompiledQuery}
    (walked : OrderContext.walk ⟨r, a, options, term⟩ (.root root q.rootBinding) q term.path.segments = .ok mid) :
    r.orderTrace a root options q (term :: rest) =
      OrderContext.trace ⟨r, a, options, term⟩ root (.root root q.rootBinding) [q.rootBinding] term.path.segments q ++
        r.orderTrace a root options mid rest := by
  rw [orderTrace, walked]

theorem orderBy_built {terms : List OrderTerm} {sorted : CompiledQuery} (served : a = root.adapter)
    (built : Built all base q) (known : ∀ b ∈ r.orderTrace a root options q terms, all b)
    (accepted : r.orderBy a root options q terms = .ok sorted) :
    Built all base sorted ∧ (∀ b ∈ r.orderTrace a root options q terms, b.root = root ∧ b.Traced all r base) ∧
      (r.orderTrace a root options q terms).map Bound.path =
        terms.flatMap fun term => FieldPath.empty.hopsTo term.path.segments := by
  induction terms generalizing q with
  | nil =>
    cases accepted
    exact ⟨built, by simp [orderTrace], rfl⟩
  | cons term rest ih =>
    obtain ⟨_, mid, walked, later⟩ := orderBy_parts.mp accepted
    rw [orderTrace_cons rest walked] at known ⊢
    have early : ∀ b ∈ OrderContext.trace ⟨r, a, options, term⟩ root (.root root q.rootBinding) [q.rootBinding]
        term.path.segments q, all b := fun b member => known b (List.mem_append_left _ member)
    have around := built.at_root r root
    obtain ⟨kind, rooted, registered⟩ := OrderContext.walk_registered served around early walked
    obtain ⟨after, traced, paths⟩ := ih ⟨kind.trans built.kind, rooted.trans built.rootBinding, registered⟩
      (fun b member => known b (List.mem_append_right _ member)) later
    refine ⟨after, ?_, ?_⟩
    · intro b member
      rcases List.mem_append.mp member with here | further
      · exact OrderContext.trace_traced served around early b here
      · exact traced b further
    · rw [List.map_append, paths, OrderContext.trace_paths walked, List.flatMap_cons]
      rfl

end Resolver

namespace QueryStep

variable {all : Bound → Prop} {r : Resolver} {base q next : CompiledQuery}

theorem built_filter {root : Queryable} {node : FilterNode} {options : CompileOptions} (built : Built all base q)
    (known : ∀ b ∈ (filter root node options).trace r q, all b)
    (ran : (filter root node options).run r q = .ok next) :
    Built all base next ∧
      (∀ b ∈ (filter root node options).trace r q, b.root = root ∧ b.Traced all r base) ∧
      ∀ path, path ∈ ((filter root node options).trace r q).map Bound.path ↔
        (filter root node options).Crosses path := by
  obtain ⟨valid, _, _, ⟨empty, rfl⟩ | ⟨filled, a, served, p, joined, compiled, narrows⟩⟩ :=
    Resolver.applyFilter_parts.mp ran
  · refine ⟨built, by simp [trace, empty], ?_⟩
    simp [trace, empty, Crosses, fields, node.leaves_of_empty empty]
  · have own := (AdapterSet.forQueryable_exact served).symm
    have around := built.at_root r root
    simp only [trace, filled, Bool.false_eq_true, if_false, served] at known ⊢
    have registered := Route.compile_registered _ own around known compiled
    have same := CompiledQuery.sameFrame_andPredicate narrows
    have kept := Route.compile_joins _ compiled
    refine ⟨⟨?_, ?_, ?_⟩, Route.trace_traced _ own around known, ?_⟩
    · rw [same.kind, Route.joined_kind compiled, built.kind]
    · rw [same.rootBinding, ← CompiledQuery.rootBinding_unjoined, kept, CompiledQuery.rootBinding_unjoined,
        built.rootBinding]
    · rw [same.joins]
      exact registered
    · intro path
      rw [Route.trace_paths _ compiled]
      refine (Route.layout_hops _ path node .empty (node.negatesOne_of_valid valid)).trans ?_
      constructor
      · intro given
        obtain ⟨l, leaf, crossed⟩ := given
        exact ⟨l.field, List.mem_map_of_mem leaf, crossed⟩
      · intro given
        obtain ⟨field, member, crossed⟩ := given
        obtain ⟨l, leaf, rfl⟩ := List.mem_map.mp member
        exact ⟨l, leaf, crossed⟩

theorem built_order {root : Queryable} {terms : List OrderTerm} {options : CompileOptions} (built : Built all base q)
    (known : ∀ b ∈ (order root terms options).trace r q, all b)
    (ran : (order root terms options).run r q = .ok next) :
    Built all base next ∧
      (∀ b ∈ (order root terms options).trace r q, b.root = root ∧ b.Traced all r base) ∧
      ∀ path, path ∈ ((order root terms options).trace r q).map Bound.path ↔
        (order root terms options).Crosses path := by
  cases terms with
  | nil =>
    cases ran
    have untraced : (order root [] options).trace r q = [] := by
      rw [trace]
      split <;> rfl
    rw [untraced]
    exact ⟨built, by simp, by simp [Crosses, fields]⟩
  | cons term rest =>
    simp only [run, Resolver.applyOrder, List.isEmpty_cons, Bool.false_eq_true, if_false, bind_exact] at ran
    obtain ⟨_, _, a, served, accepted⟩ := ran
    have own := (AdapterSet.forQueryable_exact served).symm
    simp only [trace, served] at known ⊢
    obtain ⟨after, traced, paths⟩ := Resolver.orderBy_built own built known accepted
    refine ⟨after, traced, ?_⟩
    intro path
    rw [paths, List.mem_flatMap]
    constructor
    · intro given
      obtain ⟨term, member, crossed⟩ := given
      exact ⟨term.path, List.mem_map_of_mem member, crossed⟩
    · intro given
      obtain ⟨field, member, crossed⟩ := given
      obtain ⟨term, among, rfl⟩ := List.mem_map.mp member
      exact ⟨term, among, crossed⟩

theorem built_step (step : QueryStep) (built : Built all base q) (known : ∀ b ∈ step.trace r q, all b)
    (ran : step.run r q = .ok next) :
    Built all base next ∧ (∀ b ∈ step.trace r q, b.root = step.root ∧ b.Traced all r base) ∧
      ∀ path, path ∈ (step.trace r q).map Bound.path ↔ step.Crosses path := by
  cases step with
  | filter root node options => exact built_filter built known ran
  | order root terms options => exact built_order built known ran

-- Every binding of a run is traced, and what is bound is what the steps cross.
theorem built_steps (steps : List QueryStep) (built : Built all base q) (known : ∀ b ∈ traceAll r q steps, all b)
    (ran : runAll r q steps = .ok next) :
    (∀ b ∈ traceAll r q steps, b.Traced all r base) ∧
      ∀ root path, (∃ b ∈ traceAll r q steps, b.root = root ∧ b.path = path) ↔
        ∃ step ∈ steps, step.root = root ∧ step.Crosses path := by
  induction steps generalizing q with
  | nil => simp [traceAll]
  | cons step rest ih =>
    obtain ⟨mid, first, later⟩ := bind_exact.mp ran
    have split : traceAll r q (step :: rest) = step.trace r q ++ traceAll r mid rest := by rw [traceAll, first]
    rw [split] at known ⊢
    obtain ⟨after, traced, paths⟩ := built_step step built (fun b member => known b (List.mem_append_left _ member)) first
    obtain ⟨others, further⟩ := ih after (fun b member => known b (List.mem_append_right _ member)) later
    refine ⟨?_, ?_⟩
    · intro b member
      rcases List.mem_append.mp member with here | there
      · exact (traced b here).2
      · exact others b there
    · intro root path
      constructor
      · intro given
        obtain ⟨b, member, rfl, rfl⟩ := given
        rcases List.mem_append.mp member with here | there
        · exact ⟨step, List.mem_cons_self .., (traced b here).1.symm, (paths b.path).mp (List.mem_map_of_mem here)⟩
        · obtain ⟨other, among, led, crossed⟩ := (further b.root b.path).mp ⟨b, there, rfl, rfl⟩
          exact ⟨other, List.mem_cons_of_mem _ among, led, crossed⟩
      · intro given
        obtain ⟨other, among, led, crossed⟩ := given
        rcases List.mem_cons.mp among with rfl | there
        · obtain ⟨b, here, named⟩ := List.mem_map.mp ((paths path).mpr crossed)
          exact ⟨b, List.mem_append_left _ here, (traced b here).1.trans led, named⟩
        · obtain ⟨b, member, same⟩ := (further root path).mpr ⟨other, there, led, crossed⟩
          exact ⟨b, List.mem_append_right _ member, same⟩

end QueryStep

-- What the bindings of a query are meant to be.
structure Sound (bs : List Bound) : Prop where
  -- Two associations never share a binding.
  distinct : ∀ b ∈ bs, ∀ other ∈ bs, b.binding = other.binding → b.root = other.root ∧ b.path = other.path
  -- No SELECT that the association is bound in has its binding.
  fresh : ∀ b ∈ bs, b.binding ∉ b.selects
  -- The condition compares a related row with its parent: the other name in it is no name of the related row
  -- and of no other row than the parent.
  correlated : ∀ b ∈ bs, b.binding ≠ b.parent ∧
    ∀ other ∈ bs, other.binding = b.parent → other.root = b.root ∧ ∃ name, b.path = other.path.child name
  -- A join that is there already under the binding is the join that is wanted.
  joined : ∀ b ∈ bs, ∀ j ∈ b.joins, j.binding = b.binding → j = b.join

theorem sound_exact {bs : List Bound} {r : Resolver} {base : CompiledQuery}
    (traced : ∀ b ∈ bs, b.Traced (· ∈ bs) r base) :
    Sound bs ↔
      (∀ b ∈ bs, ∀ other ∈ bs, b.binding = other.binding → b.root = other.root ∧ b.path = other.path) ∧
        ∀ b ∈ bs, b.binding ≠ base.rootBinding := by
  constructor
  · intro sound
    refine ⟨sound.distinct, ?_⟩
    intro b member same
    exact sound.fresh b member (same ▸ (traced b member).rooted)
  · intro given
    obtain ⟨distinct, apart⟩ := given
    refine ⟨distinct, ?_, ?_, ?_⟩
    · intro b member around
      rcases (traced b member).nearer b.binding around with root | ⟨near, known, _, named, short⟩
      · exact apart b member root
      · rw [(distinct near known b member named).2] at short
        exact Nat.lt_irrefl _ short
    · intro b member
      obtain ⟨before, name, path, ⟨_, root⟩ | ⟨up, known, led, ends, named⟩⟩ := (traced b member).parent
      · rw [root]
        exact ⟨apart b member, fun other among same => absurd same (apart other among)⟩
      · refine ⟨?_, ?_⟩
        · intro same
          have longer := (distinct up known b member (named.trans same.symm)).2
          rw [ends, path] at longer
          simpa [Surroundings.length_child] using congrArg FieldPath.length longer
        · intro other among same
          obtain ⟨root, shared⟩ := distinct other among up known (same.trans named.symm)
          exact ⟨root.trans led, name, by rw [shared, ends, path]⟩
    · intro b member j present same
      obtain ⟨earlier, known, rfl⟩ := (traced b member).registered j present
      obtain ⟨root, path⟩ := distinct earlier known b member same
      exact Bound.join_of_path (traced earlier known).byPath (traced b member).byPath root path

-- The bindings are what they are meant to be as long as the paths that are crossed and the root all come to
-- different texts.
theorem QueryStep.bindings_exact {r : Resolver} {q : Queryable} {steps : List QueryStep} {query : CompiledQuery}
    (sql : q.adapter.kind = .sql) (ran : runAll r (.forQueryable q) steps = .ok query) :
    Sound (traceAll r (.forQueryable q) steps) ↔
      (∀ step ∈ steps, ∀ path, step.Crosses path → ∀ other ∈ steps, ∀ path', other.Crosses path' →
        path.joined "__" = path'.joined "__" → step.root = other.root ∧ path = path') ∧
      ∀ step ∈ steps, ∀ path, step.Crosses path → path.joined "__" ≠ q.source := by
  obtain ⟨d, start⟩ : ∃ d, CompiledQuery.forQueryable q = .sql d (Select.new q.source) := by
    unfold CompiledQuery.forQueryable
    cases adapter : q.adapter <;> first | exact ⟨_, rfl⟩ | (rw [adapter] at sql; cases sql)
  rw [start] at ran ⊢
  have built : Built (· ∈ traceAll r (.sql d (Select.new q.source)) steps) (.sql d (Select.new q.source))
      (.sql d (Select.new q.source)) := by
    refine ⟨rfl, rfl, ?_⟩
    intro j member
    cases member
  obtain ⟨traced, paths⟩ := built_steps steps built (fun _ member => member) ran
  have named : ∀ b ∈ traceAll r (.sql d (Select.new q.source)) steps, b.binding = b.path.joined "__" := by
    intro b member
    obtain ⟨_, _, _, _, _, _, _, binding⟩ := (traced b member).byPath
    exact binding
  rw [sound_exact traced]
  constructor
  · intro given
    obtain ⟨distinct, apart⟩ := given
    refine ⟨?_, ?_⟩
    · intro step among path crossed other among' path' crossed' same
      obtain ⟨b, member, root, ends⟩ := (paths step.root path).mpr ⟨step, among, rfl, crossed⟩
      obtain ⟨b', member', root', ends'⟩ := (paths other.root path').mpr ⟨other, among', rfl, crossed'⟩
      rw [← ends, ← ends', ← named b member, ← named b' member'] at same
      have shared := distinct b member b' member' same
      rwa [root, root', ends, ends'] at shared
    · intro step among path crossed same
      obtain ⟨b, member, _, ends⟩ := (paths step.root path).mpr ⟨step, among, rfl, crossed⟩
      refine apart b member ?_
      rw [named b member, ends]
      exact same
  · intro given
    obtain ⟨distinct, apart⟩ := given
    refine ⟨?_, ?_⟩
    · intro b member b' member' same
      rw [named b member, named b' member'] at same
      obtain ⟨step, among, root, crossed⟩ := (paths b.root b.path).mp ⟨b, member, rfl, rfl⟩
      obtain ⟨other, among', root', crossed'⟩ := (paths b'.root b'.path).mp ⟨b', member', rfl, rfl⟩
      rw [← root, ← root']
      exact distinct step among b.path crossed other among' b'.path crossed' same
    · intro b member same
      obtain ⟨step, among, _, crossed⟩ := (paths b.root b.path).mp ⟨b, member, rfl, rfl⟩
      refine apart step among b.path crossed ?_
      rw [← named b member]
      exact same

def person : Queryable := (Queryable.new "Person" "people" .postgres).withColumn "name" "text" false

def carrier : Queryable := (Queryable.new "Carrier" "carriers" .postgres).belongsTo "agent" "Person" "agent_id"

-- The name of the second association is that of the path carrier.agent.
def shipment : Queryable :=
  ((Queryable.new "Shipment" "shipments" .postgres).belongsTo "carrier" "Carrier" "carrier_id").belongsTo
    "carrier__agent" "Person" "clerk_id"

def shippingResolver : Resolver :=
  { Resolver.ofAdapters .standard .standard with
    registry := ((Registry.empty.register person).register carrier).register shipment }

def agentAndClerk : FilterNode :=
  .combine .and [
    .leaf ⟨⟨["carrier", "agent", "name"]⟩, .eq, .str "Ann"⟩,
    .leaf ⟨⟨["carrier__agent", "name"]⟩, .eq, .str "Bo"⟩]

def byAgent : List QueryStep := [
  .filter shipment (.leaf ⟨⟨["carrier", "agent", "name"]⟩, .eq, .str "Ann"⟩) .standard,
  .order shipment [⟨⟨["carrier", "agent", "name"]⟩, .asc, .default⟩] .standard]

theorem byAgent_bindings : shipment.adapter.kind = .sql ∧
    ∃ query, QueryStep.runAll shippingResolver (.forQueryable shipment) byAgent = .ok query ∧
      (Sound (QueryStep.traceAll shippingResolver (.forQueryable shipment) byAgent) ↔
        (∀ step ∈ byAgent, ∀ path, step.Crosses path → ∀ other ∈ byAgent, ∀ path', other.Crosses path' →
          path.joined "__" = path'.joined "__" → step.root = other.root ∧ path = path') ∧
        ∀ step ∈ byAgent, ∀ path, step.Crosses path → path.joined "__" ≠ shipment.source) := by
  have succeeded : (QueryStep.runAll shippingResolver (.forQueryable shipment) byAgent).isOk = true := by decide +kernel
  obtain ⟨query, ran⟩ := ok_of_isOk succeeded
  exact ⟨rfl, query, ran, QueryStep.bindings_exact rfl ran⟩

-- Agent and clerk share one binding, so both tests are of the agent.
theorem bindings_collide : ¬∀ (r : Resolver) (q : Queryable) (steps : List QueryStep) (query : CompiledQuery),
    q.adapter.kind = .sql → QueryStep.runAll r (.forQueryable q) steps = .ok query →
      Sound (QueryStep.traceAll r (.forQueryable q) steps) := by
  intro all
  have succeeded : (QueryStep.runAll shippingResolver (.forQueryable shipment)
      [.filter shipment agentAndClerk .standard]).isOk = true := by
    decide +kernel
  obtain ⟨query, ran⟩ := ok_of_isOk succeeded
  have sound := all shippingResolver shipment _ query rfl ran
  obtain ⟨b, member, other, among, same, apart⟩ : ∃ b ∈ QueryStep.traceAll shippingResolver (.forQueryable shipment)
      [.filter shipment agentAndClerk .standard], ∃ other ∈ QueryStep.traceAll shippingResolver (.forQueryable shipment)
        [.filter shipment agentAndClerk .standard], b.binding = other.binding ∧ b.path ≠ other.path := by
    decide +kernel
  exact apart (sound.distinct b member other among same).2

end FilterQuery
