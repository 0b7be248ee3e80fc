import FilterQuery.Capability.Detect
import FilterQuery.Proofs.LeafAcceptance

namespace FilterQuery

-- The same answer, or a failure in its place.
def Lost (answer answer' : Except ProbeError α) : Prop := answer' = answer ∨ ∃ fault, answer' = .error fault

-- The second backend is the first with some of its answers lost. Plans and loads say nothing of features.
structure Handle.Worsens (h worse : Handle) : Prop where
  adapter : worse.adapter = h.adapter
  version : Lost h.version worse.version
  extensions : Lost h.extensions worse.extensions
  probe : ∀ f, Lost (h.probe f) (worse.probe f)

namespace Capability

-- No feature without the other one having it too.
def Within (less more : Capability) : Prop :=
  less.adapter = more.adapter ∧ ∀ f, less.supports f = true → more.supports f = true

theorem conservative_supports (a : Adapter) (f : Feature) : (conservative a).supports f = false := rfl

theorem conservative_within (c : Capability) : (conservative c.adapter).Within c := by
  refine ⟨rfl, ?_⟩
  intro f supported
  rw [conservative_supports] at supported
  cases supported

theorem ofReport_adapter (a : Adapter) (raw : String) (extensions : List String) (probed : Feature → Option Bool) :
    (ofReport a raw extensions probed).adapter = a := by
  unfold ofReport
  split <;> rfl

theorem detect_adapter (h : Handle) : (detect h).adapter = h.adapter := by
  unfold detect
  split
  · rfl
  · exact ofReport_adapter ..

-- Extensions only ever add a feature.
theorem inferred_mono {a : Adapter} {v : Version} {mariaDb : Bool} {fewer more : NameSet} {f : Feature}
    (kept : ∀ name, fewer.contains name = true → more.contains name = true)
    (supported : inferred a v mariaDb fewer f = true) : inferred a v mariaDb more f = true := by
  cases a with
  | postgres =>
    cases f with
    | spatial => exact kept _ supported
    | _ => exact supported
  | _ => exact supported

-- A probe rules a feature out or leaves it to the version, whichever the better report did.
theorem ofReport_within {a : Adapter} {raw : String} {fewer more : List String}
    {probed probed' : Feature → Option Bool} (kept : fewer ⊆ more)
    (ruled : ∀ f, probed' f = probed f ∨ probed' f = some false) :
    (ofReport a raw fewer probed').Within (ofReport a raw more probed) := by
  refine ⟨by rw [ofReport_adapter, ofReport_adapter], ?_⟩
  intro f supported
  unfold ofReport at supported ⊢
  cases read : Version.ofText? raw with
  | none =>
    rw [read] at supported
    cases supported
  | some v =>
    simp only [read, supports, Option.getD_some] at supported ⊢
    rcases ruled f with same | out
    · rw [same] at supported
      cases known : probed f with
      | some enabled => rwa [known] at supported
      | none =>
        rw [known] at supported
        refine inferred_mono ?_ supported
        intro name
        rw [NameSet.contains_ofList, NameSet.contains_ofList]
        exact fun member => List.map_subset lowerText kept member
    · rw [out] at supported
      cases supported

theorem reported_lost (lost : Lost answer answer') : reported answer' ⊆ reported answer := by
  rcases lost with rfl | ⟨fault, rfl⟩
  · exact List.Subset.refl _
  · exact List.nil_subset _

theorem probeResult_lost {h worse : Handle} (worsens : h.Worsens worse) (f : Feature) :
    probeResult worse f = probeResult h f ∨ probeResult worse f = some false := by
  unfold probeResult
  split
  · rcases worsens.probe f with same | ⟨fault, failed⟩
    · rw [same]
      exact .inl rfl
    · rw [failed]
      exact .inr rfl
  · exact .inl rfl

theorem detect_within {h worse : Handle} (worsens : h.Worsens worse) : (detect worse).Within (detect h) := by
  have same : (detect h).adapter = worse.adapter := by rw [detect_adapter, worsens.adapter]
  cases told : worse.version with
  | error fault =>
    have nothing : detect worse = conservative (detect h).adapter := by rw [detect, told, same]
    rw [nothing]
    exact conservative_within _
  | ok raw =>
    have kept : h.version = .ok raw := by
      rcases worsens.version with same | ⟨fault, failed⟩
      · rw [← same, told]
      · rw [failed] at told
        cases told
    rw [detect, detect, told, kept, worsens.adapter]
    exact ofReport_within (reported_lost worsens.extensions) (probeResult_lost worsens)

end Capability

theorem OperatorRegistry.availableFor_within (g : OperatorRegistry) (ty : SemanticType) {less more : Capability}
    (within : less.Within more) : (g.availableFor ty less).Sublist (g.availableFor ty more) := by
  obtain ⟨same, kept⟩ := within
  unfold availableFor
  rw [same]
  have narrower : (g.entries more.adapter ty).filter (available less) =
      ((g.entries more.adapter ty).filter (available more)).filter (available less) := by
    rw [List.filter_filter]
    refine List.filter_congr ?_
    intro e _
    rw [Bool.eq_iff_iff, Bool.and_eq_true, iff_self_and]
    unfold available
    split
    · exact kept _
    · exact id
  rw [narrower]
  exact List.filter_sublist.map _

def CompileOptions.holding (o : CompileOptions) (c : Capability) : CompileOptions := { o with capability := some c }

-- The outcome with less on offer is the one with more, or a refusal for something that is not on offer.
def Gated (less : Capability) (outcome outcome' : Except FilterError α) : Prop :=
  outcome' = outcome ∨
    ∃ f, less.supports f = false ∧ outcome' = .error (.capabilityMissing f less.adapter less.version)

namespace Gated

variable {less : Capability}

theorem refl (outcome : Except FilterError α) : Gated less outcome outcome := .inl rfl

theorem bind {outcome outcome' : Except FilterError α} {next next' : α → Except FilterError β}
    (first : Gated less outcome outcome') (later : ∀ a, Gated less (next a) (next' a)) :
    Gated less (outcome >>= next) (outcome' >>= next') := by
  rcases first with rfl | ⟨f, missing, rfl⟩
  · cases outcome' with
    | error fault => exact refl _
    | ok a => exact later a
  · exact .inr ⟨f, missing, rfl⟩

theorem ok_of_ok {outcome outcome' : Except FilterError α} (gated : Gated less outcome outcome')
    (succeeded : outcome' = .ok a) : outcome = .ok a := by
  rcases gated with same | ⟨f, _, refused⟩
  · rw [← same, succeeded]
  · rw [refused] at succeeded
    cases succeeded

end Gated

namespace FilterContext

variable {less more : Capability}

def holding (c : FilterContext) (cap : Capability) : FilterContext := { c with options := c.options.holding cap }

theorem requireFeature_gated (within : less.Within more) (c : FilterContext) (ty : SemanticType) (op : Operator) :
    Gated less ((c.holding more).requireFeature ty op) ((c.holding less).requireFeature ty op) := by
  unfold requireFeature holding CompileOptions.holding
  dsimp only
  cases c.adapter.requiredFeature ty op with
  | none => exact .refl _
  | some f =>
    dsimp only [Capability.require]
    cases here : less.supports f with
    | true =>
      rw [within.2 f here]
      exact .refl _
    | false => exact .inr ⟨f, here, rfl⟩

theorem typed_gated (within : less.Within more) (c : FilterContext) (scope : Scope) (path : FieldPath) (f : Field)
    (ty : SemanticType) (l : Leaf) :
    Gated less ((c.holding more).typed scope path f ty l) ((c.holding less).typed scope path f ty l) := by
  unfold typed
  cases offered : c.adapter.implements ty l.operator with
  | false =>
    simp only [holding, offered]
    exact .refl _
  | true =>
    simp only [holding, offered]
    exact .bind (requireFeature_gated within c ty l.operator) fun _ => .refl _

theorem test_gated (within : less.Within more) (c : FilterContext) (scope : Scope) (l : Leaf) :
    Gated less ((c.holding more).test scope l) ((c.holding less).test scope l) := by
  unfold test
  cases l.field.head? with
  | none => exact .refl _
  | some name =>
    refine .bind (.refl _) ?_
    intro f
    cases f.type? with
    | none => exact .refl _
    | some ty => exact typed_gated within c scope (scope.path.append l.field) f ty l

end FilterContext

namespace Route

variable {less more : Capability}

mutual
theorem compile_gated (within : less.Within more) (c : FilterContext) (scope : Scope) (route : Route)
    (q : CompiledQuery) :
    Gated less (route.compile (c.holding more) scope q) (route.compile (c.holding less) scope q) := by
  cases route with
  | test l =>
    rw [compile, compile]
    exact .bind (c.test_gated within scope l) fun _ => .refl _
  | negate inner =>
    rw [compile, compile]
    exact .bind (inner.compile_gated within c scope q) fun _ => .refl _
  | join op parts =>
    rw [compile, compile]
    exact .bind (compileAll_gated within c scope parts q) fun _ => .refl _
  | through head inner =>
    rw [compile, compile]
    refine .bind (.refl _) ?_
    intro f
    refine .bind (.refl _) ?_
    intro hop
    cases hop.link.cardinality with
    | one => exact inner.compile_gated within c _ _
    | many => exact .bind (inner.compile_gated within c _ _) fun _ => .refl _

theorem compileAll_gated (within : less.Within more) (c : FilterContext) (scope : Scope) (parts : List Route)
    (q : CompiledQuery) :
    Gated less (compileAll (c.holding more) scope parts q) (compileAll (c.holding less) scope parts q) := by
  cases parts with
  | nil => exact .refl _
  | cons part rest =>
    rw [compileAll, compileAll]
    refine .bind (part.compile_gated within c scope q) ?_
    intro compiled
    exact .bind (compileAll_gated within c scope rest compiled.2) fun _ => .refl _
end

end Route

namespace Resolver

variable {less more : Capability}

theorem applyFilter_gated (within : less.Within more) (r : Resolver) (base : CompiledQuery) (q : Queryable)
    (filter : FilterNode) (options : CompileOptions) :
    Gated less (r.applyFilter base q filter (options.holding more))
      (r.applyFilter base q filter (options.holding less)) := by
  unfold applyFilter
  refine .bind (.refl _) fun _ => .bind (.refl _) fun _ => .bind (.refl _) fun _ => ?_
  split
  · exact .refl _
  · refine .bind (.refl _) ?_
    intro a
    exact .bind ((Route.ofNode r.settings.reorder filter).compile_gated within ⟨r, a, options⟩ _ base) fun _ => .refl _

theorem compileFilter_gated (within : less.Within more) (r : Resolver) (q : Queryable) (filter : FilterNode)
    (options : CompileOptions) :
    Gated less (r.compileFilter q filter (options.holding more)) (r.compileFilter q filter (options.holding less)) :=
  .bind (.refl _) fun _ => applyFilter_gated within r (.forQueryable q) q filter options

-- What a failing backend still supports, offers and compiles, the one that answers does in the same way; and
-- a filter that it compiles differently is refused for a feature it is not known to have.
theorem degradation_monotone {h worse : Handle} (worsens : h.Worsens worse) :
    let known := Capability.detect h
    let left := Capability.detect worse
    (∀ f, left.supports f = true → known.supports f = true) ∧
    (∀ (g : OperatorRegistry) ty, (g.availableFor ty left).Sublist (g.availableFor ty known)) ∧
    ∀ (r : Resolver) (q : Queryable) (filter : FilterNode) (options : CompileOptions),
      (∀ query, r.compileFilter q filter (options.holding left) = .ok query →
        r.compileFilter q filter (options.holding known) = .ok query) ∧
      (∀ base query, r.applyFilter base q filter (options.holding left) = .ok query →
        r.applyFilter base q filter (options.holding known) = .ok query) ∧
      Gated left (r.compileFilter q filter (options.holding known))
        (r.compileFilter q filter (options.holding left)) ∧
      ∀ base, Gated left (r.applyFilter base q filter (options.holding known))
        (r.applyFilter base q filter (options.holding left)) := by
  intro known left
  have within : left.Within known := Capability.detect_within worsens
  refine ⟨within.2, fun g ty => g.availableFor_within ty within, ?_⟩
  intro r q filter options
  have whole := compileFilter_gated within r q filter options
  have onto := fun base => applyFilter_gated within r base q filter options
  exact ⟨fun query => whole.ok_of_ok, fun base query => (onto base).ok_of_ok, whole, onto⟩

end Resolver

-- A connection with a REGEXP function, and the same connection when it cannot be asked for one.
def searchingSqlite : Handle where
  adapter := .sqlite
  key := "albums"
  version := .ok "3.45.1"
  extensions := .ok []
  probe := fun f => .ok (if f = .regex then some true else none)
  explain := .error (.unsupported .sqlite "explain")
  load := .error (.unsupported .sqlite "load")

def unaskedSqlite : Handle := { searchingSqlite with probe := fun _ => .error (.parse "no answer") }

theorem unaskedSqlite_worsens : searchingSqlite.Worsens unaskedSqlite :=
  ⟨rfl, .inl rfl, .inl rfl, fun _ => .inr ⟨_, rfl⟩⟩

def searchedName : FilterNode := .leaf ⟨⟨["name"]⟩, .regex, .str "a.*b"⟩

def plainName : FilterNode := .leaf ⟨⟨["name"]⟩, .eq, .str "a"⟩

theorem unaskedSqlite_degrades : searchingSqlite.Worsens unaskedSqlite ∧
    (Capability.detect searchingSqlite).supports .regex = true ∧
    (Capability.detect unaskedSqlite).supports .regex = false ∧
    (∃ query, albumResolver.compileFilter album plainName
        (CompileOptions.standard.holding (Capability.detect unaskedSqlite)) = .ok query ∧
      albumResolver.compileFilter album plainName
        (CompileOptions.standard.holding (Capability.detect searchingSqlite)) = .ok query) ∧
    (∃ query, albumResolver.compileFilter album searchedName
      (CompileOptions.standard.holding (Capability.detect searchingSqlite)) = .ok query) ∧
    ∃ f version, albumResolver.compileFilter album searchedName
      (CompileOptions.standard.holding (Capability.detect unaskedSqlite)) =
        .error (.capabilityMissing f .sqlite version) := by
  have degrades := Resolver.degradation_monotone unaskedSqlite_worsens
  have plain : (albumResolver.compileFilter album plainName
      (CompileOptions.standard.holding (Capability.detect unaskedSqlite))).isOk = true := by decide +kernel
  have searched : (albumResolver.compileFilter album searchedName
      (CompileOptions.standard.holding (Capability.detect searchingSqlite))).isOk = true := by decide +kernel
  have refused : (albumResolver.compileFilter album searchedName
      (CompileOptions.standard.holding (Capability.detect unaskedSqlite))).isOk = false := by decide +kernel
  refine ⟨unaskedSqlite_worsens, by decide +kernel, by decide +kernel, ?_, ok_of_isOk searched, ?_⟩
  · obtain ⟨query, compiled⟩ := ok_of_isOk plain
    exact ⟨query, compiled, (degrades.2.2 albumResolver album plainName .standard).1 query compiled⟩
  · rcases (degrades.2.2 albumResolver album searchedName .standard).2.2.1 with same | ⟨f, _, missing⟩
    · rw [same, searched] at refused
      cases refused
    · exact ⟨f, _, missing⟩

end FilterQuery
