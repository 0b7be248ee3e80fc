import FilterQuery.Proofs.LeafAcceptance
import FilterQuery.Proofs.OperandForms
import FilterQuery.Proofs.OperatorOffers

namespace FilterQuery

namespace FilterContext

variable {c : FilterContext}

theorem requireFeature_exact (measured : c.options.capability = some cap) :
    c.requireFeature ty op = .ok () ↔
      ∀ feature, c.adapter.requiredFeature ty op = some feature → cap.supports feature = true := by
  rw [requireFeature, measured]
  cases c.adapter.requiredFeature ty op with
  | none => simp
  | some feature => simp [Capability.require]

theorem requireFeature_fault (held : c.requireFeature ty op = .error fault) :
    ∃ feature adapter version, fault = .capabilityMissing feature adapter version := by
  unfold requireFeature at held
  split at held
  · rename_i cap feature _ _
    unfold Capability.require at held
    split at held <;> cases held
    exact ⟨feature, cap.adapter, cap.version, rfl⟩
  · cases held

theorem coerce_fault (unread : Operand.coerce field op ty members raw = .error fault) :
    ∃ cause, fault = .invalidValue field op cause := by
  unfold Operand.coerce at unread
  split at unread <;> cases unread
  exact ⟨_, rfl⟩

variable {scope : Scope} {path : FieldPath} {f : Field} {l : Leaf}

-- The checks of a leaf in their order, each reached by what passed those before it.
theorem typed_fault (scalar : f.type? = some ty) : c.typed scope path f ty l = .error fault ↔
    c.adapter.implements ty l.operator = false ∧
        fault = .unsupportedOperator path.dotted l.operator.tag (.notAvailable ty c.adapter) ∨
      c.adapter.implements ty l.operator = true ∧ (c.requireFeature ty l.operator = .error fault ∨
        c.requireFeature ty l.operator = .ok () ∧
          Operand.coerce path.dotted l.operator ty f.enumMembers l.value = .error fault) := by
  unfold typed
  cases offered : c.adapter.implements ty l.operator with
  | false => simp [throw, throwThe, MonadExceptOf.throw, bind, Except.bind, eq_comm]
  | true =>
    simp only [Bool.not_true, Bool.false_eq_true, Bool.true_eq_false, if_false, bind_fault, true_and, false_and, false_or]
    refine or_congr Iff.rfl ?_
    constructor
    · rintro ⟨_, ready, unread | ⟨operand, coerced, unbuilt⟩⟩
      · exact ⟨ready, unread⟩
      · obtain ⟨p, built⟩ := Adapter.predicate_built scalar offered coerced ⟨some scope.binding, c.options.unit⟩
        rw [built] at unbuilt
        cases unbuilt
    · rintro ⟨ready, unread⟩
      exact ⟨(), ready, .inl unread⟩

theorem typed_succeeds (scalar : f.type? = some ty) : (∃ p, c.typed scope path f ty l = .ok p) ↔
    c.adapter.implements ty l.operator = true ∧ c.requireFeature ty l.operator = .ok () ∧
      ∃ operand, Operand.coerce path.dotted l.operator ty f.enumMembers l.value = .ok operand := by
  constructor
  · rintro ⟨p, typed⟩
    obtain ⟨offered, ready, operand, coerced, _⟩ := typed_parts.mp typed
    exact ⟨offered, ready, operand, coerced⟩
  · rintro ⟨offered, ready, operand, coerced⟩
    obtain ⟨p, built⟩ := Adapter.predicate_built scalar offered coerced ⟨some scope.binding, c.options.unit⟩
    exact ⟨p, typed_parts.mpr ⟨offered, ready, operand, coerced, built⟩⟩

theorem typed_unsupported (scalar : f.type? = some ty) :
    (∃ given tag reason, c.typed scope path f ty l = .error (.unsupportedOperator given tag reason)) ↔
      ¬c.adapter.implements ty l.operator = true := by
  simp only [typed_fault scalar, Bool.not_eq_true]
  constructor
  · rintro ⟨given, tag, reason, ⟨refused, _⟩ | ⟨_, held | ⟨_, unread⟩⟩⟩
    · exact refused
    · obtain ⟨_, _, _, same⟩ := requireFeature_fault held
      cases same
    · obtain ⟨_, same⟩ := coerce_fault unread
      cases same
  · intro refused
    exact ⟨_, _, _, .inl ⟨refused, rfl⟩⟩

theorem typed_missing (scalar : f.type? = some ty) :
    (∃ feature backend version, c.typed scope path f ty l = .error (.capabilityMissing feature backend version)) ↔
      c.adapter.implements ty l.operator = true ∧ c.requireFeature ty l.operator ≠ .ok () := by
  simp only [typed_fault scalar]
  constructor
  · rintro ⟨feature, backend, version, ⟨_, same⟩ | ⟨offered, held | ⟨_, unread⟩⟩⟩
    · cases same
    · refine ⟨offered, ?_⟩
      rw [held]
      simp
    · obtain ⟨_, same⟩ := coerce_fault unread
      cases same
  · rintro ⟨offered, missing⟩
    cases held : c.requireFeature ty l.operator with
    | ok _ => exact absurd held missing
    | error fault =>
      obtain ⟨feature, backend, version, rfl⟩ := requireFeature_fault held
      exact ⟨feature, backend, version, .inr ⟨offered, .inl rfl⟩⟩

theorem typed_invalid (scalar : f.type? = some ty) :
    (∃ given op cause, c.typed scope path f ty l = .error (.invalidValue given op cause)) ↔
      c.adapter.implements ty l.operator = true ∧ c.requireFeature ty l.operator = .ok () ∧
        ∃ fault, Operand.coerce path.dotted l.operator ty f.enumMembers l.value = .error fault := by
  simp only [typed_fault scalar]
  constructor
  · rintro ⟨given, op, cause, ⟨_, same⟩ | ⟨offered, held | ⟨ready, unread⟩⟩⟩
    · cases same
    · obtain ⟨_, _, _, same⟩ := requireFeature_fault held
      cases same
    · exact ⟨offered, ready, _, unread⟩
  · rintro ⟨offered, ready, fault, unread⟩
    obtain ⟨cause, rfl⟩ := coerce_fault unread
    exact ⟨_, _, cause, .inr ⟨offered, .inr ⟨ready, unread⟩⟩⟩

end FilterContext

theorem FieldPath.dotted_single (name : String) : (FieldPath.mk [name]).dotted = name := by
  simp [dotted, joined]

namespace Resolver

variable {r : Resolver} {a : Adapter} {q : Queryable} {options : CompileOptions}

-- A leaf on a field of the root is its checks and nothing around them.
theorem compileFilter_typed (op : Operator) (raw : Json) (served : r.adapterFor q = .ok a)
    (named : (a.fields q).find? (·.name == name) = some f) (scalar : f.type? = some ty)
    (permitted : options.access.allows ⟨[name]⟩ = true) : ∃ binding,
      (∀ fault, r.compileFilter q (.leaf ⟨⟨[name]⟩, op, raw⟩) options = .error fault ↔
        FilterContext.typed ⟨r, a, options⟩ (.root q binding) ⟨[name]⟩ f ty ⟨⟨[name]⟩, op, raw⟩ = .error fault) ∧
      ((∃ query, r.compileFilter q (.leaf ⟨⟨[name]⟩, op, raw⟩) options = .ok query) ↔
        ∃ p, FilterContext.typed ⟨r, a, options⟩ (.root q binding) ⟨[name]⟩ f ty ⟨⟨[name]⟩, op, raw⟩ = .ok p) := by
  let c : FilterContext := ⟨r, a, options⟩
  let l : Leaf := ⟨⟨[name]⟩, op, raw⟩
  let base := CompiledQuery.forQueryable q
  let scope := Scope.root q base.rootBinding
  have own : a.kind = base.kind := by
    rw [CompiledQuery.kind_forQueryable, AdapterSet.forQueryable_exact served]
  have tested : c.test scope l = c.typed scope ⟨[name]⟩ f ty l := by
    have found : c.resolver.field c.adapter scope.queryable name (scope.path.append l.field) = .ok f :=
      field_exact.mpr named
    rw [FilterContext.test]
    simp only [l, FieldPath.head?, List.head?_cons, found, scalar, bind, Except.bind]
    rfl
  have checked : options.access.check (FilterNode.leaf l).referencedPaths = .ok () := by
    rw [FieldAccess.check_exact, FilterNode.forall_referencedPaths]
    simpa [FilterNode.leaves, l] using permitted
  have shallow : r.checkDepths (FilterNode.leaf l).referencedPaths = .ok () := by
    rw [checkDepths_exact, FilterNode.forall_referencedPaths]
    simp [FilterNode.leaves, l, checkDepth, FieldPath.length]
  have route : Route.ofNode r.settings.reorder (.leaf l) = .test l := Route.ofNode_flat _ rfl
  have whole : r.compileFilter q (.leaf l) options = c.typed scope ⟨[name]⟩ f ty l >>= fun p =>
      (base.andPredicate? p).elim (.error (.adapterUnavailable q.id)) .ok := by
    have valid : (FilterNode.leaf l).validate = .ok () := rfl
    simp only [compileFilter, applyFilter, served, checked, shallow, valid, FilterNode.isEmpty, route]
    rw [← tested]
    change ((Route.test l).compile c scope base >>= _) = _
    simp only [Route.compile]
    cases c.test scope l with
    | error fault => rfl
    | ok p =>
      simp only [bind, Except.bind, pure, Except.pure]
      cases base.andPredicate? p <;> rfl
  have narrows : ∀ p, c.typed scope ⟨[name]⟩ f ty l = .ok p → ∃ narrowed, base.andPredicate? p = some narrowed := by
    intro p typed
    rw [← tested] at typed
    exact CompiledQuery.andPredicate_exact.mpr ((Route.test_predicate typed).1.trans own)
  refine ⟨base.rootBinding, ?_, ?_⟩
  · intro fault
    rw [whole, bind_fault]
    constructor
    · rintro (failed | ⟨p, typed, unfit⟩)
      · exact failed
      · obtain ⟨narrowed, fits⟩ := narrows p typed
        rw [fits] at unfit
        cases unfit
    · exact .inl
  · rw [whole]
    constructor
    · rintro ⟨query, accepted⟩
      obtain ⟨p, typed, _⟩ := bind_exact.mp accepted
      exact ⟨p, typed⟩
    · rintro ⟨p, typed⟩
      obtain ⟨narrowed, fits⟩ := narrows p typed
      exact ⟨narrowed, bind_exact.mpr ⟨p, typed, by rw [fits, Option.elim_some]⟩⟩

end Resolver

-- Every refusal but the one for an operand that was read and has no predicate.
def FilterError.Foreseen : FilterError → Prop
  | .unsupportedOperator _ _ .noPredicate => False
  | _ => True

-- What a test fails with, or the way to it.
inductive FilterError.OfTest : FilterError → Prop
  | unknown : OfTest (.unknownField definition field)
  | onAssociation : OfTest (.unsupportedOperator path tag .onAssociation)
  | refused : OfTest (.unsupportedOperator path tag (.notAvailable ty a))
  | missing : OfTest (.capabilityMissing feature a version)
  | unread : OfTest (.invalidValue path op cause)
  | malformed : OfTest (.malformedFilter cause)

theorem FilterError.OfTest.foreseen {fault : FilterError} (own : fault.OfTest) : fault.Foreseen := by
  cases own <;> trivial

theorem FilterContext.typed_ofTest {c : FilterContext} (scalar : f.type? = some ty)
    (failed : c.typed scope path f ty l = .error fault) : fault.OfTest := by
  rcases (typed_fault scalar).mp failed with ⟨_, rfl⟩ | ⟨_, held | ⟨_, unread⟩⟩
  · exact .refused
  · obtain ⟨_, _, _, rfl⟩ := requireFeature_fault held
    exact .missing
  · obtain ⟨_, rfl⟩ := coerce_fault unread
    exact .unread

theorem Resolver.field_ofTest {r : Resolver} (failed : r.field a q name path = .error fault) : fault.OfTest := by
  unfold field at failed
  split at failed <;> cases failed
  exact .unknown

theorem Resolver.hop_ofTest {r : Resolver} (failed : r.hop f path = .error fault) : fault.OfTest := by
  unfold hop at failed
  split at failed
  · cases failed
    exact .unknown
  · split at failed <;> cases failed
    exact .unknown

theorem FilterContext.test_ofTest {c : FilterContext} (failed : c.test scope l = .error fault) : fault.OfTest := by
  unfold test at failed
  split at failed
  · cases failed
    exact .malformed
  · rcases bind_fault.mp failed with unknown | ⟨f, _, failed⟩
    · exact Resolver.field_ofTest unknown
    · split at failed
      · cases failed
        exact .onAssociation
      · rename_i ty scalar
        exact typed_ofTest scalar failed

namespace Route

variable {c : FilterContext}

mutual
theorem compile_ofTest (route : Route) {scope : Scope} {q : CompiledQuery}
    (failed : route.compile c scope q = .error fault) : fault.OfTest := by
  cases route with
  | test l =>
    simp only [compile, bind_fault] at failed
    rcases failed with failed | ⟨p, _, failed⟩
    · exact FilterContext.test_ofTest failed
    · cases failed
  | negate inner =>
    simp only [compile, bind_fault] at failed
    rcases failed with failed | ⟨_, _, failed⟩
    · exact compile_ofTest inner failed
    · cases failed
  | join op parts =>
    simp only [compile, bind_fault] at failed
    rcases failed with failed | ⟨_, _, failed⟩
    · exact compileAll_ofTest parts failed
    · cases failed
  | through head inner =>
    simp only [compile, bind_fault] at failed
    rcases failed with unknown | ⟨f, _, unlinked | ⟨hop, _, failed⟩⟩
    · exact Resolver.field_ofTest unknown
    · exact Resolver.hop_ofTest unlinked
    · split at failed
      · exact compile_ofTest inner failed
      · rcases bind_fault.mp failed with failed | ⟨_, _, failed⟩
        · exact compile_ofTest inner failed
        · split at failed <;> cases failed
          exact .malformed

theorem compileAll_ofTest (parts : List Route) {scope : Scope} {q : CompiledQuery}
    (failed : compileAll c scope parts q = .error fault) : fault.OfTest := by
  cases parts with
  | nil => cases failed
  | cons part rest =>
    simp only [compileAll, bind_fault] at failed
    rcases failed with failed | ⟨_, _, failed | ⟨_, _, failed⟩⟩
    · exact compile_ofTest part failed
    · exact compileAll_ofTest rest failed
    · cases failed
end

end Route

namespace FilterNode

theorem validateLeaf_foreseen (failed : validateLeaf l = .error fault) : fault.Foreseen := by
  unfold validateLeaf at failed
  split at failed <;> cases failed
  trivial

mutual
theorem validate_foreseen (n : FilterNode) (failed : n.validate = .error fault) : fault.Foreseen := by
  cases n with
  | leaf l => exact validateLeaf_foreseen failed
  | combine op children =>
    cases op with
    | and => exact validateAll_foreseen children failed
    | or => exact validateAll_foreseen children failed
    | not =>
      rw [validate] at failed
      split at failed
      · exact validateAll_foreseen children failed
      · cases failed
        trivial

theorem validateAll_foreseen (nodes : List FilterNode) (failed : validateAll nodes = .error fault) :
    fault.Foreseen := by
  cases nodes with
  | nil => cases failed
  | cons n rest =>
    rcases bind_fault.mp failed with failed | ⟨_, _, failed⟩
    · exact validate_foreseen n failed
    · exact validateAll_foreseen rest failed
end

end FilterNode

namespace Resolver

variable {r : Resolver} {a : Adapter} {q : Queryable} {options : CompileOptions}

theorem adapterFor_foreseen (failed : r.adapterFor q = .error fault) : fault.Foreseen := by
  unfold adapterFor AdapterSet.forQueryable at failed
  split at failed <;> cases failed
  trivial

theorem check_foreseen {access : FieldAccess} (failed : access.check paths = .error fault) : fault.Foreseen := by
  unfold FieldAccess.check at failed
  split at failed <;> cases failed
  trivial

theorem checkDepths_ofTest (failed : r.checkDepths paths = .error fault) : fault.OfTest := by
  induction paths with
  | nil => cases failed
  | cons path rest ih =>
    rcases bind_fault.mp failed with failed | ⟨_, _, failed⟩
    · simp only [checkDepth] at failed
      split at failed <;> cases failed
      exact .malformed
    · exact ih failed

theorem compileFilter_foreseen (failed : r.compileFilter q filter options = .error fault) : fault.Foreseen := by
  unfold compileFilter applyFilter at failed
  simp only [bind_fault] at failed
  rcases failed with unserved | ⟨_, _, invalid | ⟨_, _, denied | ⟨_, _, deep | ⟨_, _, failed⟩⟩⟩⟩
  · exact adapterFor_foreseen unserved
  · exact filter.validate_foreseen invalid
  · exact check_foreseen denied
  · exact (checkDepths_ofTest deep).foreseen
  · split at failed
    · cases failed
    · simp only [bind_fault] at failed
      rcases failed with unserved | ⟨_, _, failed | ⟨_, _, failed⟩⟩
      · exact adapterFor_foreseen unserved
      · exact (Route.compile_ofTest _ failed).foreseen
      · split at failed <;> cases failed
        trivial

-- The table of a test on a field of the root: refused as not offered, held back for a missing feature,
-- refused for its operand, or compiled. No operand that is read is left without a predicate, in any filter.
theorem compileFilter_verdict (op : Operator) (raw : Json) (served : r.adapterFor q = .ok a)
    (named : (a.fields q).find? (·.name == name) = some f) (scalar : f.type? = some ty)
    (measured : options.capability = some cap) (own : cap.adapter = a)
    (permitted : options.access.allows ⟨[name]⟩ = true) :
    let outcome := r.compileFilter q (.leaf ⟨⟨[name]⟩, op, raw⟩) options
    let offered := r.adapters.operatorRegistry.operatorsFor ty a
    let available := r.adapters.operatorRegistry.availableFor ty cap
    let operand := Operand.coerce name op ty f.enumMembers raw
    ((∃ path tag reason, outcome = .error (.unsupportedOperator path tag reason)) ↔ op ∉ offered) ∧
    ((∃ feature backend version, outcome = .error (.capabilityMissing feature backend version)) ↔
      op ∈ offered ∧ op ∉ available) ∧
    ((∃ path given fault, outcome = .error (.invalidValue path given fault)) ↔
      op ∈ available ∧ ∃ fault, operand = .error fault) ∧
    ((∃ query, outcome = .ok query) ↔ op ∈ available ∧ ∃ read, operand = .ok read) ∧
    (∀ read, op ∈ offered → operand = .ok read → ∀ applied, ∃ p, a.predicate? f op read applied = some p) ∧
    ∀ filter options path tag,
      r.compileFilter q filter options ≠ .error (.unsupportedOperator path tag .noPredicate) := by
  subst own
  intro outcome offered available operand
  let c : FilterContext := ⟨r, cap.adapter, options⟩
  obtain ⟨binding, fails, succeeds⟩ := compileFilter_typed op raw served named scalar permitted
  have registered := AdapterSet.mem_of_forQueryable served
  have offered_exact : op ∈ offered ↔ c.adapter.implements ty op = true := AdapterSet.operatorsFor_exact registered
  have available_exact : op ∈ available ↔ c.adapter.implements ty op = true ∧ c.requireFeature ty op = .ok () := by
    rw [FilterContext.requireFeature_exact measured]
    exact AdapterSet.availableFor_exact registered
  refine ⟨?_, ?_, ?_, ?_, ?_, ?_⟩
  · simp only [outcome, fails, FilterContext.typed_unsupported scalar, offered_exact, c]
  · simp only [outcome, fails, FilterContext.typed_missing scalar, offered_exact, available_exact, c]
    exact and_congr_right fun ready => by simp [ready]
  · simp only [outcome, fails, FilterContext.typed_invalid scalar, FieldPath.dotted_single, available_exact, and_assoc,
      operand, c]
  · simp only [outcome, succeeds, FilterContext.typed_succeeds scalar, FieldPath.dotted_single, available_exact,
      and_assoc, operand, c]
  · intro read member coerced applied
    exact Adapter.predicate_built scalar (offered_exact.mp member) coerced applied
  · intro filter options path tag failed
    exact compileFilter_foreseen failed

end Resolver

-- A connection with no optional feature.
def bareSqlite : CompileOptions := { CompileOptions.standard with capability := some (.conservative .sqlite) }

def albumNamed (op : Operator) (raw : Json) : FilterNode := .leaf ⟨⟨["name"]⟩, op, raw⟩

theorem albumNamed_verdicts : ∃ f : Field,
    albumResolver.adapterFor album = .ok .sqlite ∧ (Adapter.sqlite.fields album).find? (·.name == "name") = some f ∧
      f.type? = some .string ∧ bareSqlite.capability = some (.conservative .sqlite) ∧
      (Capability.conservative .sqlite).adapter = .sqlite ∧ bareSqlite.access.allows ⟨["name"]⟩ = true ∧
    (∃ path tag reason, albumResolver.compileFilter album (albumNamed .similar (.str "a")) bareSqlite =
      .error (.unsupportedOperator path tag reason)) ∧
    (∃ feature backend version, albumResolver.compileFilter album (albumNamed .regex (.str "a")) bareSqlite =
      .error (.capabilityMissing feature backend version)) ∧
    (∃ path given fault, albumResolver.compileFilter album (albumNamed .isIn (.str "a")) bareSqlite =
      .error (.invalidValue path given fault)) ∧
    ∃ query, albumResolver.compileFilter album (albumNamed .isIn (.arr [.str "a"])) bareSqlite = .ok query := by
  have served : albumResolver.adapterFor album = .ok .sqlite := by rfl
  obtain ⟨f, named, scalar⟩ : ∃ f, (Adapter.sqlite.fields album).find? (·.name == "name") = some f ∧
      f.type? = some .string := by decide +kernel
  have measured : bareSqlite.capability = some (.conservative .sqlite) := rfl
  have verdict := fun op raw => Resolver.compileFilter_verdict op raw served named scalar measured rfl rfl
  have registered : Adapter.sqlite ∈ albumResolver.adapters.adapters := by decide
  have searched : Operator.regex ∉ albumResolver.adapters.operatorRegistry.availableFor .string (.conservative .sqlite) := by
    rw [AdapterSet.availableFor_exact registered]
    rintro ⟨_, supported⟩
    cases supported .regex rfl
  have listed : Operator.isIn ∈ albumResolver.adapters.operatorRegistry.availableFor .string (.conservative .sqlite) := by
    rw [AdapterSet.availableFor_exact registered]
    refine ⟨by decide, ?_⟩
    intro feature required
    cases required
  refine ⟨f, served, named, scalar, rfl, rfl, rfl, ?_, ?_, ?_, ?_⟩
  · exact (verdict .similar (.str "a")).1.mpr ((not_congr (AdapterSet.operatorsFor_exact registered)).mpr (by decide))
  · exact (verdict .regex (.str "a")).2.1.mpr ⟨(AdapterSet.operatorsFor_exact registered).mpr (by decide), searched⟩
  · exact (verdict .isIn (.str "a")).2.2.1.mpr ⟨listed, _, rfl⟩
  · exact (verdict .isIn (.arr [.str "a"])).2.2.2.1.mpr ⟨listed, _, rfl⟩

end FilterQuery
