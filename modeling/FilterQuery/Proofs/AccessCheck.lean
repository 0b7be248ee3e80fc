import FilterQuery.Proofs.LeafVerdict
import FilterQuery.Proofs.SelectScopes

namespace FilterQuery

-- Some leading part of the path is in the list.
def FieldPath.OpenedBy (allowed : List String) (path : FieldPath) : Prop :=
  ∃ above rest, above ≠ [] ∧ path.segments = above ++ rest ∧ (FieldPath.mk above).dotted ∈ allowed

theorem FieldAccess.allows_only {allowed : List String} {path : FieldPath} :
    (FieldAccess.only allowed).allows path = true ↔ path.OpenedBy allowed := by
  simp only [allows, FieldPath.leadingParts, List.any_map, List.any_eq_true, List.mem_range, Function.comp,
    List.contains_iff_mem]
  constructor
  · rintro ⟨n, short, member⟩
    refine ⟨path.segments.take (n + 1), path.segments.drop (n + 1), ?_, (List.take_append_drop _ _).symm, member⟩
    intro empty
    have length := congrArg List.length empty
    rw [List.length_take, List.length_nil] at length
    omega
  · rintro ⟨above, rest, nonempty, shape, member⟩
    have long := List.length_pos_iff.mpr nonempty
    refine ⟨above.length - 1, ?_, ?_⟩
    · rw [shape, List.length_append]
      omega
    · rw [shape, Nat.sub_add_cancel long, List.take_left]
      exact member

instance (allowed : List String) (path : FieldPath) : Decidable (path.OpenedBy allowed) :=
  decidable_of_iff _ FieldAccess.allows_only

namespace FilterNode

-- Adding what is new keeps the first of each.
theorem foldl_addNew [DecidableEq α] (xs seen : List α) :
    xs.foldl addNew seen = seen ++ (xs.filter fun x => x ∉ seen).eraseDups := by
  induction xs generalizing seen with
  | nil => simp
  | cons x rest ih =>
    rw [List.foldl_cons, ih, addNew]
    split
    · rename_i known
      rw [List.filter_cons_of_neg (by simpa using known)]
    · rename_i new
      rw [List.filter_cons_of_pos (by simpa using new), List.eraseDups_cons, List.append_assoc, List.singleton_append,
        List.filter_filter]
      have both : ∀ y, decide (y ∉ seen ++ [x]) = (!y == x && decide (y ∉ seen)) := by
        intro y
        rw [Bool.eq_iff_iff]
        simp [and_comm]
      simp only [both]

theorem eraseDups_eq_foldl [DecidableEq α] (xs : List α) : xs.eraseDups = xs.foldl addNew [] := by
  rw [foldl_addNew, List.nil_append, List.filter_eq_self.mpr (by simp)]

-- Whether copies go before or after the elements are mapped makes no difference in the end.
theorem foldl_addNew_filterMap [DecidableEq α] [DecidableEq β] (f : α → Option β) (xs seen : List α) :
    ((xs.foldl addNew seen).filterMap f).foldl addNew [] =
      (xs.filterMap f).foldl addNew ((seen.filterMap f).foldl addNew []) := by
  induction xs generalizing seen with
  | nil => rfl
  | cons x rest ih =>
    have step : ((addNew seen x).filterMap f).foldl addNew [] =
        ([x].filterMap f).foldl addNew ((seen.filterMap f).foldl addNew []) := by
      unfold addNew
      split
      · rename_i known
        cases found : f x with
        | none => simp [found]
        | some y =>
          have present : y ∈ (seen.filterMap f).foldl addNew [] := by
            rw [mem_foldl_addNew]
            exact .inr (List.mem_filterMap.mpr ⟨x, known, found⟩)
          rw [List.filterMap_cons_some found, List.filterMap_nil, List.foldl_cons, List.foldl_nil]
          exact (if_pos present).symm
      · rw [List.filterMap_append, List.foldl_append]
    rw [List.foldl_cons, ih, step, ← List.foldl_append, ← List.filterMap_append, List.singleton_append]

end FilterNode

-- The refused paths by their dotted forms, each form once, where it is first seen.
theorem FieldAccess.denied_eq (access : FieldAccess) (node : FilterNode) :
    access.denied node.referencedPaths =
      (((node.leaves.map Leaf.field).filter fun path => !access.allows path).map FieldPath.dotted).eraseDups := by
  let refused : FieldPath → Option String := fun path => if access.allows path then .none else some path.dotted
  have noted : ∀ (paths : List FieldPath) (denied : List String), paths.foldl access.noteDenied denied =
      (paths.filterMap refused).foldl FilterNode.addNew denied := by
    intro paths
    induction paths with
    | nil => exact fun _ => rfl
    | cons path rest ih =>
      intro denied
      rw [List.foldl_cons, ih]
      cases passed : access.allows path with
      | true => simp [noteDenied, passed, refused]
      | false => simp [noteDenied, passed, refused, FilterNode.addNew]
  have shape : ∀ paths : List FieldPath, paths.filterMap refused =
      (paths.filter fun path => !access.allows path).map FieldPath.dotted := by
    intro paths
    induction paths with
    | nil => rfl
    | cons path rest ih => cases passed : access.allows path <;> simp [refused, passed, ← ih]
  rw [denied, noted, FilterNode.referencedPaths, FilterNode.foldl_addNew_filterMap, ← shape,
    FilterNode.eraseDups_eq_foldl]
  rfl

-- A check refuses paths exactly if it finds some to refuse.
theorem FieldAccess.check_unauthorized {access : FieldAccess} {paths : List FieldPath} :
    access.check paths = .error (.unauthorizedField fields) ↔ access.denied paths = fields ∧ fields ≠ [] := by
  unfold check
  split
  · rename_i allowed
    simp only [reduceCtorEq, false_iff, not_and, allowed]
    rintro rfl
    simp
  · rename_i refused
    simp only [Except.error.injEq, FilterError.unauthorizedField.injEq]
    constructor
    · rintro rfl
      exact ⟨rfl, refused⟩
    · exact And.left

namespace Resolver

variable {r : Resolver} {a : Adapter} {q : Queryable} {node : FilterNode} {options : CompileOptions}

-- Nothing but the check of the paths refuses a field.
theorem compileFilter_unauthorized (served : r.adapterFor q = .ok a) (valid : node.validate = .ok ()) :
    r.compileFilter q node options = .error (.unauthorizedField fields) ↔
      options.access.denied node.referencedPaths = fields ∧ fields ≠ [] := by
  rw [← FieldAccess.check_unauthorized]
  constructor
  · intro failed
    unfold compileFilter applyFilter at failed
    simp only [bind_fault] at failed
    rcases failed with unserved | ⟨_, _, invalid | ⟨_, _, denied | ⟨_, _, deep | ⟨_, _, failed⟩⟩⟩⟩
    · rw [served] at unserved
      cases unserved
    · rw [valid] at invalid
      cases invalid
    · exact denied
    · cases checkDepths_ofTest deep
    · split at failed
      · cases failed
      · simp only [bind_fault] at failed
        rcases failed with unserved | ⟨_, _, failed | ⟨_, _, failed⟩⟩
        · rw [served] at unserved
          cases unserved
        · cases Route.compile_ofTest _ failed
        · split at failed <;> cases failed
  · intro denied
    rw [compileFilter, served, applyFilter, valid]
    simp only [bind, Except.bind, denied]

end Resolver

namespace QueryStep

variable {r : Resolver} {steps : List QueryStep} {base query : CompiledQuery} {path : FieldPath}

def access : QueryStep → FieldAccess
  | filter _ _ options => options.access
  | order _ _ options => options.access

-- A path that a step names and may name.
def Authorized (steps : List QueryStep) (path : FieldPath) : Prop :=
  ∃ step ∈ steps, path ∈ step.fields ∧ step.access.allows path = true

theorem run_authorized {step : QueryStep} (ran : step.run r base = .ok query) :
    ∀ path ∈ step.fields, step.access.allows path = true := by
  cases step with
  | filter root node options =>
    obtain ⟨_, checked, _⟩ := Resolver.applyFilter_parts.mp ran
    rw [FieldAccess.check_exact, FilterNode.forall_referencedPaths] at checked
    exact List.forall_mem_map.mpr checked
  | order root terms options =>
    rw [run, Resolver.applyOrder] at ran
    split at ran
    · rename_i empty
      simp [fields, List.isEmpty_iff.mp empty]
    · obtain ⟨_, checked, _⟩ := bind_exact.mp ran
      exact FieldAccess.check_exact.mp checked

theorem runAll_authorized (ran : runAll r base steps = .ok query) :
    ∀ step ∈ steps, ∀ path ∈ step.fields, Authorized steps path := by
  induction steps generalizing base with
  | nil => simp
  | cons first rest ih =>
    obtain ⟨mid, here, later⟩ := bind_exact.mp ran
    intro step member path named
    rcases List.mem_cons.mp member with rfl | among
    · exact ⟨step, member, named, run_authorized here path named⟩
    · obtain ⟨other, within, authorized⟩ := ih later step among path named
      exact ⟨other, List.mem_cons_of_mem _ within, authorized⟩

-- The last name of an authorized path, under the binding of the path. An empty binding is not written.
def TellsColumn (base : CompiledQuery) (steps : List QueryStep) (table : Option String) (name : String) : Prop :=
  ∃ before : FieldPath, Authorized steps (before.child name) ∧
    (table = some (base.bindingAt before) ∨ table = none ∧ base.bindingAt before = "")

def authorizedRules (r : Resolver) (base : CompiledQuery) (steps : List QueryStep) : ScopeRules where
  link := Links r steps
  column _ table name := TellsColumn base steps table name
  key names binding := binding ∈ names
  column_wider _ told := told
  key_own here := here
  key_wider within here := within here

theorem authorizedRules_tells (authorized : Authorized steps path) : (authorizedRules r base steps).Tells base path := by
  rintro before name rfl names _
  refine ⟨⟨before, authorized, ?_⟩, before, authorized, .inl rfl⟩
  unfold qualifier
  split
  · rename_i empty
    exact .inr ⟨rfl, String.isEmpty_iff.mp empty⟩
  · exact .inl rfl

-- What the SELECT and those inside it are written of, their joins aside.
def ReadsAuthorized (r : Resolver) (base : CompiledQuery) (steps : List QueryStep) (s : Select) : Prop :=
  ∀ around t, s.Holds around t → ∀ e ∈ t.clauses,
    (∀ table name, .column table name ∈ e.reads → TellsColumn base steps table name) ∨
    ∃ parent hop, Links r steps hop ∧ hop.link.cardinality = .many ∧ parent ∈ around ∧
      e = correlation parent t.binding hop.link

theorem runAll_readsAuthorized {s : Select} (laid : s.Laid (authorizedRules r (.sql d s) steps))
    (ran : runAll r (.sql d s) steps = .ok query) :
    ∃ d' s', query = .sql d' s' ∧ ReadsAuthorized r (.sql d s) steps s' := by
  have authorized := runAll_authorized ran
  obtain ⟨d', s', rfl, _, _, after⟩ := runAll_laid laid
    (fun step member => ⟨fun hop reached => ⟨step, member, reached⟩,
      fun path named => authorizedRules_tells (authorized step member path named)⟩) ran
  refine ⟨d', s', rfl, ?_⟩
  intro around t holds e written
  rcases (after.holds holds).clauses e written with reads | tied
  · refine .inl ?_
    intro table name read
    cases reads _ read with
    | column told => exact told
  · exact .inr tied

end QueryStep

-- The paths of leaves that are not opened, each dotted form once.
def FilterNode.unopened (allowed : List String) (node : FilterNode) : List String :=
  (((node.leaves.map Leaf.field).filter fun path => ¬path.OpenedBy allowed).map FieldPath.dotted).eraseDups

theorem FieldAccess.denied_only (allowed : List String) (node : FilterNode) :
    (FieldAccess.only allowed).denied node.referencedPaths = node.unopened allowed := by
  have refuses : ∀ path : FieldPath, (!(only allowed).allows path) = decide ¬path.OpenedBy allowed := by
    intro path
    rw [Bool.eq_iff_iff]
    simp [← allows_only]
  simp only [denied_eq, FilterNode.unopened, refuses]

theorem FilterNode.unopened_exact {allowed : List String} {node : FilterNode} :
    node.unopened allowed ≠ [] ↔ ∃ l ∈ node.leaves, ¬l.field.OpenedBy allowed := by
  constructor
  · intro denied
    obtain ⟨text, member⟩ := List.exists_mem_of_ne_nil _ denied
    obtain ⟨path, among, _⟩ := List.mem_map.mp (List.mem_eraseDups.mp member)
    obtain ⟨within, closed⟩ := List.mem_filter.mp among
    obtain ⟨l, leaf, rfl⟩ := List.mem_map.mp within
    exact ⟨l, leaf, of_decide_eq_true closed⟩
  · rintro ⟨l, leaf, closed⟩
    refine List.ne_nil_of_mem (List.mem_eraseDups.mpr (List.mem_map_of_mem (a := l.field) ?_))
    exact List.mem_filter.mpr ⟨List.mem_map_of_mem leaf, decide_eq_true closed⟩

namespace Resolver

-- A filter with a path that is not opened is refused with all such paths, and alike by every definition. Whatever
-- compiles, filter or order, is written of columns that its paths name and of keys of to-many associations.
theorem compileFilter_authorizes {r : Resolver} {a : Adapter} {q : Queryable} {node : FilterNode}
    {options : CompileOptions} {allowed : List String} (served : r.adapterFor q = .ok a)
    (valid : node.validate = .ok ()) (only : options.access = .only allowed) :
    ((∃ fields, r.compileFilter q node options = .error (.unauthorizedField fields)) ↔
      ∃ l ∈ node.leaves, ¬l.field.OpenedBy allowed) ∧
    (∀ fields, r.compileFilter q node options = .error (.unauthorizedField fields) →
      fields = node.unopened allowed ∧
      ∀ (r' : Resolver) (a' : Adapter) (q' : Queryable) (node' : FilterNode) (options' : CompileOptions),
        r'.adapterFor q' = .ok a' → node'.validate = .ok () → options'.access = .only allowed →
          node'.leaves.map Leaf.field = node.leaves.map Leaf.field →
            r'.compileFilter q' node' options' = .error (.unauthorizedField fields)) ∧
    ∀ d base, CompiledQuery.forQueryable q = .sql d base →
      (∀ query, r.compileFilter q node options = .ok query →
        ∃ d' s, query = .sql d' s ∧ QueryStep.ReadsAuthorized r (.sql d base) [.filter q node options] s) ∧
      ∀ steps query, QueryStep.runAll r (.sql d base) steps = .ok query →
        ∃ d' s, query = .sql d' s ∧ QueryStep.ReadsAuthorized r (.sql d base) steps s := by
  have refused : ∀ fields, r.compileFilter q node options = .error (.unauthorizedField fields) ↔
      node.unopened allowed = fields ∧ fields ≠ [] := by
    intro fields
    rw [compileFilter_unauthorized served valid, only, FieldAccess.denied_only]
  refine ⟨?_, ?_, ?_⟩
  · rw [← FilterNode.unopened_exact]
    simp [refused]
  · intro fields failed
    obtain ⟨listed, nonempty⟩ := (refused fields).mp failed
    refine ⟨listed.symm, ?_⟩
    intro r' a' q' node' options' served' valid' only' paths
    rw [compileFilter_unauthorized served' valid', only', FieldAccess.denied_only, FilterNode.unopened, paths]
    exact ⟨listed, nonempty⟩
  · intro d base start
    have laid : ∀ steps, base.Laid (QueryStep.authorizedRules r (.sql d base) steps) := by
      intro steps
      unfold CompiledQuery.forQueryable at start
      split at start <;> cases start
      exact Select.laid_new _ q.source
    have whole : ∀ steps query, QueryStep.runAll r (.sql d base) steps = .ok query →
        ∃ d' s, query = .sql d' s ∧ QueryStep.ReadsAuthorized r (.sql d base) steps s :=
      fun steps _ ran => QueryStep.runAll_readsAuthorized (laid steps) ran
    refine ⟨?_, whole⟩
    intro query compiled
    obtain ⟨_, _, applied⟩ := bind_exact.mp compiled
    rw [start] at applied
    exact whole _ query (bind_exact.mpr ⟨query, applied, rfl⟩)

end Resolver

def opening (allowed : List String) : CompileOptions := { CompileOptions.standard with access := .only allowed }

def titledAlbum : FilterNode :=
  .combine .and [
    .leaf ⟨⟨["name"]⟩, .neq, .str "a"⟩,
    .leaf ⟨⟨["tracks", "title"]⟩, .eq, .str "b"⟩,
    .leaf ⟨⟨["name"]⟩, .neq, .str "c"⟩]

theorem titledAlbum_access : albumResolver.adapterFor album = .ok .sqlite ∧ titledAlbum.validate = .ok () ∧
    albumResolver.compileFilter album titledAlbum (opening ["tracks"]) = .error (.unauthorizedField ["name"]) ∧
    ∃ d s, albumResolver.compileFilter album titledAlbum (opening ["tracks", "name"]) = .ok (.sql d s) ∧
      QueryStep.ReadsAuthorized albumResolver (.forQueryable album)
        [.filter album titledAlbum (opening ["tracks", "name"])] s := by
  have served : albumResolver.adapterFor album = .ok .sqlite := by rfl
  have valid : titledAlbum.validate = .ok () := rfl
  refine ⟨served, valid, ?_, ?_⟩
  · obtain ⟨refused, listed, _⟩ := Resolver.compileFilter_authorizes served valid (rfl : (opening ["tracks"]).access = _)
    obtain ⟨fields, failed⟩ := refused.mpr (by decide +kernel)
    have found : titledAlbum.unopened ["tracks"] = ["name"] := by decide +kernel
    rw [failed, (listed fields failed).1, found]
  · have accepted : (albumResolver.compileFilter album titledAlbum (opening ["tracks", "name"])).isOk = true := by
      decide +kernel
    obtain ⟨query, compiled⟩ := ok_of_isOk accepted
    obtain ⟨_, _, authorized⟩ :=
      Resolver.compileFilter_authorizes served valid (rfl : (opening ["tracks", "name"]).access = _)
    obtain ⟨d, s, rfl, reads⟩ := (authorized _ _ rfl).1 query compiled
    exact ⟨d, s, compiled, reads⟩

def firm : Queryable := (Queryable.new "Firm" "firms" .postgres).withColumn "name" "text" false

-- The association is named by the empty text.
def clerk : Queryable := (Queryable.new "Clerk" "clerks" .postgres).belongsTo "" "Firm" "firm_id"

def clerkResolver : Resolver :=
  { Resolver.ofAdapters .standard .standard with registry := (Registry.empty.register firm).register clerk }

def firmNamed : FilterNode := .leaf ⟨⟨["", "name"]⟩, .eq, .str "a"⟩

-- The column that is compared with a value.
def Expr.compared? : Expr → Option (Option String × String)
  | binary (column table name) .eq (value _) => some (table, name)
  | _ => none

-- A column of the firm stands alone.
theorem firmNamed_unqualified : ¬∀ (r : Resolver) (q : Queryable) (node : FilterNode) (allowed : List String)
    (d : Dialect) (s : Select), r.compileFilter q node (opening allowed) = .ok (.sql d s) →
      ∀ e ∈ s.conditions, (∀ parent binding link, e ≠ correlation parent binding link) →
        ∀ table name, .column table name ∈ e.reads →
          ∃ before : FieldPath, QueryStep.Authorized [.filter q node (opening allowed)] (before.child name) ∧
            table = some ((CompiledQuery.forQueryable q).bindingAt before) := by
  intro all
  have computed : ((clerkResolver.compileFilter clerk firmNamed (opening [".name"])).toOption.bind
      CompiledQuery.select?).map (fun s => s.conditions.map Expr.compared?) = some [some (none, "name")] := by
    decide +kernel
  obtain ⟨d, s, compiled, shape⟩ := CompiledQuery.select_of_computed computed
  obtain ⟨e, conditions, plain⟩ := List.map_eq_singleton_iff.mp shape
  unfold Expr.compared? at plain
  split at plain
  · rename_i value
    cases plain
    have member : Expr.binary (.column none "name") .eq (.value value) ∈ s.conditions := by
      rw [conditions]
      exact List.mem_singleton.mpr rfl
    obtain ⟨_, _, qualified⟩ := all _ _ _ _ d s compiled _ member (by simp [correlation]) none "name"
      (by simp)
    cases qualified
  · cases plain

end FilterQuery
