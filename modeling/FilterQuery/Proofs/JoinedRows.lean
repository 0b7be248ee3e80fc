import FilterQuery.Proofs.RelatedRows
import FilterQuery.Proofs.SelectScopes

namespace FilterQuery

-- What each name stands for, the latest first: a record, or none where a LEFT JOIN found no match.
abbrev JoinedRow (Record : Type) := List (String × Option Record)

structure Store where
  Record : Type
  Cell : Type
  records : String → List Record
  -- Every column of a record that was not found is NULL.
  cell : Option Record → String → Cell
  equal : Cell → Cell → Truth
  euclidean : ∀ a b c, equal a c = .true → equal b c = .true → equal a b = .true
  -- What a condition comes to on a row.
  test : JoinedRow Record → Expr → Truth
  test_columns : ∀ row table column record table' column' record',
    row.lookup table = some record → row.lookup table' = some record' →
      test row (.binary (.column (some table) column) .eq (.column (some table') column')) =
        equal (cell record column) (cell record' column')
  sorted : List SortKey → List (JoinedRow Record) → List (JoinedRow Record)
  sorted_perm : ∀ keys rows, (sorted keys rows).Perm rows

namespace Store

variable (st : Store)

-- The records that the condition of the join is true for.
def found (row : JoinedRow st.Record) (j : Join) : List st.Record :=
  (st.records j.table).filter fun record => st.test ((j.binding, some record) :: row) j.condition = .true

def joinRow (j : Join) (row : JoinedRow st.Record) : List (JoinedRow st.Record) :=
  match j.kind, st.found row j with
  | .left, [] => [(j.binding, none) :: row]
  | _, records => records.map fun record => (j.binding, some record) :: row

def joinRows (rows : List (JoinedRow st.Record)) (j : Join) : List (JoinedRow st.Record) := rows.flatMap (st.joinRow j)

-- FROM with its joins; two tables of one name are refused.
def from? (s : Select) : Option (List (JoinedRow st.Record)) :=
  if s.names.Nodup then
    some (s.joins.foldl st.joinRows ((st.records s.table).map fun record => [(s.binding, some record)]))
  else none

def keeps (s : Select) (row : JoinedRow st.Record) : Bool :=
  Connective.and.fold (s.conditions.map (st.test row)) = .true

def answer? (s : Select) : Option (List (JoinedRow st.Record)) :=
  (st.from? s).map fun rows => paged s.limit s.offset (st.sorted s.orders (rows.filter (st.keeps s)))

-- No two records of the related table have the same key.
def KeyUnique (hop : Hop) : Prop :=
  (st.records hop.related.source).Pairwise fun a b =>
    st.equal (st.cell (some a) hop.link.relatedKey) (st.cell (some b) hop.link.relatedKey) ≠ .true

variable {st}

theorem lookup_other {row : JoinedRow st.Record} (apart : name ≠ binding) (record : Option st.Record) :
    List.lookup name ((binding, record) :: row) = row.lookup name := by
  rw [List.lookup_cons, beq_false_of_ne apart]

theorem found_once {row : JoinedRow st.Record} {hop : Hop} (unique : st.KeyUnique hop) (binding : String)
    (known : row.lookup parent = some record) (apart : parent ≠ binding) :
    (st.found row ⟨.left, hop.related.source, binding, correlation parent binding hop.link⟩).length ≤ 1 := by
  have compared : ∀ candidate, st.test ((binding, some candidate) :: row) (correlation parent binding hop.link) =
      st.equal (st.cell (some candidate) hop.link.relatedKey) (st.cell record hop.link.ownerKey) := by
    intro candidate
    refine st.test_columns _ _ _ _ _ _ _ List.lookup_cons_self ?_
    rw [lookup_other apart]
    exact known
  have pairwise := unique.filter fun candidate =>
    st.test ((binding, some candidate) :: row) (correlation parent binding hop.link) = .true
  unfold found
  cases listed : (st.records hop.related.source).filter fun candidate =>
      st.test ((binding, some candidate) :: row) (correlation parent binding hop.link) = .true with
  | nil => simp
  | cons first rest =>
    cases rest with
    | nil => simp
    | cons second others =>
      have matching : ∀ candidate ∈ first :: second :: others,
          st.equal (st.cell (some candidate) hop.link.relatedKey) (st.cell record hop.link.ownerKey) = .true := by
        intro candidate member
        rw [← listed] at member
        rw [← compared]
        simpa using (List.mem_filter.mp member).2
      rw [listed, List.pairwise_cons] at pairwise
      exact absurd (st.euclidean _ _ _ (matching first (by simp)) (matching second (by simp)))
        (pairwise.1 second (by simp))

-- The row with what the join finds for it.
def extended (st : Store) (j : Join) (row : JoinedRow st.Record) : JoinedRow st.Record :=
  (j.binding, (st.found row j).head?) :: row

theorem joinRow_once {j : Join} {row : JoinedRow st.Record} (left : j.kind = .left) (once : (st.found row j).length ≤ 1) :
    st.joinRow j row = [st.extended j row] := by
  unfold joinRow extended
  rw [left]
  match listed : st.found row j with
  | [] => rfl
  | [record] => rfl
  | _ :: _ :: _ => simp [listed] at once

end Store

namespace ScopeRules

-- The associations given, from rows whose names are in scope.
def along (link : Hop → Prop) : ScopeRules where
  link := link
  column _ _ _ := True
  key names binding := binding ∈ names
  column_wider _ _ := trivial
  key_own here := here
  key_wider within known := within known

end ScopeRules

namespace Store

variable {st : Store} {link : Hop → Prop}

-- The row starts with one record, and each join extends it once.
theorem foldl_joinRows {joins : List Join} {names : List String} (joined : Joined (.along link) names joins)
    (apart : (names ++ joins.map Join.binding).Nodup)
    (unique : ∀ hop, link hop → hop.link.cardinality = .one → st.KeyUnique hop) {rows : List (JoinedRow st.Record)}
    (known : ∀ row ∈ rows, ∀ name ∈ names, ∃ record, row.lookup name = some record) :
    joins.foldl st.joinRows rows = rows.map fun row => joins.foldl (fun row j => st.extended j row) row := by
  induction joins generalizing names rows with
  | nil => simp
  | cons j rest ih =>
    obtain ⟨⟨parent, hop, linked, one, before, shape⟩, later⟩ := joined
    rw [List.map_cons, List.append_cons] at apart
    have fresh : j.binding ∉ names := by
      have left := (List.nodup_append.mp apart).1
      intro member
      exact (List.nodup_append.mp left).2.2 _ member _ (List.mem_singleton.mpr rfl) rfl
    have here : st.joinRows rows j = rows.map (st.extended j) := by
      rw [joinRows, List.map_eq_flatMap, List.flatMap_def, List.flatMap_def]
      refine congrArg List.flatten (List.map_congr_left ?_)
      intro row member
      obtain ⟨record, found⟩ := known row member parent before
      refine joinRow_once (by rw [shape]) ?_
      rw [shape]
      exact found_once (unique hop linked one) j.binding found fun same => fresh (same ▸ before)
    rw [List.foldl_cons, here, ih later apart ?_, List.map_map]
    · rfl
    · intro row member name among
      obtain ⟨row, original, rfl⟩ := List.mem_map.mp member
      rcases List.mem_append.mp among with old | new
      · obtain ⟨record, found⟩ := known row original name old
        have other : name ≠ j.binding := fun same => fresh (same ▸ old)
        exact ⟨record, (lookup_other other _).trans found⟩
      · rw [List.mem_singleton.mp new]
        exact ⟨_, List.lookup_cons_self⟩

theorem lookup_extended {joins : List Join} (apart : name ∉ joins.map Join.binding) (row : JoinedRow st.Record) :
    (joins.foldl (fun row j => st.extended j row) row).lookup name = row.lookup name := by
  induction joins generalizing row with
  | nil => rfl
  | cons j rest ih =>
    rw [List.map_cons, List.mem_cons, not_or] at apart
    rw [List.foldl_cons, ih apart.2, extended, lookup_other apart.1]

-- Each record of the table is in one row, and the answer is the rows that the conditions keep, in some order.
theorem rows_of_laid {s : Select} (laid : s.Laid (.along link))
    (unique : ∀ hop, link hop → hop.link.cardinality = .one → st.KeyUnique hop) {rows : List (JoinedRow st.Record)}
    (accepted : st.from? s = some rows) :
    ∃ whole : st.Record → JoinedRow st.Record, rows = (st.records s.table).map whole ∧
      (∀ record, (whole record).lookup s.binding = some (some record)) ∧
      ∃ ordered, st.answer? s = some (paged s.limit s.offset ordered) ∧
        ordered.Perm (((st.records s.table).filter fun record => st.keeps s (whole record)).map whole) := by
  let whole : st.Record → JoinedRow st.Record := fun record =>
    s.joins.foldl (fun row j => st.extended j row) [(s.binding, some record)]
  unfold from? at accepted
  split at accepted
  · rename_i apart
    have start : ∀ row ∈ (st.records s.table).map fun record => ([(s.binding, some record)] : JoinedRow st.Record),
        ∀ name ∈ [s.binding], ∃ record, row.lookup name = some record := by
      intro row member name among
      obtain ⟨record, _, rfl⟩ := List.mem_map.mp member
      rw [List.mem_singleton.mp among]
      exact ⟨some record, List.lookup_cons_self⟩
    have folded := foldl_joinRows laid.joins apart unique start
    rw [List.map_map] at folded
    cases accepted
    refine ⟨whole, folded, ?_, st.sorted s.orders (((st.records s.table).map whole).filter (st.keeps s)), ?_, ?_⟩
    · intro record
      rw [lookup_extended (List.nodup_cons.mp apart).1]
      exact List.lookup_cons_self
    · rw [answer?, from?, if_pos apart, folded]
      rfl
    · rw [List.filter_map]
      exact st.sorted_perm _ _
  · cases accepted

end Store

namespace QueryStep

-- Joins are LEFT JOINs along to-one associations, and to-many associations are looked into by EXISTS or give their
-- least or greatest value. So each record of the root's table is in one row, if the keys of to-one links are
-- unique, and the answer is the rows that the conditions keep.
theorem rows_once {r : Resolver} {steps : List QueryStep} {d : Dialect} {base : Select} {query : CompiledQuery}
    (laid : base.Laid (.along (Links r steps))) (ran : runAll r (.sql d base) steps = .ok query) :
    ∃ d' s, query = .sql d' s ∧ s.table = base.table ∧ s.binding = base.binding ∧
      (∀ around t, s.Holds around t →
        (∀ j ∈ t.joins, ∃ parent hop, Links r steps hop ∧ hop.link.cardinality = .one ∧
          j = ⟨.left, hop.related.source, j.binding, correlation parent j.binding hop.link⟩) ∧
        ∀ e ∈ t.exprs,
          (∀ u, .rows u ∈ e.reads → ∃ parent hop joins rest, Links r steps hop ∧ hop.link.cardinality = .many ∧
            u = .related parent u.binding hop joins rest) ∧
          ∀ u, .scalar u ∈ e.reads → ∃ parent hop column direction, Links r steps hop ∧
            hop.link.cardinality = .many ∧
              u = CompiledQuery.aggregateSelect parent u.binding hop.link hop.related column direction) ∧
      ∀ st : Store, (∀ hop, Links r steps hop → hop.link.cardinality = .one → st.KeyUnique hop) →
        ∀ rows, st.from? s = some rows →
          ∃ whole : st.Record → JoinedRow st.Record, rows = (st.records s.table).map whole ∧
            (∀ record, (whole record).lookup s.binding = some (some record)) ∧
            ∃ ordered, st.answer? s = some (paged s.limit s.offset ordered) ∧
              ordered.Perm (((st.records s.table).filter fun record => st.keeps s (whole record)).map whole) := by
  obtain ⟨d', s, rfl, table, binding, after⟩ := runAll_laid laid
    (fun step member => ⟨fun hop reached => ⟨step, member, reached⟩, fun _ _ _ _ _ _ _ => ⟨trivial, trivial⟩⟩) ran
  refine ⟨d', s, rfl, table, binding, ?_, fun st unique rows => st.rows_of_laid after unique⟩
  intro around t holds
  have within := after.holds holds
  refine ⟨?_, ?_⟩
  · intro j member
    obtain ⟨_, _, _, parent, hop, linked, one, _, shape⟩ := Select.follows_of_mem within.joins member
    exact ⟨parent, hop, linked, one, shape⟩
  · intro e written
    refine ⟨?_, ?_⟩
    · intro u read
      cases within.subquery written (.inl read) _ read with
      | rows linked many _ _ _ => exact ⟨_, _, _, _, linked, many, rfl⟩
    · intro u read
      cases within.subquery written (.inr read) _ read with
      | scalar linked many _ _ => exact ⟨_, _, _, _, linked, many, rfl⟩

end QueryStep

-- What every association leads back into, every path does.
theorem Resolver.reach_within {r : Resolver} {a : Adapter} {within : Queryable → Prop} {path : List String}
    (closed : ∀ owner, within owner → ∀ name hop, r.cross? a owner name = some hop → within hop.related)
    (reached : r.reach? a owner path = some related) (known : within owner) : within related := by
  induction path generalizing owner with
  | nil =>
    cases reached
    exact known
  | cons name rest ih =>
    obtain ⟨hop, here, later⟩ := Option.bind_eq_some_iff.mp reached
    exact ih later (closed owner known name hop here)

def courier : Queryable := (Queryable.new "Courier" "couriers" .postgres).withColumn "name" "text" false

def parcel : Queryable :=
  ((Queryable.new "Parcel" "parcels" .postgres).withColumn "label" "text" false).belongsTo "courier" "Courier" "courier_id"

def depot : Queryable :=
  ((Queryable.new "Depot" "depots" .postgres).belongsTo "head" "Courier" "head_id").hasMany "parcels" "Parcel" "depot_id"

def depotResolver : Resolver :=
  { Resolver.ofAdapters .standard .standard with
    registry := ((Registry.empty.register courier).register parcel).register depot }

-- A filter through both kinds of association and two terms, the second the least label of the parcels.
def depotSteps : List QueryStep := [
  .filter depot (.leaf ⟨⟨["parcels", "courier", "name"]⟩, .eq, .str "Ann"⟩) .standard,
  .order depot [⟨⟨["head", "name"]⟩, .asc, .default⟩, ⟨⟨["parcels", "label"]⟩, .asc, .default⟩]
    { CompileOptions.standard with orderThrough := ["parcels"] }]

-- Records by their numbers, the second depot without a head.
def depotStore : Store where
  Record := List (String × Nat)
  Cell := Option Nat
  records table :=
    if table = "depots" then [[("id", 1), ("head_id", 2)], [("id", 2)]]
    else if table = "couriers" then [[("id", 1)], [("id", 2)]]
    else []
  cell record column := record.bind fun known => known.lookup column
  equal a b :=
    match a, b with
    | some m, some n => .ofBool (m = n)
    | _, _ => .unknown
  euclidean a b c := by
    cases a <;> cases b <;> cases c <;> simp
    omega
  test row e :=
    match e with
    | .binary (.column (some table) column) .eq (.column (some table') column') =>
      match ((row.lookup table).join.bind fun known => known.lookup column),
        ((row.lookup table').join.bind fun known => known.lookup column') with
      | some m, some n => .ofBool (m = n)
      | _, _ => .unknown
    | _ => .true
  test_columns row table column record table' column' record' found found' := by simp [found, found']
  sorted _ rows := rows
  sorted_perm _ _ := .refl _

theorem depot_links (linked : QueryStep.Links depotResolver depotSteps hop) :
    hop.related ∈ [depot, parcel, courier] ∧ (hop.link.cardinality = .one → hop.link.relatedKey = "id") := by
  have closed : ∀ owner ∈ [depot, parcel, courier], ∀ f ∈ Adapter.postgres.fields owner, ∀ link ∈ f.link?,
      ∀ related ∈ depotResolver.registry.get? link.target,
        related ∈ [depot, parcel, courier] ∧ (link.cardinality = .one → link.relatedKey = "id") := by decide +kernel
  have crossed : ∀ owner ∈ [depot, parcel, courier], ∀ name hop, depotResolver.cross? .postgres owner name = some hop →
      hop.related ∈ [depot, parcel, courier] ∧ (hop.link.cardinality = .one → hop.link.relatedKey = "id") := by
    intro owner member name hop crossed
    obtain ⟨f, named, link, linked, related, known, rfl⟩ : ∃ f, (Adapter.postgres.fields owner).find? (·.name == name) =
        some f ∧ ∃ link, f.link? = some link ∧ ∃ related, depotResolver.registry.get? link.target = some related ∧
          hop = ⟨link, related⟩ := by
      obtain ⟨f, found, led⟩ := (Resolver.cross_exact .empty).mpr crossed
      exact ⟨f, Resolver.field_exact.mp found, Resolver.hop_exact.mp led⟩
    exact closed owner member f (List.mem_of_find?_eq_some named) link linked related known
  obtain ⟨step, member, path, owner, name, led, here⟩ := linked
  have root : step.root = depot := by
    have roots : ∀ step ∈ depotSteps, step.root = depot := by decide
    exact roots step member
  rw [root] at led here
  have within := Resolver.reach_within (fun owner known name hop here => (crossed owner known name hop here).1) led (by simp)
  exact crossed owner within name hop here

theorem depotSteps_rows : (Select.new "depots").Laid (.along (QueryStep.Links depotResolver depotSteps)) ∧
    (∀ hop, QueryStep.Links depotResolver depotSteps hop → hop.link.cardinality = .one → depotStore.KeyUnique hop) ∧
    ∃ d s, QueryStep.runAll depotResolver (.sql .postgres (Select.new "depots")) depotSteps = .ok (.sql d s) ∧
      ∃ rows, depotStore.from? s = some rows ∧
        rows.map (fun row => row.lookup "depots") = (depotStore.records "depots").map fun record => some (some record) := by
  have laid := Select.laid_new (.along (QueryStep.Links depotResolver depotSteps)) "depots"
  have keys : ∀ related ∈ [depot, parcel, courier], (depotStore.records related.source).Pairwise fun a b =>
      depotStore.equal (depotStore.cell (some a) "id") (depotStore.cell (some b) "id") ≠ .true := by
    decide
  have unique : ∀ hop, QueryStep.Links depotResolver depotSteps hop → hop.link.cardinality = .one →
      depotStore.KeyUnique hop := by
    intro hop linked one
    obtain ⟨known, key⟩ := depot_links linked
    rw [Store.KeyUnique, key one]
    exact keys _ known
  have computed : ((QueryStep.runAll depotResolver (.sql .postgres (Select.new "depots")) depotSteps).toOption.bind
      CompiledQuery.select?).map Select.names = some ["depots", "head"] := by
    decide +kernel
  obtain ⟨d, s, ran, names⟩ := CompiledQuery.select_of_computed computed
  obtain ⟨_, _, same, table, binding, _, once⟩ := QueryStep.rows_once laid ran
  cases same
  obtain ⟨rows, accepted⟩ : ∃ rows, depotStore.from? s = some rows := by
    rw [Store.from?, if_pos (by rw [names]; decide)]
    exact ⟨_, rfl⟩
  obtain ⟨whole, rfl, own, _⟩ := once depotStore unique rows accepted
  refine ⟨laid, unique, d, s, ran, _, accepted, ?_⟩
  rw [List.map_map, table]
  refine List.map_congr_left ?_
  intro record _
  rw [← own record, binding]
  rfl

end FilterQuery
