import FilterQuery.Proofs.RouteParts
import FilterQuery.Adapter.Set
import FilterQuery.Proofs.Reads

namespace FilterQuery

-- Nothing is read but what the other expression reads.
def Expr.ReadsFrom (source e : Expr) : Prop := ∀ x ∈ e.reads, x ∈ source.reads

namespace Expr.ReadsFrom

theorem of_any {col : Expr} {members : List Expr} (each : ∀ m ∈ members, col.ReadsFrom m) :
    col.ReadsFrom (any members) := by
  intro x read
  obtain ⟨m, member, read⟩ := mem_reads_any read
  exact each m member x read

theorem of_all {col : Expr} {members : List Expr} (each : ∀ m ∈ members, col.ReadsFrom m) :
    col.ReadsFrom (all members) := by
  intro x read
  obtain ⟨m, member, read⟩ := mem_reads_all read
  exact each m member x read

end Expr.ReadsFrom

-- Whatever is built reads from the column only.
structure ReadsColumn (col : Expr) (built : Option Expr) : Prop where
  sound : ∀ e, built = some e → col.ReadsFrom e

namespace ReadsColumn

variable {col : Expr}

theorem neither : ReadsColumn col none := ⟨by simp⟩

theorem one {e : Expr} (from_column : col.ReadsFrom e) : ReadsColumn col (some e) := by
  refine ⟨?_⟩
  intro built same
  cases same
  exact from_column

theorem map {f : α → Expr} (each : ∀ a, col.ReadsFrom (f a)) (o : Option α) : ReadsColumn col (o.map f) := by
  cases o with
  | none => exact neither
  | some a => exact one (each a)

theorem bind {f : α → Option Expr} (each : ∀ a, ReadsColumn col (f a)) (o : Option α) :
    ReadsColumn col (o.bind f) := by
  cases o with
  | none => exact neither
  | some a => exact each a

end ReadsColumn

section Texts

variable (col : Expr)

theorem comparison_reads {tested : Expr} {param : Value → Expr} (same : tested.reads = col.reads)
    (bound : ∀ v, (param v).reads = []) (op : Operator) (operand : Operand) :
    ReadsColumn col (comparison tested param op operand) := by
  have listed : ∀ vs : List Value, Expr.listReads (vs.map param) = [] := by
    intro vs
    induction vs with
    | nil => rfl
    | cons v rest ih => rw [List.map_cons, Expr.listReads_cons, bound, ih, List.append_nil]
  unfold comparison
  split
  case h_14 => exact .neither
  all_goals exact .one (by simp [Expr.ReadsFrom, listed, bound, same, -List.map_cons])

theorem textMatch_reads (op : Operator) (raw : String) (style : LikeStyle) :
    ReadsColumn col (textMatch col op raw style) := by
  unfold textMatch
  split
  · refine .one ?_
    unfold affixMatch
    split <;> simp [Expr.ReadsFrom, infixed, textParam]
  · unfold patternMatch
    split
    case h_11 => exact .neither
    all_goals exact .one (by simp [Expr.ReadsFrom, infixed, loweredMatch, textParam])

-- Values read nothing, whichever type they are cast to.
theorem Postgres.cast_reads (ty : String) (v : Value) : (Postgres.cast ty v).reads = [] := rfl

theorem Postgres.castParam_reads (ty : Option String) (v : Value) : (Postgres.castParam ty v).reads = [] := by
  cases ty <;> rfl

namespace Postgres

theorem textLeaf_reads (op : Operator) (operand : Operand) : ReadsColumn col (textLeaf col op operand) := by
  unfold textLeaf
  split
  · exact .bind (fun p => textMatch_reads ..) _
  · split
    case h_5 => exact comparison_reads col rfl (fun _ => rfl) ..
    all_goals exact .map (fun _ => by simp [Expr.ReadsFrom]) _

theorem jsonLeaf_reads (op : Operator) (operand : Operand) : ReadsColumn col (jsonLeaf col op operand) := by
  unfold jsonLeaf
  split
  case h_1 | h_2 => exact .one (by simp [Expr.ReadsFrom, cast_reads])
  case h_3 | h_4 | h_5 => exact .map (fun _ => by simp [Expr.ReadsFrom, keysParam, cast_reads]) _
  case h_6 => exact comparison_reads col rfl (cast_reads _) ..

theorem arrayLeaf_reads (ty : String) (op : Operator) (operand : Operand) :
    ReadsColumn col (arrayLeaf col ty op operand) := by
  unfold arrayLeaf
  split
  case h_4 => exact comparison_reads col rfl (cast_reads _) ..
  all_goals exact .map (fun _ => by simp [Expr.ReadsFrom, cast_reads]) _

theorem geoLeaf_reads (op : Operator) (operand : Operand) (options : ApplyOptions) :
    ReadsColumn col (geoLeaf col op operand options) := by
  unfold geoLeaf
  split
  case h_3 => exact comparison_reads col rfl (fun _ => rfl) ..
  all_goals exact .map (fun _ => by simp [Expr.ReadsFrom, floatParam]) _

end Postgres

namespace MySql

theorem jsonParam_reads (v : Value) : (jsonParam v).reads = [] := rfl

theorem textLeaf_reads (op : Operator) (operand : Operand) : ReadsColumn col (textLeaf col op operand) := by
  unfold textLeaf
  split
  · exact .bind (fun p => textMatch_reads ..) _
  · split
    case h_4 => exact comparison_reads col rfl (fun _ => rfl) ..
    all_goals exact .map (fun _ => by simp [Expr.ReadsFrom, regexpLike]) _

theorem containsPath_reads (mode : String) (keys : List String) : col.ReadsFrom (containsPath mode col keys) := by
  have values : Expr.listReads (keys.map fun k => .value (.string (jsonPath k))) = [] := by
    induction keys with
    | nil => rfl
    | cons key rest ih => exact ih
  simp [Expr.ReadsFrom, containsPath, values]

theorem jsonLeaf_reads (op : Operator) (operand : Operand) : ReadsColumn col (jsonLeaf col op operand) := by
  unfold jsonLeaf
  split
  case h_1 | h_2 => exact .one (by simp [Expr.ReadsFrom, jsonContains, jsonParam_reads])
  case h_3 | h_4 | h_5 => exact .map (containsPath_reads col _) _
  case h_6 => exact comparison_reads col rfl jsonParam_reads ..

theorem arrayLeaf_reads (op : Operator) (operand : Operand) : ReadsColumn col (arrayLeaf col op operand) := by
  unfold arrayLeaf
  split
  case h_4 => exact comparison_reads col rfl jsonParam_reads ..
  all_goals
    rw [Option.map_map]
    exact .map (fun _ => by simp [Expr.ReadsFrom, jsonContains, jsonParam_reads]) _

theorem geoLeaf_reads (op : Operator) (operand : Operand) (options : ApplyOptions) :
    ReadsColumn col (geoLeaf col op operand options) := by
  unfold geoLeaf
  split
  case h_3 => exact comparison_reads col rfl (fun _ => rfl) ..
  all_goals exact .map (fun _ => by simp [Expr.ReadsFrom]) _

end MySql

theorem keyTests_reads {test : Expr → String → Expr} (each : ∀ key, col.ReadsFrom (test col key))
    (keys : List String) : ∀ m ∈ keys.map (test col), col.ReadsFrom m := by
  intro m member
  obtain ⟨key, _, rfl⟩ := List.mem_map.mp member
  exact each key

namespace Sqlite

theorem textLeaf_reads (op : Operator) (operand : Operand) : ReadsColumn col (textLeaf col op operand) := by
  unfold textLeaf
  split
  · exact .bind (fun p => textMatch_reads ..) _
  · split
    case h_3 => exact comparison_reads col rfl (fun _ => rfl) ..
    all_goals exact .map (fun _ => by simp [Expr.ReadsFrom]) _

theorem hasKey_reads (key : String) : col.ReadsFrom (hasKey col key) := by
  simp [Expr.ReadsFrom, hasKey]

theorem jsonText_reads : (Expr.func "json" [col]).reads = col.reads := by simp [Expr.listReads]

theorem jsonLeaf_reads (op : Operator) (operand : Operand) : ReadsColumn col (jsonLeaf col op operand) := by
  unfold jsonLeaf
  split
  case h_1 => exact .map (hasKey_reads col) _
  case h_2 => exact .map (fun keys => .of_any (keyTests_reads col (hasKey_reads col) keys)) _
  case h_3 => exact .map (fun keys => .of_all (keyTests_reads col (hasKey_reads col) keys)) _
  case h_4 => exact comparison_reads col rfl (fun _ => rfl) ..
  case h_5 => exact comparison_reads col (jsonText_reads col) (fun _ => rfl) ..

theorem arrayLeaf_reads (op : Operator) (operand : Operand) : ReadsColumn col (arrayLeaf col op operand) := by
  unfold arrayLeaf
  split
  case h_4 => exact comparison_reads col rfl (fun _ => rfl) ..
  case h_5 => exact comparison_reads col (jsonText_reads col) (fun _ => rfl) ..
  all_goals
    rw [Option.map_map]
    exact .map (fun _ => by simp [Expr.ReadsFrom, everyElement, someElement]) _

end Sqlite

namespace MsSql

theorem textLeaf_reads (op : Operator) (operand : Operand) : ReadsColumn col (textLeaf col op operand) := by
  unfold textLeaf
  split
  · exact .bind (fun p => textMatch_reads ..) _
  · split
    · exact .map (fun _ => by simp [Expr.ReadsFrom]) _
    · exact comparison_reads col rfl (fun _ => rfl) ..

theorem hasKey_reads (key : String) : col.ReadsFrom (hasKey col key) := by
  simp [Expr.ReadsFrom, hasKey]

theorem jsonLeaf_reads (op : Operator) (operand : Operand) : ReadsColumn col (jsonLeaf col op operand) := by
  unfold jsonLeaf
  split
  case h_1 => exact .map (hasKey_reads col) _
  case h_2 => exact .map (fun keys => .of_any (keyTests_reads col (hasKey_reads col) keys)) _
  case h_3 => exact .map (fun keys => .of_all (keyTests_reads col (hasKey_reads col) keys)) _
  case h_4 => exact comparison_reads col rfl (fun _ => rfl) ..

theorem geoLeaf_reads (op : Operator) (operand : Operand) (options : ApplyOptions) :
    ReadsColumn col (geoLeaf col op operand options) := by
  unfold geoLeaf
  split
  case h_3 => exact comparison_reads col rfl (fun _ => rfl) ..
  all_goals exact .map (fun _ => by simp [Expr.ReadsFrom]) _

end MsSql
end Texts

section Leaves

variable (f : Field) (ty : SemanticType) (op : Operator) (operand : Operand) (options : ApplyOptions)

theorem Postgres.leaf_reads : ReadsColumn (options.column f) (leaf f ty op operand options) := by
  unfold leaf
  dsimp only
  split
  · exact jsonLeaf_reads ..
  · exact geoLeaf_reads ..
  · exact arrayLeaf_reads ..
  · exact textLeaf_reads ..
  · exact comparison_reads _ rfl (castParam_reads _) ..
  · exact comparison_reads _ rfl (fun _ => rfl) ..

theorem MySql.leaf_reads : ReadsColumn (options.column f) (leaf f ty op operand options) := by
  unfold leaf
  dsimp only
  split
  · exact textLeaf_reads ..
  · exact jsonLeaf_reads ..
  · exact arrayLeaf_reads ..
  · exact geoLeaf_reads ..
  · exact comparison_reads _ rfl (fun _ => rfl) ..

theorem Sqlite.leaf_reads : ReadsColumn (options.column f) (leaf f ty op operand options) := by
  unfold leaf
  dsimp only
  split
  · exact textLeaf_reads ..
  · exact jsonLeaf_reads ..
  · exact arrayLeaf_reads ..
  · exact comparison_reads _ rfl (fun _ => rfl) ..

theorem MsSql.leaf_reads : ReadsColumn (options.column f) (leaf f ty op operand options) := by
  unfold leaf
  dsimp only
  split
  · exact textLeaf_reads ..
  · exact jsonLeaf_reads ..
  · exact geoLeaf_reads ..
  · exact comparison_reads _ rfl (fun _ => rfl) ..

end Leaves

theorem Adapter.leaf_reads {a : Adapter} {f : Field} {options : ApplyOptions} {x : Read}
    (built : a.leaf f ty op operand options = some p) (read : x ∈ p.reads) : x ∈ (options.column f).reads := by
  have of_sql : ∀ {o : Option Expr}, ReadsColumn (options.column f) o → o.map Predicate.sql = some p →
      x ∈ (options.column f).reads := by
    intro o each made
    obtain ⟨e, found, rfl⟩ := Option.map_eq_some_iff.mp made
    exact each.sound e found x read
  cases a with
  | postgres => exact of_sql (Postgres.leaf_reads ..) built
  | cockroachDb => exact of_sql (Postgres.leaf_reads ..) built
  | mySql => exact of_sql (MySql.leaf_reads ..) built
  | sqlite => exact of_sql (Sqlite.leaf_reads ..) built
  | msSql => exact of_sql (MsSql.leaf_reads ..) built
  | search =>
    obtain ⟨_, _, rfl⟩ := Option.map_eq_some_iff.mp built
    cases read

theorem Adapter.predicate_reads {a : Adapter} {f : Field} {options : ApplyOptions} {x : Read}
    (built : a.predicate? f op operand options = some p) (read : x ∈ p.reads) : x ∈ (options.column f).reads := by
  unfold predicate? at built
  split at built
  · split at built
    · exact leaf_reads built read
    · cases built
  · cases built

-- The column is qualified by the binding; a binding without text qualifies nothing.
theorem ApplyOptions.column_bound (binding : String) (unit : Option DistanceUnit) (f : Field) :
    (ApplyOptions.mk (some binding) unit).column f = .column (qualifier binding) f.column := rfl

-- A field has the name of its column.
theorem Adapter.field_column {a : Adapter} {q : Queryable} {name : String}
    (found : (a.fields q).find? (·.name == name) = some f) :
    f.column = name := by
  have named : f.name = name := by simpa using List.find?_some found
  rw [← named]
  rcases List.mem_append.mp (List.mem_of_find?_eq_some found) with column | association
  · obtain ⟨c, _, made⟩ := List.mem_filterMap.mp column
    obtain ⟨_, _, rfl⟩ := Option.map_eq_some_iff.mp made
    rfl
  · obtain ⟨r, _, rfl⟩ := List.mem_map.mp association
    rfl

theorem FilterContext.test_reads {c : FilterContext} {scope : Scope} {l : Leaf} {p : Predicate} {x : Read}
    (tested : c.test scope l = .ok p) (read : x ∈ p.reads) :
    ∃ name, l.field.head? = some name ∧ x = .column (qualifier scope.binding) name := by
  obtain ⟨name, f, ty, head, named, _, typed⟩ := FilterContext.test_parts.mp tested
  obtain ⟨_, _, operand, _, built⟩ := FilterContext.typed_parts.mp typed
  have source := Adapter.predicate_reads built read
  rw [ApplyOptions.column_bound, Adapter.field_column named] at source
  exact ⟨name, head, List.mem_singleton.mp source⟩

end FilterQuery
