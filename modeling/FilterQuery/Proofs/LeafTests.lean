import FilterQuery.Proofs.LeafPredicate
import FilterQuery.Proofs.LeafReads
import FilterQuery.Proofs.Populated
import FilterQuery.Proofs.WhereParts

namespace FilterQuery

namespace Expr

variable {x : Read} {members : List Expr}

theorem reads_of_constant {e : Expr} (constant : e.isConstant b = true) : e.reads = [] := by
  cases e <;> first | rfl | cases constant

theorem reads_andParts {e : Expr} (read : x ∈ e.reads) : ∃ part ∈ e.andParts, x ∈ part.reads := by
  unfold andParts
  split
  · cases read
  · exact mem_listReads.mp read
  · exact ⟨_, List.mem_singleton.mpr rfl, read⟩

theorem reads_orParts {e : Expr} (read : x ∈ e.reads) : ∃ part ∈ e.orParts, x ∈ part.reads := by
  unfold orParts
  split
  · cases read
  · exact mem_listReads.mp read
  · exact ⟨_, List.mem_singleton.mpr rfl, read⟩

theorem reads_conjunction {e : Expr} (member : e ∈ members) (read : x ∈ e.reads) : x ∈ (conjunction members).reads := by
  match members with
  | [] => cases member
  | [single] => exact List.mem_singleton.mp member ▸ read
  | first :: second :: rest => exact mem_listReads.mpr ⟨e, member, read⟩

theorem reads_disjunction {e : Expr} (member : e ∈ members) (read : x ∈ e.reads) : x ∈ (disjunction members).reads := by
  match members with
  | [] => cases member
  | [single] => exact List.mem_singleton.mp member ▸ read
  | first :: second :: rest => exact mem_listReads.mpr ⟨e, member, read⟩

theorem reads_all (undecided : (all members).isConstant false = false) {e : Expr} (member : e ∈ members)
    (read : x ∈ e.reads) : x ∈ (all members).reads := by
  unfold all at undecided ⊢
  split at undecided
  · cases undecided
  · rename_i unsettled
    rw [if_neg unsettled]
    obtain ⟨part, among, read⟩ := reads_andParts read
    exact reads_conjunction (List.mem_flatMap.mpr ⟨e, member, among⟩) read

theorem reads_any (undecided : (any members).isConstant true = false) {e : Expr} (member : e ∈ members)
    (read : x ∈ e.reads) : x ∈ (any members).reads := by
  unfold any at undecided ⊢
  split at undecided
  · cases undecided
  · rename_i unsettled
    rw [if_neg unsettled]
    obtain ⟨part, among, read⟩ := reads_orParts read
    exact reads_disjunction (List.mem_flatMap.mpr ⟨e, member, among⟩) read

mutual
theorem reads_conjuncts (e : Expr) (read : x ∈ e.reads) : ∃ part ∈ e.conjuncts, x ∈ part.reads := by
  cases e with
  | constant b => cases read
  | and members => exact reads_listConjuncts members read
  | _ => exact ⟨_, List.mem_singleton.mpr rfl, read⟩

theorem reads_listConjuncts (members : List Expr) (read : x ∈ listReads members) :
    ∃ part ∈ listConjuncts members, x ∈ part.reads := by
  cases members with
  | nil => cases read
  | cons e rest =>
    rcases List.mem_append.mp read with here | later
    · obtain ⟨part, among, read⟩ := reads_conjuncts e here
      exact ⟨part, List.mem_append_left _ among, read⟩
    · obtain ⟨part, among, read⟩ := reads_listConjuncts rest later
      exact ⟨part, List.mem_append_right _ among, read⟩
end

end Expr

namespace Predicate

theorem undecided_of_reads {x : Read} {p : Predicate} (read : x ∈ p.reads) : p.Undecided := by
  intro b
  cases p with
  | search c => cases read
  | sql e =>
    cases decided : e.isConstant b with
    | false => exact decided
    | true =>
      rw [reads, Expr.reads_of_constant decided] at read
      cases read

theorem reads_join {x : Read} {members : List Predicate} {op : Connective} (own : ∀ p ∈ members, p.kind = k)
    (undecided : (join k op members).Undecided) {p : Predicate} (member : p ∈ members) (read : x ∈ p.reads) :
    x ∈ (join k op members).reads := by
  cases p with
  | search c => cases read
  | sql e =>
    cases own _ member
    have among : e ∈ members.filterMap expr? := List.mem_filterMap.mpr ⟨_, member, rfl⟩
    cases op with
    | and => exact Expr.reads_all (undecided false) among read
    | or => exact Expr.reads_any (undecided true) among read

end Predicate

theorem Expr.value_populated (v : Value) : (value v).Populated := trivial

-- It has no list without members, and unless it is a constant it reads the column.
structure Expr.Probes (col e : Expr) : Prop where
  populated : e.Populated
  kept : e.Undecided → ∀ x ∈ col.reads, x ∈ e.reads

namespace Expr.Probes

variable {col e : Expr} {list members : List Expr}

theorem constant (b : Bool) : Probes col (.constant b) := by
  refine ⟨trivial, fun undecided => ?_⟩
  cases b
  · cases undecided false
  · cases undecided true

theorem isNull (plain : e.Populated) (same : e.reads = col.reads) (negated : Bool) : Probes col (.isNull e negated) :=
  ⟨plain, fun _ x read => by rwa [reads_isNull, same]⟩

theorem binary {arg : Expr} (plain : e.Populated) (same : e.reads = col.reads) (given : arg.Populated) (op : BinOp) :
    Probes col (.binary e op arg) :=
  ⟨⟨plain, given⟩, fun _ _ read => List.mem_append_left _ (same ▸ read)⟩

theorem inList (plain : e.Populated) (same : e.reads = col.reads) (nonempty : list ≠ []) (each : ∀ m ∈ list, m.Populated)
    (negated : Bool) : Probes col (.inList e list negated) :=
  ⟨⟨nonempty, plain, allPopulated_exact.mpr each⟩, fun _ _ read => List.mem_append_left _ (same ▸ read)⟩

theorem template (among : col ∈ members) (each : ∀ m ∈ members, m.Populated) (text : Template) :
    Probes col (.template text members) :=
  ⟨allPopulated_exact.mpr each, fun _ _ read => mem_listReads.mpr ⟨col, among, read⟩⟩

theorem all (nonempty : members ≠ []) (each : ∀ m ∈ members, Probes col m) (undecided : ∀ m ∈ members, m.Undecided) :
    Probes col (Expr.all members) := by
  refine ⟨all_populated fun m member => (each m member).populated, fun live x read => ?_⟩
  obtain ⟨m, member⟩ := List.exists_mem_of_ne_nil members nonempty
  exact reads_all (live false) member ((each m member).kept (undecided m member) x read)

theorem any (nonempty : members ≠ []) (each : ∀ m ∈ members, Probes col m) (undecided : ∀ m ∈ members, m.Undecided) :
    Probes col (Expr.any members) := by
  refine ⟨any_populated fun m member => (each m member).populated, fun live x read => ?_⟩
  obtain ⟨m, member⟩ := List.exists_mem_of_ne_nil members nonempty
  exact reads_any (live true) member ((each m member).kept (undecided m member) x read)

end Expr.Probes

section Texts

variable {col tested : Expr} {param : Value → Expr}

theorem comparison_probes (plain : tested.Populated) (same : tested.reads = col.reads) (given : ∀ v, (param v).Populated)
    (op : Operator) (operand : Operand) : ∀ e ∈ comparison tested param op operand, col.Probes e := by
  have listed : ∀ vs : List Value, ∀ m ∈ vs.map param, m.Populated := fun vs => List.forall_mem_map.mpr fun v _ => given v
  unfold comparison
  split <;> rintro e ⟨⟩
  case h_1 | h_2 | h_13 => exact .isNull plain same _
  case h_9 | h_10 => exact .constant _
  case h_11 | h_12 => exact .inList plain same (by simp) (listed _) _
  all_goals exact .binary plain same (given _) _

theorem textMatch_probes (plain : col.Populated) (op : Operator) (raw : String) (style : LikeStyle) :
    ∀ e ∈ textMatch col op raw style, col.Probes e := by
  have given : ∀ cs, (textParam cs).Populated := fun _ => Expr.value_populated _
  have pair : ∀ text cs, col.Probes (.template text [col, textParam cs]) :=
    fun text cs => .template (by simp) (by simp [plain, given]) text
  have binary : ∀ cs op, col.Probes (.binary col op (textParam cs)) := fun cs op => .binary plain rfl (given cs) op
  unfold textMatch
  split
  · rintro e ⟨⟩
    unfold affixMatch
    split
    · exact pair ..
    · exact binary ..
    · exact pair ..
  · unfold patternMatch
    split <;> rintro e ⟨⟩
    case h_1 | h_2 | h_7 | h_8 => exact pair ..
    all_goals exact binary ..

theorem Postgres.cast_populated (ty : String) (v : Value) : (cast ty v).Populated := ⟨trivial, trivial⟩

theorem Postgres.castParam_populated (ty : Option String) (v : Value) : (castParam ty v).Populated := by
  cases ty with
  | none => exact Expr.value_populated v
  | some ty => exact cast_populated ty v

theorem MySql.jsonParam_populated (v : Value) : (jsonParam v).Populated := ⟨trivial, trivial⟩

theorem Sqlite.jsonValue_populated (v : Value) : (jsonValue v).Populated := ⟨trivial, trivial⟩

theorem MsSql.documentText_populated (v : Value) : (documentText v).Populated := Expr.value_populated _

-- Tests of one key each, put together; there is always a key.
theorem keyTests_probes {test : String → Expr} {join : List Expr → Expr}
    (joins : ∀ {members}, members ≠ [] → (∀ m ∈ members, col.Probes m) → (∀ m ∈ members, m.Undecided) →
      col.Probes (join members))
    (each : ∀ key, col.Probes (test key)) (undecided : ∀ key, (test key).Undecided) (operand : Operand) :
    ∀ e ∈ operand.keys?.map fun keys => join (keys.map test), col.Probes e := by
  intro e built
  obtain ⟨keys, found, rfl⟩ := Option.map_eq_some_iff.mp built
  refine joins (by simpa using Operand.keys_some found) ?_ ?_
  · exact List.forall_mem_map.mpr fun key _ => each key
  · exact List.forall_mem_map.mpr fun key _ => undecided key

section Dialects

variable (plain : col.Populated)
include plain

namespace Postgres

theorem textLeaf_probes (op : Operator) (operand : Operand) : ∀ e ∈ textLeaf col op operand, col.Probes e := by
  unfold textLeaf
  split
  · exact good_bind (fun p => textMatch_probes plain _ _ _) _
  · split
    case h_4 => exact good_map (fun p => .template (by simp) (by simp [plain, Expr.value_populated]) _) _
    case h_5 => exact comparison_probes plain rfl Expr.value_populated _ _
    all_goals exact good_map (fun p => .binary plain rfl (Expr.value_populated _) _) _

theorem jsonLeaf_probes (op : Operator) (operand : Operand) : ∀ e ∈ jsonLeaf col op operand, col.Probes e := by
  have document := cast_populated "jsonb"
  unfold jsonLeaf
  split
  case h_6 => exact comparison_probes plain rfl document _ _
  case h_1 | h_2 =>
    rintro e ⟨⟩
    exact .binary plain rfl (document _) _
  case h_3 => exact good_map (fun key => .binary plain rfl (Expr.value_populated _) _) _
  all_goals exact good_map (fun keys => .binary plain rfl (cast_populated ..) _) _

theorem arrayLeaf_probes (ty : String) (op : Operator) (operand : Operand) :
    ∀ e ∈ arrayLeaf col ty op operand, col.Probes e := by
  have given := cast_populated ty
  unfold arrayLeaf
  split
  case h_4 => exact comparison_probes plain rfl given _ _
  all_goals exact good_map (fun values => .binary plain rfl (given _) _) _

theorem geoLeaf_probes (op : Operator) (operand : Operand) (options : ApplyOptions) :
    ∀ e ∈ geoLeaf col op operand options, col.Probes e := by
  unfold geoLeaf
  split
  case h_3 => exact comparison_probes plain rfl Expr.value_populated _ _
  all_goals exact good_map (fun p => .template (by simp) (by simp [plain, floatParam, Expr.value_populated]) _) _

end Postgres

namespace MySql

theorem textLeaf_probes (op : Operator) (operand : Operand) : ∀ e ∈ textLeaf col op operand, col.Probes e := by
  unfold textLeaf
  split
  · exact good_bind (fun p => textMatch_probes plain _ _ _) _
  · split
    case h_4 => exact comparison_probes plain rfl Expr.value_populated _ _
    all_goals exact good_map (fun p => .template (by simp) (by simp [plain, Expr.value_populated]) _) _

theorem containsPath_probes (mode : String) (keys : List String) : col.Probes (containsPath mode col keys) := by
  refine .template (List.mem_cons_self ..) (List.forall_mem_cons.mpr ⟨plain, ?_⟩) _
  exact List.forall_mem_map.mpr fun _ _ => Expr.value_populated _

theorem jsonLeaf_probes (op : Operator) (operand : Operand) : ∀ e ∈ jsonLeaf col op operand, col.Probes e := by
  unfold jsonLeaf
  split
  case h_6 => exact comparison_probes plain rfl jsonParam_populated _ _
  case h_1 | h_2 =>
    rintro e ⟨⟩
    exact .template (by simp) (by simp [plain, jsonParam_populated]) _
  all_goals exact good_map (containsPath_probes plain _) _

theorem arrayLeaf_probes (op : Operator) (operand : Operand) : ∀ e ∈ arrayLeaf col op operand, col.Probes e := by
  unfold arrayLeaf
  split
  case h_4 => exact comparison_probes plain rfl jsonParam_populated _ _
  all_goals
    rw [Option.map_map]
    exact good_map (fun values => .template (by simp) (by simp [plain, jsonParam_populated]) _) _

theorem geoLeaf_probes (op : Operator) (operand : Operand) (options : ApplyOptions) :
    ∀ e ∈ geoLeaf col op operand options, col.Probes e := by
  unfold geoLeaf
  split
  case h_3 => exact comparison_probes plain rfl Expr.value_populated _ _
  all_goals exact good_map (fun p => .template (by simp) (by simp [plain, Expr.value_populated]) _) _

end MySql

namespace Sqlite

theorem textLeaf_probes (op : Operator) (operand : Operand) : ∀ e ∈ textLeaf col op operand, col.Probes e := by
  unfold textLeaf
  split
  · exact good_bind (fun p => textMatch_probes plain _ _ _) _
  · split
    case h_3 => exact comparison_probes plain rfl Expr.value_populated _ _
    all_goals exact good_map (fun p => .binary plain rfl (Expr.value_populated _) _) _

theorem hasKey_probes (key : String) : col.Probes (hasKey col key) :=
  .template (by simp) (by simp [plain, Expr.value_populated]) _

theorem jsonLeaf_probes (op : Operator) (operand : Operand) : ∀ e ∈ jsonLeaf col op operand, col.Probes e := by
  have text : (Expr.func "json" [col]).Populated := ⟨plain, trivial⟩
  unfold jsonLeaf
  split
  · exact good_map (hasKey_probes plain) _
  · exact keyTests_probes .any (hasKey_probes plain) (fun _ _ => rfl) _
  · exact keyTests_probes .all (hasKey_probes plain) (fun _ _ => rfl) _
  · exact comparison_probes plain rfl Expr.value_populated _ _
  · exact comparison_probes text (List.append_nil _) jsonValue_populated _ _

theorem arrayLeaf_probes (op : Operator) (operand : Operand) : ∀ e ∈ arrayLeaf col op operand, col.Probes e := by
  have text : (Expr.func "json" [col]).Populated := ⟨plain, trivial⟩
  unfold arrayLeaf
  split
  case h_4 => exact comparison_probes plain rfl Expr.value_populated _ _
  case h_5 => exact comparison_probes text (List.append_nil _) jsonValue_populated _ _
  all_goals
    rw [Option.map_map]
    exact good_map (fun values => .template (by simp) (by simp [plain, Expr.value_populated]) _) _

end Sqlite

namespace MsSql

theorem textLeaf_probes (op : Operator) (operand : Operand) : ∀ e ∈ textLeaf col op operand, col.Probes e := by
  unfold textLeaf
  split
  · exact good_bind (fun p => textMatch_probes plain _ _ _) _
  · split
    · exact good_map (fun p => .template (by simp) (by simp [plain, Expr.value_populated]) _) _
    · exact comparison_probes plain rfl Expr.value_populated _ _

theorem hasKey_probes (key : String) : col.Probes (hasKey col key) :=
  .template (by simp) (by simp [plain, Expr.value_populated]) _

theorem jsonLeaf_probes (op : Operator) (operand : Operand) : ∀ e ∈ jsonLeaf col op operand, col.Probes e := by
  unfold jsonLeaf
  split
  · exact good_map (hasKey_probes plain) _
  · exact keyTests_probes .any (hasKey_probes plain) (fun _ _ => rfl) _
  · exact keyTests_probes .all (hasKey_probes plain) (fun _ _ => rfl) _
  · exact comparison_probes plain rfl documentText_populated _ _

theorem geoLeaf_probes (op : Operator) (operand : Operand) (options : ApplyOptions) :
    ∀ e ∈ geoLeaf col op operand options, col.Probes e := by
  unfold geoLeaf
  split
  case h_3 => exact comparison_probes plain rfl Expr.value_populated _ _
  all_goals exact good_map (fun p => .template (by simp) (by simp [plain, Expr.value_populated]) _) _

end MsSql
end Dialects
end Texts

section Leaves

variable (f : Field) (ty : SemanticType) (op : Operator) (operand : Operand) (options : ApplyOptions)

theorem ApplyOptions.column_populated : (options.column f).Populated := trivial

theorem Postgres.leaf_probes : ∀ e ∈ leaf f ty op operand options, (options.column f).Probes e := by
  have plain := options.column_populated f
  unfold leaf
  split
  · exact jsonLeaf_probes plain _ _
  · exact geoLeaf_probes plain _ _ _
  · exact arrayLeaf_probes plain _ _ _
  · exact textLeaf_probes plain _ _
  · exact comparison_probes plain rfl (castParam_populated _) _ _
  · exact comparison_probes plain rfl Expr.value_populated _ _

theorem MySql.leaf_probes : ∀ e ∈ leaf f ty op operand options, (options.column f).Probes e := by
  have plain := options.column_populated f
  unfold leaf
  split
  · exact textLeaf_probes plain _ _
  · exact jsonLeaf_probes plain _ _
  · exact arrayLeaf_probes plain _ _
  · exact geoLeaf_probes plain _ _ _
  · exact comparison_probes plain rfl Expr.value_populated _ _

theorem Sqlite.leaf_probes : ∀ e ∈ leaf f ty op operand options, (options.column f).Probes e := by
  have plain := options.column_populated f
  unfold leaf
  split
  · exact textLeaf_probes plain _ _
  · exact jsonLeaf_probes plain _ _
  · exact arrayLeaf_probes plain _ _
  · exact comparison_probes plain rfl Expr.value_populated _ _

theorem MsSql.leaf_probes : ∀ e ∈ leaf f ty op operand options, (options.column f).Probes e := by
  have plain := options.column_populated f
  unfold leaf
  split
  · exact textLeaf_probes plain _ _
  · exact jsonLeaf_probes plain _ _
  · exact geoLeaf_probes plain _ _ _
  · exact comparison_probes plain rfl Expr.value_populated _ _

end Leaves

namespace SearchEngine

theorem leaf_populated {kind : String} (other : kind ≠ "terms") (body : Json) : (Clause.leaf kind body).Populated := by
  show Json.isEmptyTerms _ = false
  unfold Json.isEmptyTerms
  split
  · rename_i same
    exact absurd (List.cons.inj (Json.obj.inj same)).1 (by simp [other])
  · rfl

variable (field : String)

theorem textClause_populated (op : Operator) (operand : Operand) : ∀ c ∈ textClause field op operand, c.Populated := by
  have like : ∀ ignoreCase, ∀ c ∈ like field ignoreCase operand, c.Populated :=
    fun _ => good_map (fun p => leaf_populated (by decide) _) _
  have unlike : ∀ ignoreCase, ∀ c ∈ (SearchEngine.like field ignoreCase operand).map Clause.negate, c.Populated := by
    intro ignoreCase c built
    obtain ⟨plain, found, rfl⟩ := Option.map_eq_some_iff.mp built
    exact Clause.negate_populated (like ignoreCase plain found)
  unfold textClause
  split
  case h_11 => simp
  case h_1 | h_3 => exact like _
  case h_2 | h_4 => exact unlike _
  all_goals exact good_map (fun p => leaf_populated (by decide) _) _

theorem geoClause_populated (op : Operator) (operand : Operand) (options : ApplyOptions) :
    ∀ c ∈ geoClause field op operand options, c.Populated := by
  unfold geoClause
  split
  case h_3 => simp
  all_goals exact good_map (fun p => leaf_populated (by decide) _) _

theorem clause_populated (options : ApplyOptions) (op : Operator) (operand : Operand) :
    ∀ c ∈ clause field options op operand, c.Populated := by
  have members : ∀ keys : List String, ∀ c ∈ keys.map (member field), c.Populated :=
    fun keys => List.forall_mem_map.mpr fun key _ => leaf_populated (by decide) _
  unfold clause
  split
  case h_15 => exact good_map (fun key => leaf_populated (by decide) _) _
  case h_16 => exact good_map (fun keys => Clause.any_populated (members keys)) _
  case h_17 => exact good_map (fun keys => Clause.all_populated (members keys)) _
  case h_21 | h_22 => exact geoClause_populated _ _ _ _
  case h_23 => exact textClause_populated _ _ _
  all_goals rintro c ⟨⟩
  case h_1 | h_4 | h_13 => exact Clause.negate_populated (leaf_populated (by decide) _)
  case h_18 => exact Clause.all_populated (List.forall_mem_map.mpr fun v _ => leaf_populated (by decide) _)
  case h_9 | h_10 | h_19 => trivial
  case h_11 | h_12 | h_20 => rfl
  all_goals exact leaf_populated (by decide) _

end SearchEngine

namespace Adapter

variable {a : Adapter} {f : Field} {options : ApplyOptions} {p : Predicate}

-- Predicates of SQL probe the column; clauses name documents' fields in texts of their own.
theorem leaf_probes (built : a.leaf f ty op operand options = some p) :
    p.Populated ∧ ∀ e, p = .sql e → (options.column f).Probes e := by
  have of_sql : ∀ {o : Option Expr}, (∀ e ∈ o, (options.column f).Probes e) → o.map Predicate.sql = some p →
      p.Populated ∧ ∀ e, p = .sql e → (options.column f).Probes e := by
    intro o each made
    obtain ⟨e, found, rfl⟩ := Option.map_eq_some_iff.mp made
    refine ⟨(each e found).populated, ?_⟩
    rintro _ ⟨⟩
    exact each e found
  cases a with
  | postgres => exact of_sql (Postgres.leaf_probes f ty op operand options) built
  | cockroachDb => exact of_sql (Postgres.leaf_probes f ty op operand options) built
  | mySql => exact of_sql (MySql.leaf_probes f ty op operand options) built
  | sqlite => exact of_sql (Sqlite.leaf_probes f ty op operand options) built
  | msSql => exact of_sql (MsSql.leaf_probes f ty op operand options) built
  | search =>
    obtain ⟨c, found, rfl⟩ := Option.map_eq_some_iff.mp built
    exact ⟨SearchEngine.clause_populated _ _ _ _ c found, by simp⟩

theorem predicate_probes (built : a.predicate? f op operand options = some p) :
    p.Populated ∧ ∀ e, p = .sql e → (options.column f).Probes e := by
  unfold predicate? at built
  split at built
  · split at built
    · exact leaf_probes built
    · cases built
  · cases built

end Adapter

namespace FilterContext

variable {c : FilterContext} {scope : Scope} {l : Leaf} {p : Predicate}

theorem test_probes (tested : c.test scope l = .ok p) :
    p.Populated ∧ ∃ name, l.field.head? = some name ∧
      ∀ e, p = .sql e → (Expr.column (qualifier scope.binding) name).Probes e := by
  obtain ⟨name, f, ty, head, named, _, typed⟩ := test_parts.mp tested
  obtain ⟨_, _, operand, _, built⟩ := typed_parts.mp typed
  obtain ⟨populated, probes⟩ := Adapter.predicate_probes built
  rw [ApplyOptions.column_bound, Adapter.field_column named] at probes
  exact ⟨populated, name, head, probes⟩

theorem test_keeps (tested : c.test scope l = .ok p) (own : p.kind = .sql) (undecided : p.Undecided) :
    ∃ name, l.field.head? = some name ∧ .column (qualifier scope.binding) name ∈ p.reads := by
  obtain ⟨_, name, head, probes⟩ := test_probes tested
  cases p with
  | search c => cases own
  | sql e => exact ⟨name, head, (probes e rfl).kept undecided _ (List.mem_singleton_self _)⟩

end FilterContext
end FilterQuery
