import FilterQuery.Adapter.Basic
import FilterQuery.Proofs.NormalForm

namespace FilterQuery

-- Both are built or neither is, and what the first builds is good.
structure BuiltAlike (good : α → Prop) (first second : Option α) : Prop where
  together : first.isSome = second.isSome
  sound : ∀ a, first = some a → good a

namespace BuiltAlike

variable {good : α → Prop}

theorem neither : BuiltAlike good none none := ⟨rfl, by simp⟩

theorem both (sound : good a) : BuiltAlike good (some a) (some b) := by
  refine ⟨rfl, ?_⟩
  intro c same
  cases Option.some.inj same
  exact sound

theorem map {f g : β → α} (sound : ∀ x, good (f x)) (o : Option β) : BuiltAlike good (o.map f) (o.map g) := by
  cases o with
  | none => exact neither
  | some x => exact both (sound x)

theorem bind {f g : β → Option α} (each : ∀ x, BuiltAlike good (f x) (g x)) (o : Option β) :
    BuiltAlike good (o.bind f) (o.bind g) := by
  cases o with
  | none => exact neither
  | some x => exact each x

theorem mapped {better : β → Prop} {f : α → β} (sound : ∀ x, good x → better (f x)) {first second : Option α}
    (alike : BuiltAlike good first second) : BuiltAlike better (first.map f) (second.map f) := by
  refine ⟨by simpa using alike.together, ?_⟩
  intro b same
  obtain ⟨a, built, rfl⟩ := Option.map_eq_some_iff.mp same
  exact sound a (alike.sound a built)

end BuiltAlike

-- Every outcome of a map or of a further step is good.
theorem good_map {good : α → Prop} {f : β → α} (sound : ∀ x, good (f x)) (o : Option β) : ∀ a ∈ o.map f, good a := by
  simpa using fun x _ => sound x

theorem good_bind {good : α → Prop} {f : β → Option α} (sound : ∀ x, ∀ a ∈ f x, good a) (o : Option β) :
    ∀ a ∈ o.bind f, good a := by
  intro a built
  obtain ⟨x, -, from_⟩ := Option.mem_bind_iff.mp built
  exact sound x a from_

theorem Operand.keys_some {operand : Operand} {keys : List String} (found : keys ∈ operand.keys?) : keys ≠ [] := by
  rintro rfl
  unfold keys? at found
  split at found <;> simp_all

section Texts

variable (col other : Expr)

theorem comparison_alike (param param' : Value → Expr) (op : Operator) (operand : Operand) :
    BuiltAlike Expr.Normal (comparison col param op operand) (comparison other param' op operand) := by
  unfold comparison
  split
  case h_14 => exact .neither
  all_goals exact .both trivial

theorem affixMatch_normal (arg : Expr) (style : LikeStyle) : (affixMatch col arg style).Normal := by
  unfold affixMatch
  split <;> trivial

theorem patternMatch_alike (raw : List Char) (style : LikeStyle) (op : Operator) :
    BuiltAlike Expr.Normal (patternMatch col raw style op) (patternMatch other raw style op) := by
  unfold patternMatch
  split
  case h_11 => exact .neither
  all_goals exact .both trivial

theorem textMatch_alike (op : Operator) (raw : String) (style : LikeStyle) :
    BuiltAlike Expr.Normal (textMatch col op raw style) (textMatch other op raw style) := by
  unfold textMatch
  split
  · exact .both (affixMatch_normal ..)
  · exact patternMatch_alike ..

theorem normal_keys {test : Expr → String → Expr} (each : ∀ key, (test col key).Normal) (keys : List String) :
    ∀ m ∈ keys.map (test col), m.Normal := by
  intro m member
  obtain ⟨key, _, rfl⟩ := List.mem_map.mp member
  exact each key

namespace Postgres

theorem textLeaf_alike (op : Operator) (operand : Operand) :
    BuiltAlike Expr.Normal (textLeaf col op operand) (textLeaf other op operand) := by
  unfold textLeaf
  split
  · exact .bind (fun p => textMatch_alike ..) _
  · split
    case h_5 => exact comparison_alike ..
    all_goals exact .map (fun _ => trivial) _

theorem jsonLeaf_alike (op : Operator) (operand : Operand) :
    BuiltAlike Expr.Normal (jsonLeaf col op operand) (jsonLeaf other op operand) := by
  unfold jsonLeaf
  split
  case h_1 | h_2 => exact .both trivial
  case h_3 | h_4 | h_5 => exact .map (fun _ => trivial) _
  case h_6 => exact comparison_alike ..

theorem arrayLeaf_alike (ty : String) (op : Operator) (operand : Operand) :
    BuiltAlike Expr.Normal (arrayLeaf col ty op operand) (arrayLeaf other ty op operand) := by
  unfold arrayLeaf
  split
  case h_4 => exact comparison_alike ..
  all_goals exact .map (fun _ => trivial) _

theorem geoLeaf_alike (op : Operator) (operand : Operand) {options options' : ApplyOptions}
    (unit : options.unit = options'.unit) :
    BuiltAlike Expr.Normal (geoLeaf col op operand options) (geoLeaf other op operand options') := by
  have near : options.near? operand = options'.near? operand := by simp only [ApplyOptions.near?, unit]
  unfold geoLeaf
  rw [near]
  split
  case h_3 => exact comparison_alike ..
  all_goals exact .map (fun _ => trivial) _

end Postgres

namespace MySql

theorem textLeaf_alike (op : Operator) (operand : Operand) :
    BuiltAlike Expr.Normal (textLeaf col op operand) (textLeaf other op operand) := by
  unfold textLeaf
  split
  · exact .bind (fun p => textMatch_alike ..) _
  · split
    case h_4 => exact comparison_alike ..
    all_goals exact .map (fun _ => trivial) _

theorem jsonLeaf_alike (op : Operator) (operand : Operand) :
    BuiltAlike Expr.Normal (jsonLeaf col op operand) (jsonLeaf other op operand) := by
  unfold jsonLeaf
  split
  case h_1 | h_2 => exact .both trivial
  case h_3 | h_4 | h_5 => exact .map (fun _ => trivial) _
  case h_6 => exact comparison_alike ..

theorem arrayLeaf_alike (op : Operator) (operand : Operand) :
    BuiltAlike Expr.Normal (arrayLeaf col op operand) (arrayLeaf other op operand) := by
  unfold arrayLeaf
  split
  case h_4 => exact comparison_alike ..
  all_goals exact .map (fun _ => trivial) _

theorem geoLeaf_alike (op : Operator) (operand : Operand) {options options' : ApplyOptions}
    (unit : options.unit = options'.unit) :
    BuiltAlike Expr.Normal (geoLeaf col op operand options) (geoLeaf other op operand options') := by
  have near : options.near? operand = options'.near? operand := by simp only [ApplyOptions.near?, unit]
  unfold geoLeaf
  rw [near]
  split
  case h_3 => exact comparison_alike ..
  all_goals exact .map (fun _ => trivial) _

end MySql

namespace Sqlite

theorem textLeaf_alike (op : Operator) (operand : Operand) :
    BuiltAlike Expr.Normal (textLeaf col op operand) (textLeaf other op operand) := by
  unfold textLeaf
  split
  · exact .bind (fun p => textMatch_alike ..) _
  · split
    case h_3 => exact comparison_alike ..
    all_goals exact .map (fun _ => trivial) _

theorem jsonLeaf_alike (op : Operator) (operand : Operand) :
    BuiltAlike Expr.Normal (jsonLeaf col op operand) (jsonLeaf other op operand) := by
  have tests : ∀ keys : List String, ∀ m ∈ keys.map (hasKey col), m.Normal := normal_keys col fun _ => trivial
  unfold jsonLeaf
  split
  case h_1 => exact .map (fun _ => trivial) _
  case h_2 => exact .map (fun keys => Expr.normal_any (tests keys)) _
  case h_3 => exact .map (fun keys => Expr.normal_all (tests keys)) _
  case h_4 | h_5 => exact comparison_alike ..

theorem arrayLeaf_alike (op : Operator) (operand : Operand) :
    BuiltAlike Expr.Normal (arrayLeaf col op operand) (arrayLeaf other op operand) := by
  unfold arrayLeaf
  split
  case h_4 | h_5 => exact comparison_alike ..
  all_goals exact .map (fun _ => trivial) _

end Sqlite

namespace MsSql

theorem textLeaf_alike (op : Operator) (operand : Operand) :
    BuiltAlike Expr.Normal (textLeaf col op operand) (textLeaf other op operand) := by
  unfold textLeaf
  split
  · exact .bind (fun p => textMatch_alike ..) _
  · split
    · exact .map (fun _ => trivial) _
    · exact comparison_alike ..

theorem jsonLeaf_alike (op : Operator) (operand : Operand) :
    BuiltAlike Expr.Normal (jsonLeaf col op operand) (jsonLeaf other op operand) := by
  have tests : ∀ keys : List String, ∀ m ∈ keys.map (hasKey col), m.Normal := normal_keys col fun _ => trivial
  unfold jsonLeaf
  split
  case h_1 => exact .map (fun _ => trivial) _
  case h_2 => exact .map (fun keys => Expr.normal_any (tests keys)) _
  case h_3 => exact .map (fun keys => Expr.normal_all (tests keys)) _
  case h_4 => exact comparison_alike ..

theorem geoLeaf_alike (op : Operator) (operand : Operand) {options options' : ApplyOptions}
    (unit : options.unit = options'.unit) :
    BuiltAlike Expr.Normal (geoLeaf col op operand options) (geoLeaf other op operand options') := by
  have near : options.near? operand = options'.near? operand := by simp only [ApplyOptions.near?, unit]
  unfold geoLeaf
  rw [near]
  split
  case h_3 => exact comparison_alike ..
  all_goals exact .map (fun _ => trivial) _

end MsSql
end Texts

section Leaves

variable {options options' : ApplyOptions} (unit : options.unit = options'.unit)
include unit

theorem Postgres.leaf_alike (f : Field) (ty : SemanticType) (op : Operator) (operand : Operand) :
    BuiltAlike Expr.Normal (leaf f ty op operand options) (leaf f ty op operand options') := by
  unfold leaf
  dsimp only
  split
  · exact jsonLeaf_alike ..
  · exact geoLeaf_alike _ _ _ _ unit
  · exact arrayLeaf_alike ..
  · exact textLeaf_alike ..
  · exact comparison_alike ..
  · exact comparison_alike ..

theorem MySql.leaf_alike (f : Field) (ty : SemanticType) (op : Operator) (operand : Operand) :
    BuiltAlike Expr.Normal (leaf f ty op operand options) (leaf f ty op operand options') := by
  unfold leaf
  dsimp only
  split
  · exact textLeaf_alike ..
  · exact jsonLeaf_alike ..
  · exact arrayLeaf_alike ..
  · exact geoLeaf_alike _ _ _ _ unit
  · exact comparison_alike ..

theorem MsSql.leaf_alike (f : Field) (ty : SemanticType) (op : Operator) (operand : Operand) :
    BuiltAlike Expr.Normal (leaf f ty op operand options) (leaf f ty op operand options') := by
  unfold leaf
  dsimp only
  split
  · exact textLeaf_alike ..
  · exact jsonLeaf_alike ..
  · exact geoLeaf_alike _ _ _ _ unit
  · exact comparison_alike ..

end Leaves

theorem Sqlite.leaf_alike (f : Field) (ty : SemanticType) (op : Operator) (operand : Operand)
    (options options' : ApplyOptions) :
    BuiltAlike Expr.Normal (leaf f ty op operand options) (leaf f ty op operand options') := by
  unfold leaf
  dsimp only
  split
  · exact textLeaf_alike ..
  · exact jsonLeaf_alike ..
  · exact arrayLeaf_alike ..
  · exact comparison_alike ..

namespace SearchEngine

theorem normal_clauses {test : String → Clause} (each : ∀ key, (test key).Normal) (keys : List String) :
    ∀ m ∈ keys.map test, m.Normal := by
  intro m member
  obtain ⟨key, _, rfl⟩ := List.mem_map.mp member
  exact each key

theorem like_alike (field field' : String) (ignoreCase : Bool) (operand : Operand) :
    BuiltAlike Clause.Normal (like field ignoreCase operand) (like field' ignoreCase operand) := by
  unfold like
  exact .map (fun _ => trivial) _

theorem patternQuery_alike (kind field field' name : String) (extra : List (String × Json)) (operand : Operand) :
    BuiltAlike Clause.Normal (patternQuery kind field name extra operand)
      (patternQuery kind field' name extra operand) := by
  unfold patternQuery
  exact .map (fun _ => trivial) _

theorem textClause_alike (field field' : String) (op : Operator) (operand : Operand) :
    BuiltAlike Clause.Normal (textClause field op operand) (textClause field' op operand) := by
  unfold textClause
  split
  case h_1 | h_3 => exact like_alike ..
  case h_2 | h_4 => exact .mapped (fun _ => Clause.normal_negate) (like_alike ..)
  case h_6 | h_7 => exact .map (fun _ => trivial) _
  case h_11 => exact .neither
  all_goals exact patternQuery_alike ..

theorem geoClause_alike (field field' : String) (op : Operator) (operand : Operand) {options options' : ApplyOptions}
    (unit : options.unit = options'.unit) :
    BuiltAlike Clause.Normal (geoClause field op operand options) (geoClause field' op operand options') := by
  have near : options.near? operand = options'.near? operand := by simp only [ApplyOptions.near?, unit]
  unfold geoClause
  rw [near]
  split
  case h_3 => exact .neither
  all_goals exact .map (fun _ => trivial) _

theorem clause_alike (field field' : String) (op : Operator) (operand : Operand) {options options' : ApplyOptions}
    (unit : options.unit = options'.unit) :
    BuiltAlike Clause.Normal (clause field options op operand) (clause field' options' op operand) := by
  have members : ∀ keys : List String, ∀ m ∈ keys.map (member field), m.Normal := normal_clauses fun _ => trivial
  unfold clause
  split
  case h_1 | h_4 | h_12 | h_13 => exact .both (Clause.normal_negate trivial)
  case h_15 => exact .map (fun _ => trivial) _
  case h_16 => exact .map (fun keys => Clause.normal_any (members keys)) _
  case h_17 => exact .map (fun keys => Clause.normal_all (members keys)) _
  case h_18 vs =>
    refine .both (Clause.normal_all ?_)
    intro m among
    obtain ⟨v, _, rfl⟩ := List.mem_map.mp among
    trivial
  case h_21 | h_22 => exact geoClause_alike _ _ _ _ unit
  case h_23 => exact textClause_alike ..
  all_goals exact .both trivial

end SearchEngine

namespace Adapter

def kind : Adapter → QueryKind
  | search => .search
  | _ => .sql

theorem leaf_alike (a : Adapter) (f : Field) (ty : SemanticType) (op : Operator) (operand : Operand)
    {options options' : ApplyOptions} (unit : options.unit = options'.unit) :
    BuiltAlike Predicate.Normal (a.leaf f ty op operand options) (a.leaf f ty op operand options') := by
  have exprs : ∀ e : Expr, e.Normal → (Predicate.sql e).Normal := fun _ normal => normal
  have clauses : ∀ c : Clause, c.Normal → (Predicate.search c).Normal := fun _ normal => normal
  cases a with
  | postgres => exact .mapped exprs (Postgres.leaf_alike unit ..)
  | cockroachDb => exact .mapped exprs (Postgres.leaf_alike unit ..)
  | mySql => exact .mapped exprs (MySql.leaf_alike unit ..)
  | sqlite => exact .mapped exprs (Sqlite.leaf_alike ..)
  | msSql => exact .mapped exprs (MsSql.leaf_alike unit ..)
  | search => exact .mapped clauses (SearchEngine.clause_alike _ _ _ _ unit)

theorem predicate_alike (a : Adapter) (f : Field) (op : Operator) (operand : Operand)
    {options options' : ApplyOptions} (unit : options.unit = options'.unit) :
    BuiltAlike Predicate.Normal (a.predicate? f op operand options) (a.predicate? f op operand options') := by
  unfold predicate?
  split
  · split
    · exact leaf_alike _ _ _ _ _ unit
    · exact .neither
  · exact .neither

theorem leaf_kind {a : Adapter} (built : a.leaf f ty op operand options = some p) : p.kind = a.kind := by
  cases a <;> obtain ⟨inner, _, rfl⟩ := Option.map_eq_some_iff.mp built <;> rfl

theorem predicate_kind {a : Adapter} (built : a.predicate? f op operand options = some p) : p.kind = a.kind := by
  unfold predicate? at built
  split at built
  · split at built
    · exact leaf_kind built
    · cases built
  · cases built

theorem predicate_normal {a : Adapter} (built : a.predicate? f op operand options = some p) : p.Normal := by
  have alike : BuiltAlike Predicate.Normal (a.predicate? f op operand options) (a.predicate? f op operand options) :=
    a.predicate_alike f op operand rfl
  exact alike.sound p built

end Adapter
end FilterQuery
