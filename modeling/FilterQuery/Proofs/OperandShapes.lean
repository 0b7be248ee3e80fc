import FilterQuery.Adapter.Basic
import FilterQuery.Proofs.Masking

namespace FilterQuery

-- Null or not, a flag as it is, and the number of members where each becomes a parameter of its own.
def Operand.outline (op : Operator) : Operand → Operand
  | flag b => flag b
  | scalar v => scalar v.masked
  | list vs => list (if op = .isIn ∨ op = .notIn then vs.map Value.masked else [])
  | pattern _ => pattern ""
  | document _ => document .null
  | keys names => keys (names.map fun _ => "")
  | near _ _ _ => near ⟨0, 0⟩ 0 none
  | bounds _ _ => bounds ⟨0, 0⟩ ⟨0, 0⟩

-- What is built is built from the outline just as well, once values are hidden.
def Veiled (build : Operand → Option Expr) (op : Operator) (operand : Operand) : Prop :=
  (build operand).map Expr.masked = (build (operand.outline op)).map Expr.masked

-- A parameter shows of its value whether it is null.
def Veils (param : Value → Expr) : Prop := ∀ v, (param v).masked = (param v.masked).masked

theorem value_veils : Veils .value := by
  intro v
  simp

theorem comparison_veiled (col : Expr) {param : Value → Expr} (veils : Veils param) (op : Operator)
    (operand : Operand) : Veiled (comparison col param op) op operand := by
  have listed : ∀ vs : List Value, Expr.listMasked (vs.map param) = Expr.listMasked ((vs.map Value.masked).map param) := by
    intro vs
    simp only [Expr.listMasked_eq_map, List.map_map]
    exact List.map_congr_left fun v _ => veils v
  cases op with
  | eq | neq =>
    cases operand with
    | scalar v => cases v <;> first | rfl | exact congrArg (fun e => some (Expr.binary col.masked _ e)) (veils _)
    | _ => rfl
  | gt | gte | lt | lte =>
    cases operand with
    | scalar v => exact congrArg (fun e => some (Expr.binary col.masked _ e)) (veils v)
    | _ => rfl
  | isIn | notIn =>
    cases operand with
    | list vs =>
      cases vs with
      | nil => rfl
      | cons v rest => exact congrArg (fun list => some (Expr.inList col.masked list _)) (listed (v :: rest))
    | _ => rfl
  | isNull => cases operand <;> rfl
  | _ => cases operand <;> rfl

section Parts

variable {op : Operator} {operand : Operand}

theorem pattern_veiled {build : String → Option Expr}
    (hidden : ∀ p p', (build p).map Expr.masked = (build p').map Expr.masked) :
    Veiled (fun operand => operand.pattern?.bind build) op operand := by
  cases operand with
  | pattern p => exact hidden p ""
  | _ => rfl

theorem search_veiled {build : String → Expr} (hidden : ∀ p p', (build p).masked = (build p').masked) :
    Veiled (fun operand => operand.pattern?.map build) op operand := by
  cases operand with
  | pattern p => exact congrArg some (hidden p "")
  | _ => rfl

-- Keys tell how many they are.
theorem keys_veiled {build : List String → Expr}
    (hidden : ∀ keys keys', keys.length = keys'.length → (build keys).masked = (build keys').masked) :
    Veiled (fun operand => operand.keys?.map build) op operand := by
  cases operand with
  | keys names =>
    cases names with
    | nil => rfl
    | cons key rest => exact congrArg some (hidden _ _ (by simp))
  | _ => rfl

theorem firstKey_veiled {build : String → Expr} (hidden : ∀ key key', (build key).masked = (build key').masked) :
    Veiled (fun operand => (operand.keys?.bind List.head?).map build) op operand := by
  cases operand with
  | keys names =>
    cases names with
    | nil => rfl
    | cons key rest => exact congrArg some (hidden key "")
  | _ => rfl

-- A list that becomes one parameter does not tell its length.
theorem list_veiled {build : List Value → Expr} (hidden : ∀ vs vs', (build vs).masked = (build vs').masked) :
    Veiled (fun operand => operand.list?.map build) op operand := by
  cases operand with
  | list vs => exact congrArg some (hidden _ _)
  | _ => rfl

theorem near_veiled {options : ApplyOptions} {build : GeoPoint × Float → Expr}
    (hidden : ∀ circle circle', (build circle).masked = (build circle').masked) :
    Veiled (fun operand => (options.near? operand).map build) op operand := by
  cases operand with
  | near center distance unit => exact congrArg some (hidden _ _)
  | _ => rfl

theorem bounds_veiled {build : GeoPoint × GeoPoint → Expr}
    (hidden : ∀ box box', (build box).masked = (build box').masked) :
    Veiled (fun operand => operand.bounds?.map build) op operand := by
  cases operand with
  | bounds southWest northEast => exact congrArg some (hidden _ _)
  | _ => rfl

-- Tests of one key each.
theorem keyTests_masked {test : String → Expr} (hidden : ∀ key key', (test key).masked = (test key').masked)
    (keys keys' : List String) (length : keys.length = keys'.length) :
    (keys.map test).map Expr.masked = (keys'.map test).map Expr.masked := by
  have each : ∀ keys : List String, (keys.map test).map Expr.masked = List.replicate keys.length (test "").masked := by
    intro keys
    rw [List.map_map, ← List.map_const']
    exact List.map_congr_left fun key _ => hidden key ""
  rw [each, each, length]

theorem anyKey_veiled {test : String → Expr} (hidden : ∀ key key', (test key).masked = (test key').masked) :
    Veiled (fun operand => operand.keys?.map fun keys => Expr.any (keys.map test)) op operand := by
  refine keys_veiled fun keys keys' length => ?_
  rw [Expr.any_masked, Expr.any_masked, keyTests_masked hidden keys keys' length]

theorem everyKey_veiled {test : String → Expr} (hidden : ∀ key key', (test key).masked = (test key').masked) :
    Veiled (fun operand => operand.keys?.map fun keys => Expr.all (keys.map test)) op operand := by
  refine keys_veiled fun keys keys' length => ?_
  rw [Expr.all_masked, Expr.all_masked, keyTests_masked hidden keys keys' length]

end Parts

theorem textParam_masked (cs cs' : List Char) : (textParam cs).masked = (textParam cs').masked := by
  simp [textParam, Value.masked]

-- Only the operator and the style tell whether a text becomes an affix.
theorem affixPattern_together (op : Operator) (raw raw' : List Char) (style : LikeStyle) :
    (affixPattern op raw style).isSome = (affixPattern op raw' style).isSome := by
  have together : ∀ escaped escaped' any, (affixed escaped any op).isSome = (affixed escaped' any op).isSome := by
    intros
    cases op <;> rfl
  cases style <;> exact together ..

theorem affixMatch_masked (col : Expr) (style : LikeStyle) (cs cs' : List Char) :
    (affixMatch col (textParam cs) style).masked = (affixMatch col (textParam cs') style).masked := by
  unfold affixMatch
  split <;> simp [infixed, textParam_masked cs cs']

theorem patternMatch_masked (col : Expr) (style : LikeStyle) (op : Operator) (raw raw' : List Char) :
    (patternMatch col raw style op).map Expr.masked = (patternMatch col raw' style op).map Expr.masked := by
  fun_cases patternMatch col raw style op <;>
    simp [patternMatch, infixed, loweredMatch, textParam, Value.masked, *]

theorem textMatch_veiled (col : Expr) (style : LikeStyle) (op : Operator) (operand : Operand) :
    Veiled (fun operand => operand.pattern?.bind fun p => textMatch col op p style) op operand := by
  refine pattern_veiled fun p p' => ?_
  have together := affixPattern_together op p.toList p'.toList style
  unfold textMatch
  cases affix : affixPattern op p.toList style with
  | none =>
    rw [affix, Option.isSome_none, eq_comm, Option.isSome_eq_false_iff, Option.isNone_iff_eq_none] at together
    rw [together]
    exact patternMatch_masked ..
  | some cs =>
    rw [affix, Option.isSome_some, eq_comm, Option.isSome_iff_exists] at together
    obtain ⟨cs', affix'⟩ := together
    rw [affix']
    exact congrArg some (affixMatch_masked ..)

namespace Postgres

theorem cast_veils (ty : String) : Veils (cast ty) := by
  intro v
  simp [cast]

theorem castParam_veils (ty : Option String) : Veils (castParam ty) := by
  cases ty with
  | none => exact value_veils
  | some ty => exact cast_veils ty

theorem textLeaf_veiled (col : Expr) (op : Operator) (operand : Operand) : Veiled (textLeaf col op) op operand := by
  unfold textLeaf
  split
  · exact textMatch_veiled col .native op operand
  · split
    case h_5 => exact comparison_veiled col value_veils op operand
    all_goals exact search_veiled fun _ _ => by simp [Value.masked]

theorem jsonLeaf_compared (col : Expr) {op : Operator}
    (other : op ∉ [.contains, .containedIn, .hasKey, .hasKeysAny, .hasKeysAll]) :
    jsonLeaf col op = comparison col (cast "jsonb") op := by
  funext operand
  unfold jsonLeaf
  split
  case h_6 => rfl
  all_goals simp at other

theorem jsonLeaf_veiled (col : Expr) (op : Operator) (operand : Operand) : Veiled (jsonLeaf col op) op operand := by
  by_cases own : op ∈ [.contains, .containedIn, .hasKey, .hasKeysAny, .hasKeysAll]
  · cases op with
    | contains | containedIn => cases operand <;> rfl
    | hasKey => exact firstKey_veiled fun _ _ => by simp [Value.masked]
    | hasKeysAny | hasKeysAll => exact keys_veiled fun _ _ _ => by simp [keysParam, cast, Value.masked]
    | _ => simp at own
  · rw [jsonLeaf_compared col own]
    exact comparison_veiled col (cast_veils _) op operand

theorem arrayLeaf_veiled (col : Expr) (ty : String) (op : Operator) (operand : Operand) :
    Veiled (arrayLeaf col ty op) op operand := by
  unfold arrayLeaf
  split
  case h_4 => exact comparison_veiled col (cast_veils ty) op operand
  all_goals exact list_veiled fun _ _ => by simp [cast, Value.masked]

theorem geoLeaf_veiled (col : Expr) (op : Operator) (operand : Operand) (options : ApplyOptions) :
    Veiled (fun operand => geoLeaf col op operand options) op operand := by
  unfold geoLeaf
  split
  · exact near_veiled fun _ _ => by simp [floatParam, Value.masked]
  · exact bounds_veiled fun _ _ => by simp [floatParam, Value.masked]
  · exact comparison_veiled col value_veils op operand

theorem leaf_veiled (f : Field) (ty : SemanticType) (op : Operator) (operand : Operand) (options : ApplyOptions) :
    Veiled (fun operand => leaf f ty op operand options) op operand := by
  cases ty with
  | json => exact jsonLeaf_veiled ..
  | coordinates => exact geoLeaf_veiled ..
  | array element => exact arrayLeaf_veiled ..
  | string => exact textLeaf_veiled ..
  | enum => exact comparison_veiled _ (castParam_veils _) _ _
  | _ => exact comparison_veiled _ value_veils _ _

end Postgres

namespace MySql

theorem jsonParam_veils : Veils jsonParam := fun _ => by simp [jsonParam, Value.masked]

theorem textLeaf_veiled (col : Expr) (op : Operator) (operand : Operand) : Veiled (textLeaf col op) op operand := by
  unfold textLeaf
  split
  · exact textMatch_veiled col (.lowered false) op operand
  · split
    case h_4 => exact comparison_veiled col value_veils op operand
    all_goals exact search_veiled fun _ _ => by simp [regexpLike, Value.masked]

-- As many parameters as keys.
theorem containsPath_masked (mode : String) (col : Expr) (keys keys' : List String)
    (length : keys.length = keys'.length) :
    (containsPath mode col keys).masked = (containsPath mode col keys').masked := by
  simp [containsPath, Expr.listMasked_eq_map, Function.comp_def, Value.masked, List.map_const', length]

theorem jsonLeaf_compared (col : Expr) {op : Operator}
    (other : op ∉ [.contains, .containedIn, .hasKey, .hasKeysAny, .hasKeysAll]) :
    jsonLeaf col op = comparison col jsonParam op := by
  funext operand
  unfold jsonLeaf
  split
  case h_6 => rfl
  all_goals simp at other

theorem jsonLeaf_veiled (col : Expr) (op : Operator) (operand : Operand) : Veiled (jsonLeaf col op) op operand := by
  by_cases own : op ∈ [.contains, .containedIn, .hasKey, .hasKeysAny, .hasKeysAll]
  · cases op with
    | contains | containedIn => cases operand <;> rfl
    | hasKey | hasKeysAny | hasKeysAll => exact keys_veiled (containsPath_masked _ col)
    | _ => simp at own
  · rw [jsonLeaf_compared col own]
    exact comparison_veiled col jsonParam_veils op operand

theorem arrayLeaf_veiled (col : Expr) (op : Operator) (operand : Operand) : Veiled (arrayLeaf col op) op operand := by
  unfold arrayLeaf
  simp only [Option.map_map, Function.comp_def]
  split
  case h_4 => exact comparison_veiled col jsonParam_veils op operand
  all_goals exact list_veiled fun _ _ => by simp [jsonContains, jsonParam, jsonArray, Value.masked]

theorem geoLeaf_veiled (col : Expr) (op : Operator) (operand : Operand) (options : ApplyOptions) :
    Veiled (fun operand => geoLeaf col op operand options) op operand := by
  unfold geoLeaf
  split
  · exact near_veiled fun _ _ => by simp [Value.masked]
  · exact bounds_veiled fun _ _ => by simp [Value.masked]
  · exact comparison_veiled col value_veils op operand

theorem leaf_veiled (f : Field) (ty : SemanticType) (op : Operator) (operand : Operand) (options : ApplyOptions) :
    Veiled (fun operand => leaf f ty op operand options) op operand := by
  cases ty with
  | json => exact jsonLeaf_veiled ..
  | coordinates => exact geoLeaf_veiled ..
  | array element => exact arrayLeaf_veiled ..
  | string => exact textLeaf_veiled ..
  | _ => exact comparison_veiled _ value_veils _ _

end MySql

namespace Sqlite

theorem jsonValue_veils : Veils jsonValue := fun _ => by simp [jsonValue, Value.masked]

theorem textLeaf_veiled (col : Expr) (op : Operator) (operand : Operand) : Veiled (textLeaf col op) op operand := by
  unfold textLeaf
  split
  · exact textMatch_veiled col .glob op operand
  · split
    case h_3 => exact comparison_veiled col value_veils op operand
    all_goals exact search_veiled fun _ _ => by simp [Value.masked]

theorem jsonLeaf_veiled (col : Expr) (op : Operator) (operand : Operand) : Veiled (jsonLeaf col op) op operand := by
  have tests : ∀ key key', (hasKey col key).masked = (hasKey col key').masked := fun _ _ => by simp [hasKey, Value.masked]
  unfold jsonLeaf
  split
  · exact firstKey_veiled tests
  · exact anyKey_veiled tests
  · exact everyKey_veiled tests
  · exact comparison_veiled col value_veils .isNull operand
  · exact comparison_veiled _ jsonValue_veils op operand

theorem arrayLeaf_veiled (col : Expr) (op : Operator) (operand : Operand) : Veiled (arrayLeaf col op) op operand := by
  unfold arrayLeaf
  simp only [Option.map_map, Function.comp_def]
  split
  case h_4 => exact comparison_veiled col value_veils .isNull operand
  case h_5 => exact comparison_veiled _ jsonValue_veils op operand
  all_goals exact list_veiled fun _ _ => by simp [everyElement, someElement, jsonArray, Value.masked]

theorem leaf_veiled (f : Field) (ty : SemanticType) (op : Operator) (operand : Operand) (options : ApplyOptions) :
    Veiled (fun operand => leaf f ty op operand options) op operand := by
  cases ty with
  | json => exact jsonLeaf_veiled ..
  | array element => exact arrayLeaf_veiled ..
  | string => exact textLeaf_veiled ..
  | _ => exact comparison_veiled _ value_veils _ _

end Sqlite

namespace MsSql

theorem documentText_veils : Veils documentText := fun _ => by simp [documentText, Value.masked]

theorem textLeaf_veiled (col : Expr) (op : Operator) (operand : Operand) : Veiled (textLeaf col op) op operand := by
  unfold textLeaf
  split
  · exact textMatch_veiled col (.lowered true) op operand
  · split
    · exact search_veiled fun _ _ => by simp [Value.masked]
    · exact comparison_veiled col value_veils op operand

theorem jsonLeaf_veiled (col : Expr) (op : Operator) (operand : Operand) : Veiled (jsonLeaf col op) op operand := by
  have tests : ∀ key key', (hasKey col key).masked = (hasKey col key').masked := fun _ _ => by simp [hasKey, Value.masked]
  unfold jsonLeaf
  split
  · exact firstKey_veiled tests
  · exact anyKey_veiled tests
  · exact everyKey_veiled tests
  · exact comparison_veiled col documentText_veils op operand

theorem geoLeaf_veiled (col : Expr) (op : Operator) (operand : Operand) (options : ApplyOptions) :
    Veiled (fun operand => geoLeaf col op operand options) op operand := by
  unfold geoLeaf
  split
  · exact near_veiled fun _ _ => by simp [Value.masked]
  · exact bounds_veiled fun _ _ => by simp [Value.masked]
  · exact comparison_veiled col value_veils op operand

theorem leaf_veiled (f : Field) (ty : SemanticType) (op : Operator) (operand : Operand) (options : ApplyOptions) :
    Veiled (fun operand => leaf f ty op operand options) op operand := by
  cases ty with
  | json => exact jsonLeaf_veiled ..
  | coordinates => exact geoLeaf_veiled ..
  | string => exact textLeaf_veiled ..
  | _ => exact comparison_veiled _ value_veils _ _

end MsSql

theorem Adapter.leaf_veiled {a : Adapter} (own : a ≠ .search) (f : Field) (ty : SemanticType) (op : Operator)
    (operand : Operand) (options : ApplyOptions) : (a.leaf f ty op operand options).map Predicate.masked =
      (a.leaf f ty op (operand.outline op) options).map Predicate.masked := by
  have wrap : ∀ {build : Operand → Option Expr}, Veiled build op operand →
      ((build operand).map Predicate.sql).map Predicate.masked =
        ((build (operand.outline op)).map Predicate.sql).map Predicate.masked := by
    intro build veiled
    have lifted := congrArg (Option.map Predicate.sql) veiled
    simpa only [Option.map_map, Function.comp_def, Predicate.masked] using lifted
  cases a with
  | postgres | cockroachDb => exact wrap (Postgres.leaf_veiled f ty op operand options)
  | mySql => exact wrap (MySql.leaf_veiled f ty op operand options)
  | sqlite => exact wrap (Sqlite.leaf_veiled f ty op operand options)
  | msSql => exact wrap (MsSql.leaf_veiled f ty op operand options)
  | search => exact absurd rfl own

-- Two operands of one outline make one predicate, their values hidden.
theorem Adapter.predicate_veiled {a : Adapter} (own : a ≠ .search) (f : Field) (op : Operator) {operand operand' : Operand}
    (same : operand.outline op = operand'.outline op) (options : ApplyOptions) :
    (a.predicate? f op operand options).map Predicate.masked =
      (a.predicate? f op operand' options).map Predicate.masked := by
  unfold predicate?
  split
  · split
    · rw [leaf_veiled own, same, ← leaf_veiled own]
    · rfl
  · rfl

end FilterQuery
