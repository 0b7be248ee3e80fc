import FilterQuery.Adapter.Set
import FilterQuery.Proofs.RouteParts

namespace FilterQuery

namespace Operand

-- The form that the operands of an arity are read in.
inductive Fits : Arity → Operand → Prop where
  | flag : Fits .flag (.flag b)
  | scalar : Fits .scalar (.scalar v)
  | list : Fits .list (.list vs)
  | pattern : Fits .pattern (.pattern text)
  | document : Fits .document (.document doc)
  | keys : Fits .keys (.keys (key :: rest))
  | near : Fits .radius (.near center distance unit)
  | bounds : Fits .box (.bounds southWest northEast)

theorem ofKeys_fits (read : ofKeys op raw = .ok operand) : Fits .keys operand := by
  unfold ofKeys at read
  split at read
  · cases read
    exact .keys
  · split at read
    · cases read
    · split at read
      · cases read
      · cases read
      · rename_i names nonempty _
        cases read
        cases names with
        | nil => exact absurd rfl nonempty
        | cons key rest => exact .keys
  · cases read

theorem ofArity_fits (arity : Arity) (read : ofArity arity op ty members raw = .ok operand) : Fits arity operand := by
  cases arity with
  | keys => exact ofKeys_fits read
  | flag =>
    simp only [ofArity, ofFlag] at read
    split at read <;> cases read
    exact .flag
  | scalar =>
    simp only [ofArity, ofScalar] at read
    split at read <;> split at read <;> cases read <;> exact .scalar
  | list =>
    simp only [ofArity, ofList] at read
    split at read
    · obtain ⟨values, _, same⟩ := bind_exact.mp read
      cases same
      exact .list
    · cases read
  | pattern =>
    simp only [ofArity, ofPattern] at read
    split at read
    · split at read <;> cases read
      exact .pattern
    · cases read
  | document =>
    simp only [ofArity, ofDocument] at read
    split at read <;> cases read <;> exact .document
  | radius =>
    simp only [ofArity, ofRadius] at read
    split at read
    · obtain ⟨center, _, read⟩ := bind_exact.mp read
      obtain ⟨distance, _, read⟩ := bind_exact.mp read
      obtain ⟨unit, _, same⟩ := bind_exact.mp read
      cases same
      exact .near
    · cases read
  | box =>
    simp only [ofArity, ofBox] at read
    split at read
    · obtain ⟨southWest, _, read⟩ := bind_exact.mp read
      obtain ⟨northEast, _, same⟩ := bind_exact.mp read
      split at same <;> cases same
      exact .bounds
    · cases read

end Operand

open Operand (Fits)

-- The operators that every type without a builder of its own is left to.
def Operator.compares : Operator → Bool
  | eq | neq | gt | gte | lt | lte | isIn | notIn | isNull => true
  | _ => false

theorem comparison_built (col : Expr) (param : Value → Expr) (compares : op.compares = true)
    (fits : Fits (op.arity ty) operand) : (comparison col param op operand).isSome = true := by
  cases op with
  | eq | neq =>
    cases fits with | @scalar v => cases v <;> rfl
  | gt | gte | lt | lte =>
    cases fits with | scalar => rfl
  | isIn | notIn =>
    cases fits with | @list vs => cases vs <;> rfl
  | isNull =>
    cases fits with | flag => rfl
  | _ => cases compares

theorem textMatch_built (col : Expr) (style : LikeStyle) (matching : isTextMatch op = true)
    (fits : Fits (op.arity ty) operand) :
    (operand.pattern?.bind fun p => textMatch col op p style).isSome = true := by
  cases op with
  | startsWith | endsWith | includes | like | nlike | ilike | nilike =>
    cases fits with | pattern => cases style <;> rfl
  | _ => cases matching

-- Types without a builder of their own are compared and nothing else.
theorem SemanticType.compares_of_candidate {ty : SemanticType} (plain : ty ∉ [.string, .json, .coordinates])
    (scalar : ty.isArray = false) (candidate : ty.candidates.contains op = true) : op.compares = true := by
  have member := List.contains_iff_mem.mp candidate
  cases ty with
  | string | json | coordinates => exact absurd (by decide) plain
  | array element => cases scalar
  | boolean =>
    simp only [candidates, List.mem_cons, List.not_mem_nil, or_false] at member
    rcases member with rfl | rfl | rfl <;> rfl
  | uuid | enum =>
    simp only [candidates, List.mem_cons, List.not_mem_nil, or_false] at member
    rcases member with rfl | rfl | rfl | rfl | rfl <;> rfl
  | integer | float | decimal | date | dateTime | time =>
    simp only [candidates, List.mem_cons, List.not_mem_nil, or_false] at member
    rcases member with rfl | rfl | rfl | rfl | rfl | rfl | rfl | rfl | rfl <;> rfl

namespace Postgres

variable {col : Expr}

theorem textLeaf_built (offered : SemanticType.string.candidates.contains op = true)
    (fits : Fits (op.arity .string) operand) : (textLeaf col op operand).isSome = true := by
  unfold textLeaf
  split
  · rename_i matching
    exact textMatch_built col .native matching fits
  · rename_i plain
    cases op with
    | regex | iregex | similar | search =>
      cases fits with | pattern => rfl
    | eq | neq | gt | gte | lt | lte | isIn | notIn | isNull => exact comparison_built _ _ rfl fits
    | _ => first | exact absurd rfl plain | cases offered

theorem jsonLeaf_built (offered : SemanticType.json.candidates.contains op = true)
    (fits : Fits (op.arity .json) operand) : (jsonLeaf col op operand).isSome = true := by
  cases op with
  | contains | containedIn =>
    cases fits with | document => rfl
  | hasKey | hasKeysAny | hasKeysAll =>
    cases fits with | keys => rfl
  | eq | neq | isNull => exact comparison_built _ _ rfl fits
  | _ => cases offered

theorem arrayLeaf_built (ty : String) (offered : (SemanticType.array element).candidates.contains op = true)
    (fits : Fits (op.arity (.array element)) operand) : (arrayLeaf col ty op operand).isSome = true := by
  cases op with
  | contains | containedIn | overlaps =>
    cases fits with | list => rfl
  | eq | neq | isNull => exact comparison_built _ _ rfl fits
  | _ => cases element <;> cases offered

theorem geoLeaf_built (options : ApplyOptions) (offered : SemanticType.coordinates.candidates.contains op = true)
    (fits : Fits (op.arity .coordinates) operand) : (geoLeaf col op operand options).isSome = true := by
  cases op with
  | near =>
    cases fits with | near => rfl
  | withinBox =>
    cases fits with | bounds => rfl
  | isNull => exact comparison_built _ _ rfl fits
  | _ => cases offered

theorem leaf_built (f : Field) (options : ApplyOptions) (offered : ty.candidates.contains op = true)
    (fits : Fits (op.arity ty) operand) : (leaf f ty op operand options).isSome = true := by
  cases ty with
  | string => exact textLeaf_built offered fits
  | json => exact jsonLeaf_built offered fits
  | array element => exact arrayLeaf_built _ offered fits
  | coordinates => exact geoLeaf_built options offered fits
  | _ => exact comparison_built _ _ (SemanticType.compares_of_candidate (by decide) rfl offered) fits

end Postgres

namespace MySql

variable {col : Expr}

theorem textLeaf_built (offered : Adapter.mySql.implements .string op = true)
    (fits : Fits (op.arity .string) operand) : (textLeaf col op operand).isSome = true := by
  unfold textLeaf
  split
  · rename_i matching
    exact textMatch_built col (.lowered false) matching fits
  · rename_i plain
    cases op with
    | regex | iregex | search =>
      cases fits with | pattern => rfl
    | eq | neq | gt | gte | lt | lte | isIn | notIn | isNull => exact comparison_built _ _ rfl fits
    | _ => first | exact absurd rfl plain | cases offered

theorem jsonLeaf_built (offered : Adapter.mySql.implements .json op = true)
    (fits : Fits (op.arity .json) operand) : (jsonLeaf col op operand).isSome = true := by
  cases op with
  | contains | containedIn =>
    cases fits with | document => rfl
  | hasKey | hasKeysAny | hasKeysAll =>
    cases fits with | keys => rfl
  | eq | neq | isNull => exact comparison_built _ _ rfl fits
  | _ => cases offered

theorem arrayLeaf_built (offered : Adapter.mySql.implements (.array element) op = true)
    (fits : Fits (op.arity (.array element)) operand) : (arrayLeaf col op operand).isSome = true := by
  cases op with
  | contains | containedIn | overlaps =>
    cases fits with | list => rfl
  | eq | neq | isNull => exact comparison_built _ _ rfl fits
  | _ => cases element <;> cases offered

theorem geoLeaf_built (options : ApplyOptions) (offered : Adapter.mySql.implements .coordinates op = true)
    (fits : Fits (op.arity .coordinates) operand) : (geoLeaf col op operand options).isSome = true := by
  cases op with
  | near =>
    cases fits with | near => rfl
  | withinBox =>
    cases fits with | bounds => rfl
  | isNull => exact comparison_built _ _ rfl fits
  | _ => cases offered

theorem leaf_built (f : Field) (options : ApplyOptions) (offered : Adapter.mySql.implements ty op = true)
    (fits : Fits (op.arity ty) operand) : (leaf f ty op operand options).isSome = true := by
  have candidate : ty.candidates.contains op = true := (Bool.and_eq_true_iff.mp offered).1
  cases ty with
  | string => exact textLeaf_built offered fits
  | json => exact jsonLeaf_built offered fits
  | array element => exact arrayLeaf_built offered fits
  | coordinates => exact geoLeaf_built options offered fits
  | _ => exact comparison_built _ _ (SemanticType.compares_of_candidate (by decide) rfl candidate) fits

end MySql

namespace Sqlite

variable {col : Expr}

theorem textLeaf_built (offered : implements .string op = true) (fits : Fits (op.arity .string) operand) :
    (textLeaf col op operand).isSome = true := by
  unfold textLeaf
  split
  · rename_i matching
    exact textMatch_built col .glob matching fits
  · rename_i plain
    cases op with
    | regex | iregex =>
      cases fits with | pattern => rfl
    | eq | neq | gt | gte | lt | lte | isIn | notIn | isNull => exact comparison_built _ _ rfl fits
    | _ => first | exact absurd rfl plain | cases offered

theorem jsonLeaf_built (offered : implements .json op = true) (fits : Fits (op.arity .json) operand) :
    (jsonLeaf col op operand).isSome = true := by
  cases op with
  | hasKey | hasKeysAny | hasKeysAll =>
    cases fits with | keys => rfl
  | eq | neq | isNull => exact comparison_built _ _ rfl fits
  | _ => cases offered

theorem arrayLeaf_built (offered : implements (.array element) op = true)
    (fits : Fits (op.arity (.array element)) operand) : (arrayLeaf col op operand).isSome = true := by
  cases op with
  | contains | containedIn | overlaps =>
    cases fits with | list => rfl
  | eq | neq | isNull => exact comparison_built _ _ rfl fits
  | _ => cases element <;> cases offered

-- Coordinates are only tested for being there.
theorem leaf_built (f : Field) (options : ApplyOptions) (offered : implements ty op = true)
    (fits : Fits (op.arity ty) operand) : (leaf f ty op operand options).isSome = true := by
  have candidate : ty.candidates.contains op = true := (Bool.and_eq_true_iff.mp offered).1
  cases ty with
  | string => exact textLeaf_built offered fits
  | json => exact jsonLeaf_built offered fits
  | array element => exact arrayLeaf_built offered fits
  | coordinates =>
    cases op with
    | isNull => exact comparison_built _ _ rfl fits
    | _ => cases offered
  | _ => exact comparison_built _ _ (SemanticType.compares_of_candidate (by decide) rfl candidate) fits

end Sqlite

namespace MsSql

variable {col : Expr}

theorem textLeaf_built (offered : implements .string op = true) (fits : Fits (op.arity .string) operand) :
    (textLeaf col op operand).isSome = true := by
  unfold textLeaf
  split
  · rename_i matching
    exact textMatch_built col (.lowered true) matching fits
  · rename_i plain
    cases op with
    | search =>
      cases fits with | pattern => rfl
    | eq | neq | gt | gte | lt | lte | isIn | notIn | isNull => exact comparison_built _ _ rfl fits
    | _ => first | exact absurd rfl plain | cases offered

theorem jsonLeaf_built (offered : implements .json op = true) (fits : Fits (op.arity .json) operand) :
    (jsonLeaf col op operand).isSome = true := by
  cases op with
  | hasKey | hasKeysAny | hasKeysAll =>
    cases fits with | keys => rfl
  | eq | neq | isNull => exact comparison_built _ _ rfl fits
  | _ => cases offered

theorem geoLeaf_built (options : ApplyOptions) (offered : implements .coordinates op = true)
    (fits : Fits (op.arity .coordinates) operand) : (geoLeaf col op operand options).isSome = true := by
  cases op with
  | near =>
    cases fits with | near => rfl
  | withinBox =>
    cases fits with | bounds => rfl
  | isNull => exact comparison_built _ _ rfl fits
  | _ => cases offered

-- Arrays are only tested for being there.
theorem leaf_built (f : Field) (options : ApplyOptions) (offered : implements ty op = true)
    (fits : Fits (op.arity ty) operand) : (leaf f ty op operand options).isSome = true := by
  have candidate : ty.candidates.contains op = true := (Bool.and_eq_true_iff.mp offered).1
  cases ty with
  | string => exact textLeaf_built offered fits
  | json => exact jsonLeaf_built offered fits
  | coordinates => exact geoLeaf_built options offered fits
  | array element =>
    cases op with
    | isNull => exact comparison_built _ _ rfl fits
    | _ => cases element <;> cases offered
  | _ => exact comparison_built _ _ (SemanticType.compares_of_candidate (by decide) rfl candidate) fits

end MsSql

namespace SearchEngine

theorem clause_built (field : String) (options : ApplyOptions) (offered : implements ty op = true)
    (fits : Fits (op.arity ty) operand) : (clause field options op operand).isSome = true := by
  cases op with
  | eq | neq | gt | gte | lt | lte =>
    cases fits with | @scalar v => cases v <;> rfl
  | isIn | notIn =>
    cases fits with | @list vs => cases vs <;> rfl
  | isNull =>
    cases fits with | @flag b => cases b <;> rfl
  | like | nlike | ilike | nilike | startsWith | endsWith | includes | regex | iregex | search =>
    cases fits with | pattern => rfl
  | hasKey | hasKeysAny | hasKeysAll =>
    cases fits with | keys => rfl
  | near =>
    cases fits with | near => rfl
  | withinBox =>
    cases fits with | bounds => rfl
  | contains | overlaps =>
    cases ty with
    | array element =>
      cases fits with | @list vs => cases vs <;> rfl
    | _ => cases offered
  | containedIn | similar =>
    cases ty with
    | array element => cases element <;> cases offered
    | _ => cases offered

end SearchEngine

-- Whatever an adapter offers it can build, from any operand of the operator's form.
theorem Adapter.leaf_built (a : Adapter) (f : Field) (options : ApplyOptions) (offered : a.implements ty op = true)
    (fits : Fits (op.arity ty) operand) : (a.leaf f ty op operand options).isSome = true := by
  cases a with
  | postgres => simpa [leaf] using Postgres.leaf_built f options offered fits
  | cockroachDb => simpa [leaf] using Postgres.leaf_built f options (Bool.and_eq_true_iff.mp offered).1 fits
  | mySql => simpa [leaf] using MySql.leaf_built f options offered fits
  | sqlite => simpa [leaf] using Sqlite.leaf_built f options offered fits
  | msSql => simpa [leaf] using MsSql.leaf_built f options offered fits
  | search => simpa [leaf, SearchEngine.leaf] using SearchEngine.clause_built _ options offered fits

theorem Adapter.predicate_built {a : Adapter} {f : Field} (scalar : f.type? = some ty)
    (offered : a.implements ty op = true)
    (coerced : Operand.coerce field op ty f.enumMembers raw = .ok operand) (options : ApplyOptions) :
    ∃ p, a.predicate? f op operand options = some p := by
  have fits := Operand.ofArity_fits _ (Operand.coerce_exact.mp coerced)
  rw [predicate?, scalar]
  simp only [offered, if_true]
  exact Option.isSome_iff_exists.mp (a.leaf_built f options offered fits)

end FilterQuery
