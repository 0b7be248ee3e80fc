import FilterQuery.Proofs.OperandForms
import FilterQuery.Proofs.ValueText

namespace FilterQuery

-- Between the poles, and no more than half a turn from the prime meridian.
structure GeoPoint.Located (p : GeoPoint) : Prop where
  south : (-90.0 : Float) ≤ p.lat
  north : p.lat ≤ (90.0 : Float)
  west : (-180.0 : Float) ≤ p.lng
  east : p.lng ≤ (180.0 : Float)

theorem GeoPoint.isValid_iff (p : GeoPoint) : p.isValid = true ↔ p.Located := by
  simp only [isValid, Bool.and_eq_true, decide_eq_true_eq]
  constructor
  · intro ⟨⟨⟨south, north⟩, west⟩, east⟩
    exact ⟨south, north, west, east⟩
  · intro ⟨south, north, west, east⟩
    exact ⟨⟨⟨south, north⟩, west⟩, east⟩

open Float.Model in
theorem isFinite_of_between {low high x : Float} (least : low.isFinite = true) (greatest : high.isFinite = true)
    (below : low ≤ x) (above : x ≤ high) : x.isFinite = true := by
  have below' : low.toModel.unpack.le x.toModel.unpack = true := of_decide_eq_true below
  have above' : x.toModel.unpack.le high.toModel.unpack = true := of_decide_eq_true above
  have least' : low.toModel.unpack.isFinite = true := least
  have greatest' : high.toModel.unpack.isFinite = true := greatest
  show x.toModel.unpack.isFinite = true
  generalize low.toModel.unpack = l at below' least'
  generalize high.toModel.unpack = h at above' greatest'
  generalize x.toModel.unpack = y at below' above' ⊢
  cases y with
  | zero | finite => rfl
  | notANumber => cases h <;> cases above'
  | infinity sign =>
    cases sign with
    | negative =>
      cases l with
      | infinity | notANumber => cases least'
      | zero => cases below'
      | finite s => cases s <;> cases below'
    | positive =>
      cases h with
      | infinity | notANumber => cases greatest'
      | zero => cases above'
      | finite s => cases s <;> cases above'

theorem GeoPoint.Located.lat_finite {p : GeoPoint} (located : p.Located) : p.lat.isFinite = true :=
  isFinite_of_between (by decide) (by decide) located.south located.north

theorem GeoPoint.Located.lng_finite {p : GeoPoint} (located : p.Located) : p.lng.isFinite = true :=
  isFinite_of_between (by decide) (by decide) located.west located.east

theorem readPoint_located (read : readPoint raw = .ok p) : p.Located := by
  cases raw with
  | obj members =>
    obtain ⟨lat, _, read⟩ := bind_exact.mp read
    obtain ⟨lng, _, read⟩ := bind_exact.mp read
    dsimp only at read
    split at read
    · rename_i valid
      cases read
      exact (GeoPoint.isValid_iff _).mp valid
    · cases read
  | null | bool | num | str | arr => cases read

-- The values of a type, where an enumeration may list its members. Only the last second of a minute can be a leap
-- second.
inductive Value.OfType (members : Option (List String)) : SemanticType → Value → Prop where
  | string (s : String) : OfType members .string (.string s)
  | integer (i : Int64) : OfType members .integer (.int i)
  | float (x : Float) : OfType members .float (.float x)
  | decimal (d : FixedPoint) : OfType members .decimal (.decimal d)
  | boolean (b : Bool) : OfType members .boolean (.bool b)
  | date (d : Date) : OfType members .date (.date d)
  | dateTime (t : Timestamp) (told : t.time.Told) : OfType members .dateTime (.dateTime t)
  | time (t : Time) (told : t.Told) : OfType members .time (.time t)
  | uuid (u : Uuid) : OfType members .uuid (.uuid u)
  | enum (s : String) (listed : ∀ ms, members = some ms → s ∈ ms) : OfType members .enum (.string s)
  | json (j : Json) : OfType members .json (.json j)
  | coordinates (p : GeoPoint) (located : p.Located) : OfType members .coordinates (.json (pointJson "lat" "lng" p))
  | array (items : List Value) (each : ∀ v ∈ items, OfType members element.scalar v) :
      OfType members (.array element) (.array items)

theorem coerceMember_ofType (read : coerceMember members s = .ok v) : v.OfType members .enum := by
  unfold coerceMember at read
  split at read
  · split at read
    · rename_i ms listed
      cases read
      refine .enum s fun ms' same => ?_
      cases same
      exact List.contains_iff_mem.mp listed
    · cases read
  · cases read
    exact .enum s nofun

theorem coerceScalar_ofType (read : coerceScalar ty members raw = .ok v) : v.OfType members ty := by
  unfold coerceScalar at read
  split at read
  case h_1 | h_4 | h_8 | h_14 =>
    cases read
    constructor
  case h_2 =>
    split at read
    · cases read
      constructor
    · cases read
  case h_3 | h_5 | h_6 | h_7 | h_9 | h_12 =>
    obtain ⟨_, _, rfl⟩ := readable_parts read
    constructor
  case h_10 =>
    obtain ⟨t, found, rfl⟩ := readable_parts read
    exact .dateTime t (Timestamp.ofText?_told found)
  case h_11 =>
    obtain ⟨t, found, rfl⟩ := readable_parts read
    exact .time t (Time.ofText?_told found)
  case h_13 => exact coerceMember_ofType read
  case h_15 =>
    split at read
    · rename_i p found
      cases read
      exact .coordinates p (readPoint_located found)
    · cases read
  case h_16 => cases read

theorem coerceAll_ofType (read : coerceAll ty members items = .ok values) : ∀ v ∈ values, v.OfType members ty := by
  induction items generalizing values with
  | nil =>
    cases read
    nofun
  | cons item rest ih =>
    obtain ⟨value, one, read⟩ := bind_exact.mp read
    obtain ⟨others, more, read⟩ := bind_exact.mp read
    cases read
    exact List.forall_mem_cons.mpr ⟨coerceScalar_ofType one, ih more⟩

theorem coerceValue_ofType (read : coerceValue ty members raw = .ok v) : v.OfType members ty := by
  unfold coerceValue at read
  split at read
  · obtain ⟨values, all, read⟩ := bind_exact.mp read
    cases read
    exact .array values (coerceAll_ofType all)
  · exact coerceScalar_ofType read

namespace Operand

-- The values that are compared with the field, or with its elements.
def values : Operand → List Value
  | scalar v => [v]
  | list vs => vs
  | _ => []

def points : Operand → List GeoPoint
  | near center _ _ => [center]
  | bounds southWest northEast => [southWest, northEast]
  | _ => []

-- The type of the values: a list for an array field holds elements.
def valueType (ty : SemanticType) : Operand → SemanticType
  | list _ => itemType ty
  | _ => ty

-- What an operator may rely on in its operands.
structure Sound (op : Operator) (ty : SemanticType) (members : Option (List String)) (operand : Operand) : Prop where
  form : Fits (op.arity ty) operand
  values : ∀ v ∈ operand.values, v.OfType members (operand.valueType ty) ∨
    v = .null ∧ operand = .scalar .null ∧ (op = .eq ∨ op = .neq)
  keys : ∀ names, operand = .keys names → names ≠ []
  points : ∀ p ∈ operand.points, p.Located

theorem Fits.keys_ne_nil (fits : Fits arity (.keys names)) : names ≠ [] := by
  cases fits
  exact List.cons_ne_nil _ _

variable {op : Operator} {ty : SemanticType} {members : Option (List String)} {raw : Json}

theorem ofScalar_values (read : ofScalar op ty members raw = .ok operand) :
    ∃ v, operand = .scalar v ∧ (v.OfType members ty ∨ v = .null ∧ (op = .eq ∨ op = .neq)) := by
  unfold ofScalar at read
  split at read
  · split at read
    · rename_i equality
      cases read
      exact ⟨.null, rfl, .inr ⟨rfl, equality⟩⟩
    · cases read
  · split at read
    · rename_i value found
      cases read
      exact ⟨value, rfl, .inl (coerceValue_ofType found)⟩
    · cases read

theorem itemsFrom_ofType {index : Nat} {vs : List Value} (read : itemsFrom ty members index items = .ok vs) :
    ∀ v ∈ vs, v.OfType members ty := by
  induction items generalizing index vs with
  | nil =>
    cases read
    nofun
  | cons item rest ih =>
    unfold itemsFrom at read
    split at read
    · rename_i same
      cases same
    · cases read
    · rename_i same
      cases same
      split at read
      · cases read
      · rename_i value found
        obtain ⟨others, more, read⟩ := bind_exact.mp read
        cases read
        exact List.forall_mem_cons.mpr ⟨coerceValue_ofType found, ih more⟩

theorem ofList_values (read : ofList ty members raw = .ok operand) :
    ∃ vs, operand = .list vs ∧ ∀ v ∈ vs, v.OfType members (itemType ty) := by
  unfold ofList at read
  split at read
  · obtain ⟨vs, all, read⟩ := bind_exact.mp read
    cases read
    exact ⟨vs, rfl, itemsFrom_ofType all⟩
  · cases read

theorem pointMember_located (read : pointMember fields name = .ok p) : p.Located := by
  unfold pointMember at read
  split at read
  · cases read
  · split at read
    · rename_i found
      cases read
      exact readPoint_located found
    · cases read

theorem ofRadius_points (read : ofRadius raw = .ok operand) : ∀ p ∈ operand.points, p.Located := by
  unfold ofRadius at read
  split at read
  · obtain ⟨center, here, read⟩ := bind_exact.mp read
    obtain ⟨distance, _, read⟩ := bind_exact.mp read
    obtain ⟨unit, _, read⟩ := bind_exact.mp read
    cases read
    exact List.forall_mem_singleton.mpr (pointMember_located here)
  · cases read

theorem ofBox_points (read : ofBox raw = .ok operand) : ∀ p ∈ operand.points, p.Located := by
  unfold ofBox at read
  split at read
  · obtain ⟨southWest, below, read⟩ := bind_exact.mp read
    obtain ⟨northEast, above, read⟩ := bind_exact.mp read
    split at read <;> cases read
    exact List.forall_mem_cons.mpr ⟨pointMember_located below,
      List.forall_mem_singleton.mpr (pointMember_located above)⟩
  · cases read

theorem ofArity_values (read : ofArity (op.arity ty) op ty members raw = .ok operand) :
    ∀ v ∈ operand.values, v.OfType members (operand.valueType ty) ∨
      v = .null ∧ operand = .scalar .null ∧ (op = .eq ∨ op = .neq) := by
  have fits := ofArity_fits _ read
  cases arity : op.arity ty with
  | scalar =>
    rw [arity] at read
    obtain ⟨v, rfl, typed⟩ := ofScalar_values read
    refine List.forall_mem_singleton.mpr (typed.imp_right fun ⟨null, equality⟩ => ?_)
    cases null
    exact ⟨rfl, rfl, equality⟩
  | list =>
    rw [arity] at read
    obtain ⟨vs, rfl, typed⟩ := ofList_values read
    exact fun v member => .inl (typed v member)
  | flag | pattern | document | keys | radius | box =>
    rw [arity] at fits
    cases fits
    nofun

theorem ofArity_points (read : ofArity (op.arity ty) op ty members raw = .ok operand) :
    ∀ p ∈ operand.points, p.Located := by
  have fits := ofArity_fits _ read
  cases arity : op.arity ty with
  | radius =>
    rw [arity] at read
    exact ofRadius_points read
  | box =>
    rw [arity] at read
    exact ofBox_points read
  | flag | scalar | list | pattern | document | keys =>
    rw [arity] at fits
    cases fits
    nofun

theorem ofArity_sound (read : ofArity (op.arity ty) op ty members raw = .ok operand) : Sound op ty members operand where
  form := ofArity_fits _ read
  values := ofArity_values read
  keys := fun _ same => (same ▸ ofArity_fits _ read).keys_ne_nil
  points := ofArity_points read

-- An operand is read as one of its operator and type, or refused under the names of the field and the operator.
theorem coerce_sound (field : String) (op : Operator) (ty : SemanticType) (members : Option (List String))
    (raw : Json) :
    match coerce field op ty members raw with
    | .ok operand => Sound op ty members operand
    | .error fault => ∃ cause, fault = .invalidValue field op cause := by
  unfold coerce
  cases read : ofArity (op.arity ty) op ty members raw with
  | ok operand => exact ofArity_sound read
  | error cause => exact ⟨cause, rfl⟩

example : coerce "tags" .contains (.array .enum) (some ["red", "blue"]) (.arr [.str "red", .str "green"]) =
    .error (.invalidValue "tags" .contains (.item 1 (.notMember "green" ["red", "blue"]))) := rfl

end Operand
end FilterQuery
