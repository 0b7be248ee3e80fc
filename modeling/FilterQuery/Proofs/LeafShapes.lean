import FilterQuery.Filter.Basic
import FilterQuery.Proofs.OperandForms
import FilterQuery.Proofs.OperandShapes

namespace FilterQuery

-- A single key counts as a list of one.
def Json.count : Json → Nat
  | arr items => items.length
  | _ => 1

-- The operators that bind each member of their operand.
def Operator.countsMembers : Operator → Bool
  | isIn | notIn | hasKey | hasKeysAny | hasKeysAll => true
  | _ => false

structure Leaf.SameShape (l l' : Leaf) : Prop where
  field : l.field = l'.field
  operator : l.operator = l'.operator
  null : l.value = .null ↔ l'.value = .null
  flag : l.operator = .isNull → l.value = l'.value
  members : l.operator.countsMembers = true → l.value.count = l'.value.count

-- An operand of the shape given, the same for all operands of the shape.
def Operator.outline (op : Operator) : Json → Json
  | .null => .null
  | raw =>
    if op = .isNull then raw
    else if op.countsMembers then .arr (List.replicate raw.count .null)
    else .bool true

def Leaf.outline (l : Leaf) : Leaf := { l with value := l.operator.outline l.value }

theorem Operator.outline_null {op : Operator} : op.outline raw = .null ↔ raw = .null := by
  cases raw with
  | null => simp [outline]
  | _ =>
    simp only [outline, reduceCtorEq, iff_false]
    split
    · simp
    · split <;> simp

theorem Operator.outline_filled {op : Operator} (filled : raw ≠ .null) : op.outline raw =
    if op = .isNull then raw else if op.countsMembers then .arr (List.replicate raw.count .null) else .bool true := by
  cases raw with
  | null => exact absurd rfl filled
  | _ => rfl

theorem Leaf.SameShape.outline {l l' : Leaf} (same : l.SameShape l') : l.outline = l'.outline := by
  obtain ⟨path, op, raw⟩ := l
  obtain ⟨path', op', raw'⟩ := l'
  obtain ⟨rfl, rfl, null, flag, members⟩ := same
  dsimp only at null flag members
  simp only [Leaf.outline, Leaf.mk.injEq, true_and]
  by_cases empty : raw = .null
  · rw [empty, null.mp empty]
  · rw [Operator.outline_filled empty, Operator.outline_filled fun empty' => empty (null.mpr empty')]
    split
    · rename_i own
      exact flag own
    · split
      · rename_i counts
        rw [members counts]
      · rfl

namespace Operand

theorem readable_masked {ctor : α → Value} {outcome : Option α} (shown : ∀ x, (ctor x).masked = .bool true)
    (read : readable ty text (outcome.map ctor) = .ok v) : v.masked = .bool true := by
  cases outcome with
  | none => cases read
  | some x =>
    cases read
    exact shown x

theorem coerceScalar_masked (read : coerceScalar ty members raw = .ok v) : v.masked = .bool true := by
  unfold coerceScalar at read
  split at read
  case h_2 =>
    split at read <;> cases read
    rfl
  case h_13 =>
    unfold coerceMember at read
    split at read
    · split at read <;> cases read
      rfl
    · cases read
      rfl
  case h_15 =>
    split at read <;> cases read
    rfl
  case h_16 => cases read
  all_goals first | cases read; rfl | exact readable_masked (fun _ => rfl) read

-- No value that is read is null.
theorem coerceValue_masked (read : coerceValue ty members raw = .ok v) : v.masked = .bool true := by
  unfold coerceValue at read
  split at read
  · obtain ⟨values, _, same⟩ := bind_exact.mp read
    cases same
    rfl
  · exact coerceScalar_masked read

theorem itemsFrom_masked {index : Nat} (read : itemsFrom ty members index items = .ok vs) :
    vs.map Value.masked = List.replicate items.length (.bool true) := by
  induction items generalizing index vs with
  | nil =>
    cases read
    rfl
  | cons item rest ih =>
    unfold itemsFrom at read
    split at read
    · rename_i mismatch
      cases mismatch
    · cases read
    · rename_i first others same
      cases same
      split at read
      · cases read
      · rename_i value coerced
        obtain ⟨values, later, same⟩ := bind_exact.mp read
        cases same
        rw [List.map_cons, coerceValue_masked coerced, ih later]
        rfl

theorem keysFrom_length (read : keysFrom items = .ok names) : names.length = items.length := by
  induction items generalizing names with
  | nil =>
    cases read
    rfl
  | cons item rest ih =>
    cases item with
    | str s =>
      obtain ⟨others, later, same⟩ := bind_exact.mp read
      cases same
      rw [List.length_cons, List.length_cons, ih later]
    | _ => cases read

theorem ofScalar_masked (read : ofScalar op ty members raw = .ok operand) :
    raw = .null ∧ operand = .scalar .null ∨ raw ≠ .null ∧ ∃ v, operand = .scalar v ∧ v.masked = .bool true := by
  unfold ofScalar at read
  split at read
  · split at read <;> cases read
    exact .inl ⟨rfl, rfl⟩
  · rename_i filled
    split at read
    · rename_i v coerced
      cases read
      exact .inr ⟨filled, v, rfl, coerceValue_masked coerced⟩
    · cases read

theorem ofList_masked (read : ofList ty members raw = .ok operand) : ∃ items vs, raw = .arr items ∧
    operand = .list vs ∧ vs.map Value.masked = List.replicate items.length (.bool true) := by
  unfold ofList at read
  split at read
  · rename_i items
    obtain ⟨vs, among, same⟩ := bind_exact.mp read
    cases same
    exact ⟨items, vs, rfl, rfl, itemsFrom_masked among⟩
  · cases read

theorem ofKeys_length (read : ofKeys op raw = .ok operand) :
    ∃ names, operand = .keys names ∧ names.length = raw.count := by
  unfold ofKeys at read
  split at read
  · cases read
    exact ⟨_, rfl, rfl⟩
  · split at read
    · cases read
    · split at read
      · cases read
      · cases read
      · rename_i names _ among
        cases read
        exact ⟨names, rfl, keysFrom_length among⟩
  · cases read

variable {op : Operator} {ty : SemanticType} {members : Option (List String)} {raw raw' : Json} {operand operand' : Operand}

-- A form that is bound as a whole has one outline.
theorem outline_of_fits (arity : Arity) (whole : arity ∉ [.flag, .scalar, .list, .keys]) (fits : Fits arity operand)
    (fits' : Fits arity operand') : operand.outline op = operand'.outline op := by
  cases fits <;> cases fits' <;> first | rfl | exact absurd (by decide) whole

theorem ofFlag_outline (same : Operator.isNull.outline raw = Operator.isNull.outline raw')
    (read : ofFlag raw = .ok operand) (read' : ofFlag raw' = .ok operand') : operand = operand' := by
  unfold ofFlag at read read'
  split at read <;> cases read
  split at read' <;> cases read'
  rw [Operator.outline_filled (by simp), Operator.outline_filled (by simp), if_pos rfl, if_pos rfl] at same
  rw [Json.bool.inj same]

theorem ofScalar_outline (same : op.outline raw = op.outline raw')
    (read : ofScalar op ty members raw = .ok operand) (read' : ofScalar op ty members raw' = .ok operand') :
    operand.outline op = operand'.outline op := by
  have null : raw = .null ↔ raw' = .null := by rw [← op.outline_null, same, op.outline_null]
  rcases ofScalar_masked read with ⟨empty, rfl⟩ | ⟨filled, v, rfl, hidden⟩
  · rcases ofScalar_masked read' with ⟨_, rfl⟩ | ⟨filled', _⟩
    · rfl
    · exact absurd (null.mp empty) filled'
  · rcases ofScalar_masked read' with ⟨empty', _⟩ | ⟨_, v', rfl, hidden'⟩
    · exact absurd (null.mpr empty') filled
    · rw [outline, outline, hidden, hidden']

-- Lists of one length have one outline; where the list is bound as a whole, any two have.
theorem ofList_outline (same : op.outline raw = op.outline raw') (read : ofList ty members raw = .ok operand)
    (read' : ofList ty members raw' = .ok operand') : operand.outline op = operand'.outline op := by
  obtain ⟨items, vs, rfl, rfl, hidden⟩ := ofList_masked read
  obtain ⟨items', vs', rfl, rfl, hidden'⟩ := ofList_masked read'
  rw [outline, outline]
  split
  · rename_i counted
    have length : items.length = items'.length := by
      rcases counted with rfl | rfl <;> simpa [Operator.outline, Operator.countsMembers, Json.count] using same
    rw [hidden, hidden', length]
  · rfl

theorem ofKeys_outline (counted : op.countsMembers = true) (plain : op ≠ .isNull)
    (same : op.outline raw = op.outline raw') (read : ofKeys op raw = .ok operand)
    (read' : ofKeys op raw' = .ok operand') : operand.outline op = operand'.outline op := by
  obtain ⟨names, rfl, length⟩ := ofKeys_length read
  obtain ⟨names', rfl, length'⟩ := ofKeys_length read'
  have filled : raw ≠ .null := by
    rintro rfl
    cases read
  have filled' : raw' ≠ .null := by
    rintro rfl
    cases read'
  have count : raw.count = raw'.count := by
    simpa [Operator.outline_filled filled, Operator.outline_filled filled', plain, counted] using same
  rw [outline, outline, List.map_const', List.map_const', length, length', count]

theorem ofArity_outline (same : op.outline raw = op.outline raw')
    (read : ofArity (op.arity ty) op ty members raw = .ok operand)
    (read' : ofArity (op.arity ty) op ty members raw' = .ok operand') : operand.outline op = operand'.outline op := by
  have fits := ofArity_fits _ read
  have fits' := ofArity_fits _ read'
  cases op with
  | isNull => rw [ofFlag_outline same read read']
  | eq | neq | gt | gte | lt | lte => exact ofScalar_outline same read read'
  | isIn | notIn => exact ofList_outline same read read'
  | hasKey | hasKeysAny | hasKeysAll => exact ofKeys_outline rfl (by decide) same read read'
  | contains | containedIn | overlaps =>
    by_cases document : ty = .json
    · subst document
      exact outline_of_fits .document (by decide) fits fits'
    · simp only [Operator.arity, if_neg document] at read read'
      exact ofList_outline same read read'
  | near => exact outline_of_fits .radius (by decide) fits fits'
  | withinBox => exact outline_of_fits .box (by decide) fits fits'
  | _ => exact outline_of_fits .pattern (by decide) fits fits'

end Operand

end FilterQuery
