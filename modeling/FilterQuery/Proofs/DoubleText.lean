import FilterQuery.Proofs.NumberText

namespace FilterQuery

open Float.Model in
theorem exponentBits_toNat (b : BitVec Format.binary64.numBits) :
    (@UnpackedFloat.unpackExponent Format.binary64 b).toNat = b.toNat / Binary64.hiddenBit % 2048 := by
  simp only [UnpackedFloat.unpackExponent, BitVec.toNat_cast, BitVec.extractLsb_toNat, Nat.shiftRight_eq_div_pow]
  rfl

open Float.Model in
theorem isFinite_iff (x : Float) : x.isFinite = true ↔ x.toBits.toNat / Binary64.hiddenBit % 2048 ≠ 2047 := by
  have field := exponentBits_toNat x.toBits.toBitVec
  rw [show x.toBits.toNat / Binary64.hiddenBit % 2048 = _ from field.symm]
  show (UnpackedFloat.unpack Format.binary64 x.toBits.toBitVec).isFinite = true ↔ _
  unfold UnpackedFloat.unpack
  dsimp only
  generalize @UnpackedFloat.unpackExponent Format.binary64 x.toBits.toBitVec = exponent
  by_cases ones : exponent = -(BitVec.ofNat Format.binary64.exponentBits 1)
  · have allOnes : ¬ exponent.toNat ≠ 2047 := not_not_intro (congrArg BitVec.toNat ones)
    rw [if_pos ones, apply_ite UnpackedFloat.isFinite]
    refine iff_of_false ?_ allOnes
    show ¬ (if _ then false else false) = true
    rw [ite_self]
    exact Bool.false_ne_true
  · have notOnes : exponent.toNat ≠ 2047 := fun same => ones (BitVec.eq_of_toNat_eq same)
    rw [if_neg ones, apply_ite UnpackedFloat.isFinite, apply_dite UnpackedFloat.isFinite]
    refine iff_of_true ?_ notOnes
    show (if _ then (if _ then true else true) else true) = true
    rw [ite_self, ite_self]

namespace Binary64

variable {x y : Float}

-- The three fields of the bits.
structure Fields (x : Float) (negative : Bool) (field fraction : Nat) : Prop where
  bits : x.toBits.toNat = signBit negative + field * hiddenBit + fraction
  field : field < 2048
  fraction : fraction < hiddenBit

theorem fields (x : Float) : ∃ negative field fraction, Fields x negative field fraction ∧
    ofFloat x = if field = 2047 then (if fraction = 0 then infinite negative else nan)
      else if field = 0 then finite negative fraction leastExponent
      else finite negative (hiddenBit + fraction) ((field : Int) - 1075) := by
  refine ⟨_, _, _, ⟨?_, ?_, ?_⟩, rfl⟩
  · have bound := x.toBits.toNat_lt
    unfold signBit signWeight hiddenBit
    split
    case isTrue negative =>
      rw [beq_iff_eq] at negative
      omega
    case isFalse positive =>
      rw [beq_iff_eq] at positive
      omega
  · exact Nat.mod_lt _ (by decide)
  · exact Nat.mod_lt _ (by decide)

theorem bits_inj (same : x.toBits = y.toBits) : x = y := by
  obtain ⟨⟨bits, valid⟩⟩ := x
  obtain ⟨⟨bits', valid'⟩⟩ := y
  obtain rfl : bits = bits' := same
  rfl

theorem fields_inj {negative : Bool} {field fraction : Nat} (one : Fields x negative field fraction)
    (two : Fields y negative field fraction) : x = y := by
  refine bits_inj (UInt64.toNat_inj.mp ?_)
  rw [one.bits, two.bits]

-- A finite double in the fields of its bits.
theorem ofFloat_finite (real : x.isFinite = true) : ∃ negative field fraction,
    Fields x negative field fraction ∧
      ofFloat x = if field = 0 then finite negative fraction leastExponent
        else finite negative (hiddenBit + fraction) ((field : Int) - 1075) := by
  obtain ⟨negative, field, fraction, parts, decoded⟩ := fields x
  have inner : field ≠ 2047 := by
    have exponent := (isFinite_iff x).mp real
    have bounded := parts.fraction
    have small := parts.field
    rw [parts.bits] at exponent
    unfold signBit signWeight hiddenBit at *
    split at exponent <;> omega
  rw [if_neg inner] at decoded
  exact ⟨negative, field, fraction, parts, decoded⟩

theorem finite_canonical (real : x.isFinite = true) :
    ∃ negative m q, ofFloat x = finite negative m q ∧ Canonical m q := by
  obtain ⟨negative, field, fraction, parts, decoded⟩ := ofFloat_finite real
  have bounded := parts.fraction
  rw [decoded]
  split
  · exact ⟨_, _, _, rfl, by omega, Int.le_refl _, .inr rfl⟩
  · refine ⟨_, _, _, rfl, by omega, ?_, .inl (Nat.le_add_right ..)⟩
    unfold leastExponent
    omega

theorem ofFloat_inj (real : x.isFinite = true) (real' : y.isFinite = true) (same : ofFloat x = ofFloat y) :
    x = y := by
  obtain ⟨negative, field, fraction, parts, decoded⟩ := ofFloat_finite real
  obtain ⟨negative', field', fraction', parts', decoded'⟩ := ofFloat_finite real'
  have bounded := parts.fraction
  have bounded' := parts'.fraction
  rw [decoded, decoded'] at same
  have fieldsEq : negative = negative' ∧ field = field' ∧ fraction = fraction' := by
    split at same <;> split at same <;> injection same with sign mantissa exponent <;>
      unfold leastExponent at * <;> refine ⟨sign, ?_, ?_⟩ <;> omega
  obtain ⟨rfl, rfl, rfl⟩ := fieldsEq
  exact fields_inj parts parts'

end Binary64

open NumberStyle

theorem spells_inj {cs : List Char} {v w : ℚ} (one : Spells cs v) (two : Spells cs w) : v = w := by
  obtain ⟨d, read, rfl⟩ := one
  obtain ⟨e, read', rfl⟩ := two
  cases read.symm.trans read'
  rfl

theorem spells_unsigned {cs : List Char} {v : ℚ} (spelled : Spells cs v) (rest : List Char) : cs ≠ '-' :: rest := by
  rintro rfl
  obtain ⟨d, read, -⟩ := spelled
  cases (numeral?_minus rest).symm.trans read

namespace NumberStyle

variable {style : NumberStyle} {m m' : Nat} {q q' : Int}

theorem spells_zero (style : NumberStyle) (q : Int) : Spells (style.magnitude 0 q) 0 := by
  have read := spells_positional style (Digits.cons (c := '0') (by decide) .nil) 0
  rwa [show digitsValue ['0'] = 0 from rfl, Nat.cast_zero, zero_mul] at read

-- A positive double is written as a number that rounds to it.
theorem spells_rounding (style : NumberStyle) (canonical : Binary64.Canonical m q) (positive : 0 < m) :
    ∃ v, Spells (style.magnitude m q) v ∧ (Shortest.interval m q).Holds v := by
  have holds := Shortest.shortest_holds style.tie canonical positive
  have above := Shortest.holds_positive positive holds
  have found : 0 < (shortest style.tie m q).digits := by
    refine Nat.pos_of_ne_zero fun zero => ?_
    rw [Decimal10.value, zero, Nat.cast_zero, zero_mul] at above
    exact lt_irrefl _ above
  exact ⟨_, spells_magnitude style positive found, holds⟩

theorem magnitude_inj (canonical : Binary64.Canonical m q) (canonical' : Binary64.Canonical m' q')
    (same : style.magnitude m q = style.magnitude m' q') : m = m' ∧ q = q' := by
  have subnormal : ∀ {q}, Binary64.Canonical 0 q → q = Binary64.leastExponent := by
    intro q canonical
    exact canonical.normal.resolve_left (by decide)
  rcases Nat.eq_zero_or_pos m with rfl | positive
  · rcases Nat.eq_zero_or_pos m' with rfl | positive'
    · exact ⟨rfl, (subnormal canonical).trans (subnormal canonical').symm⟩
    · obtain ⟨v, spelled, holds⟩ := spells_rounding style canonical' positive'
      have zero := spells_inj (spells_zero style q) (same ▸ spelled)
      exact absurd (zero ▸ Shortest.holds_positive positive' holds) (lt_irrefl _)
  · obtain ⟨v, spelled, holds⟩ := spells_rounding style canonical positive
    rcases Nat.eq_zero_or_pos m' with rfl | positive'
    · have zero := spells_inj (spells_zero style q') (same ▸ spelled)
      exact absurd (zero ▸ Shortest.holds_positive positive holds) (lt_irrefl _)
    · obtain ⟨w, spelled', holds'⟩ := spells_rounding style canonical' positive'
      obtain rfl := spells_inj spelled (same ▸ spelled')
      exact Shortest.interval_unique canonical canonical' holds holds'

theorem magnitude_unsigned (style : NumberStyle) (canonical : Binary64.Canonical m q) (rest : List Char) :
    style.magnitude m q ≠ '-' :: rest := by
  rcases Nat.eq_zero_or_pos m with rfl | positive
  · exact spells_unsigned (spells_zero style q) rest
  · obtain ⟨v, spelled, -⟩ := spells_rounding style canonical positive
    exact spells_unsigned spelled rest

theorem write_chars (style : NumberStyle) {x : Float} (real : x.isFinite = true) : ∃ negative m q,
    Binary64.ofFloat x = .finite negative m q ∧ Binary64.Canonical m q ∧
      (style.write x).toList = if negative then '-' :: style.magnitude m q else style.magnitude m q := by
  obtain ⟨negative, m, q, decoded, canonical⟩ := Binary64.finite_canonical real
  refine ⟨negative, m, q, decoded, canonical, ?_⟩
  rw [write, decoded]
  cases negative <;> exact String.toList_ofList

-- Finite doubles are told by their texts.
theorem write_inj {x y : Float} (real : x.isFinite = true) (real' : y.isFinite = true)
    (same : style.write x = style.write y) : x = y := by
  obtain ⟨negative, m, q, decoded, canonical, chars⟩ := style.write_chars real
  obtain ⟨negative', m', q', decoded', canonical', chars'⟩ := style.write_chars real'
  rw [same, chars'] at chars
  refine Binary64.ofFloat_inj real real' ?_
  rw [decoded, decoded']
  have unsigned := style.magnitude_unsigned canonical
  have unsigned' := style.magnitude_unsigned canonical'
  cases negative <;> cases negative' <;> simp only [Bool.false_eq_true, if_false, if_true] at chars
  · obtain ⟨rfl, rfl⟩ := magnitude_inj canonical' canonical chars
    rfl
  · exact absurd chars.symm (unsigned _)
  · exact absurd chars (unsigned' _)
  · obtain ⟨rfl, rfl⟩ := magnitude_inj canonical' canonical (List.cons.inj chars).2
    rfl

end NumberStyle

-- The characters that numbers are written with.
def IsNumeric (c : Char) : Prop := isDigit c = true ∨ c ∈ ['-', '+', '.', 'e']

instance : DecidablePred IsNumeric := fun c => inferInstanceAs (Decidable (isDigit c = true ∨ c ∈ ['-', '+', '.', 'e']))

def Numeric (cs : List Char) : Prop := ∀ c ∈ cs, IsNumeric c

-- What sets a double apart from an integer.
def Broken (cs : List Char) : Prop := '.' ∈ cs ∨ 'e' ∈ cs

theorem Digits.numeric {cs : List Char} (digits : Digits cs) : Numeric cs := fun c member => .inl (digits c member)

theorem Numeric.append {cs ds : List Char} (first : Numeric cs) (second : Numeric ds) : Numeric (cs ++ ds) :=
  List.forall_mem_append.mpr ⟨first, second⟩

theorem Numeric.cons {c : Char} {cs : List Char} (numeric : IsNumeric c) (rest : Numeric cs) : Numeric (c :: cs) :=
  List.forall_mem_cons.mpr ⟨numeric, rest⟩

theorem Digits.not_broken {cs : List Char} (digits : Digits cs) : ¬ Broken cs := by
  rintro (point | mark)
  · exact digits.not_mem (by decide) point
  · exact digits.not_mem (by decide) mark

namespace NumberStyle

theorem point_numeric : IsNumeric '.' := .inr (by decide)

theorem positional_shape {style : NumberStyle} (pointed : style.wholePoint = true) {ds : List Char}
    (digits : Digits ds) (top : Int) :
    Numeric (style.writePositional ds top) ∧ '.' ∈ style.writePositional ds top := by
  have zero : IsNumeric '0' := .inl (by decide)
  unfold writePositional
  split
  · refine ⟨.append (.cons zero (.cons point_numeric (zeros_digits _).numeric)) digits.numeric, ?_⟩
    exact List.mem_append_left _ (by simp)
  · dsimp only
    split
    · refine ⟨.append (digits.append (zeros_digits _)).numeric (.cons point_numeric (.cons zero nofun)), ?_⟩
      exact List.mem_append_right _ (by simp)
    · refine ⟨.append (digits.take _).numeric (.cons point_numeric (digits.drop _).numeric), ?_⟩
      exact List.mem_append_right _ (by simp)

theorem exponent_shape {ds : List Char} (digits : Digits ds) (top : Int) :
    Numeric (writeExponent ds top) ∧ 'e' ∈ writeExponent ds top := by
  unfold writeExponent
  dsimp only
  have sign : IsNumeric (if top < 0 then '-' else '+') := by
    split
    · exact .inr (by decide)
    · exact .inr (by decide)
  have tail : Numeric ('e' :: (if top < 0 then '-' else '+') :: Nat.toDigits 10 top.natAbs) :=
    .cons (.inr (by decide)) (.cons sign (Digits.toDigits _).numeric)
  refine ⟨?_, List.mem_append_right _ List.mem_cons_self⟩
  split
  · exact tail
  · exact digits.numeric.append tail
  · next d rest _ =>
    exact (Numeric.cons (.inl (digits d List.mem_cons_self))
      (.cons point_numeric (digits.drop 1).numeric)).append tail

theorem magnitude_shape {style : NumberStyle} (pointed : style.wholePoint = true) (m : Nat) (q : Int) :
    Numeric (style.magnitude m q) ∧ Broken (style.magnitude m q) := by
  unfold magnitude
  split
  · obtain ⟨numeric, point⟩ := positional_shape pointed (Digits.cons (c := '0') (by decide) .nil) 0
    exact ⟨numeric, .inl point⟩
  · have digits := dropTrailingZeros_digits (Digits.toDigits (shortest style.tie m q).digits)
    dsimp only
    split
    · obtain ⟨numeric, point⟩ := positional_shape pointed digits _
      exact ⟨numeric, .inl point⟩
    · obtain ⟨numeric, mark⟩ := exponent_shape digits _
      exact ⟨numeric, .inr mark⟩

theorem write_shape {style : NumberStyle} (pointed : style.wholePoint = true) {x : Float} (real : x.isFinite = true) :
    Numeric (style.write x).toList ∧ Broken (style.write x).toList := by
  obtain ⟨negative, m, q, -, -, chars⟩ := style.write_chars real
  obtain ⟨numeric, broken⟩ := magnitude_shape pointed m q
  rw [chars]
  split
  · exact ⟨.cons (.inr (by decide)) numeric, broken.imp (List.mem_cons_of_mem _) (List.mem_cons_of_mem _)⟩
  · exact ⟨numeric, broken⟩

end NumberStyle

namespace Json

theorem intText_chars (i : Int) :
    (toString i).toList = if i < 0 then '-' :: Nat.toDigits 10 i.natAbs else Nat.toDigits 10 i.natAbs := by
  cases i with
  | ofNat n =>
    exact Nat.toList_repr.trans (if_neg (Int.not_lt.mpr (Int.natCast_nonneg n))).symm
  | negSucc n =>
    rw [if_pos (Int.negSucc_lt_zero n)]
    show ("-" ++ toString (n + 1)).toList = _
    rw [String.toList_append]
    exact congrArg ('-' :: ·) Nat.toList_repr

theorem intText_shape (i : Int) : Numeric (toString i).toList ∧ ¬ Broken (toString i).toList := by
  have digits := Digits.toDigits i.natAbs
  rw [intText_chars]
  split
  · refine ⟨.cons (.inr (by decide)) digits.numeric, ?_⟩
    intro broken
    exact digits.not_broken (broken.imp (by simp) (by simp))
  · exact ⟨digits.numeric, digits.not_broken⟩

theorem intText_inj {i j : Int} (same : toString i = toString j) : i = j := by
  have chars := congrArg String.toList same
  rw [intText_chars, intText_chars] at chars
  have unsigned : ∀ n rest, Nat.toDigits 10 n ≠ '-' :: rest := by
    intro n rest minus
    have digit := Digits.toDigits n '-' (minus ▸ List.mem_cons_self)
    cases digit
  have natural : ∀ {m n : Nat}, Nat.toDigits 10 m = Nat.toDigits 10 n → m = n := by
    intro m n digits
    rw [← digitsValue_toDigits m, digits, digitsValue_toDigits]
  split at chars <;> split at chars
  · have := natural (List.cons.inj chars).2
    omega
  · exact absurd chars.symm (unsigned _ _)
  · exact absurd chars (unsigned _ _)
  · have := natural chars
    omega

end Json

-- No infinity and no NaN: what a document can have.
def JsonNumber.Real : JsonNumber → Prop
  | .int _ => True
  | .double x => x.isFinite = true

namespace Json

theorem numberText_numeric {n : JsonNumber} (real : n.Real) : Numeric (numberText n).toList := by
  cases n with
  | int i => exact (intText_shape i).1
  | double x => exact (NumberStyle.write_shape rfl real).1

theorem numberText_inj {n n' : JsonNumber} (real : n.Real) (real' : n'.Real)
    (same : numberText n = numberText n') : n = n' := by
  cases n with
  | int i =>
    cases n' with
    | int j => exact congrArg _ (intText_inj same)
    | double y =>
      refine absurd ?_ (intText_shape i).2
      rw [show toString i = NumberStyle.json.write y from same]
      exact (NumberStyle.write_shape rfl real').2
  | double x =>
    cases n' with
    | int j =>
      refine absurd ?_ (intText_shape j).2
      rw [show toString j = NumberStyle.json.write x from same.symm]
      exact (NumberStyle.write_shape rfl real).2
    | double y => exact congrArg _ (NumberStyle.write_inj real real' same)

theorem numberText_ne_nil {n : JsonNumber} (real : n.Real) : (numberText n).toList ≠ [] := by
  cases n with
  | int i =>
    show (toString i).toList ≠ []
    rw [intText_chars]
    split
    · exact List.cons_ne_nil _ _
    · exact Nat.toDigits_ne_nil
  | double x =>
    intro empty
    have broken := (@NumberStyle.write_shape .json rfl x real).2
    rw [show (NumberStyle.json.write x).toList = [] from empty] at broken
    exact broken.elim nofun nofun

end Json
end FilterQuery
