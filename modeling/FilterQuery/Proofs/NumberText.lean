import FilterQuery.Json.Printer
import FilterQuery.Number.FixedPoint
import FilterQuery.Proofs.DecimalDigits
import FilterQuery.Proofs.ShortestDigits

namespace FilterQuery

-- The digits behind a point, if there is one, and what follows.
def splitPoint : List Char → List Char × List Char
  | '.' :: rest => (rest.takeWhile isDigit, rest.dropWhile isDigit)
  | cs => ([], cs)

-- What digits with a point and an exponent stand for, without a sign.
def numeral? (cs : List Char) : Option Decimal10 :=
  let whole := cs.takeWhile isDigit
  let (fraction, tail) := splitPoint (cs.dropWhile isDigit)
  (readExponent? tail).map fun e => ⟨digitsValue (whole ++ fraction), e - fraction.length⟩

theorem splitPoint_other {cs : List Char} (noPoint : ∀ rest, cs ≠ '.' :: rest) : splitPoint cs = ([], cs) := by
  unfold splitPoint
  split
  next rest => exact absurd rfl (noPoint rest)
  next => rfl

theorem numeral?_whole {whole tail : List Char} {e : Int} (digits : Digits whole) (ends : DigitsEnd tail)
    (noPoint : ∀ rest, tail ≠ '.' :: rest) (read : readExponent? tail = some e) :
    numeral? (whole ++ tail) = some ⟨digitsValue whole, e⟩ := by
  unfold numeral?
  rw [digits.takeWhile ends, digits.dropWhile ends, splitPoint_other noPoint]
  dsimp only
  rw [read, List.append_nil]
  simp

theorem numeral?_pointed {whole fraction tail : List Char} {e : Int} (digits : Digits whole)
    (digits' : Digits fraction) (ends : DigitsEnd tail) (read : readExponent? tail = some e) :
    numeral? (whole ++ '.' :: (fraction ++ tail)) =
      some ⟨digitsValue (whole ++ fraction), e - fraction.length⟩ := by
  have pointEnds : DigitsEnd ('.' :: (fraction ++ tail)) := .cons (by decide) _
  unfold numeral?
  rw [digits.takeWhile pointEnds, digits.dropWhile pointEnds, splitPoint, digits'.takeWhile ends,
    digits'.dropWhile ends]
  dsimp only
  rw [read]
  rfl

theorem numeral?_digits {whole : List Char} (digits : Digits whole) :
    numeral? whole = some ⟨digitsValue whole, 0⟩ := by
  have read := numeral?_whole digits .nil nofun rfl
  rwa [List.append_nil] at read

theorem numeral?_fraction {whole fraction : List Char} (digits : Digits whole) (digits' : Digits fraction) :
    numeral? (whole ++ '.' :: fraction) = some ⟨digitsValue (whole ++ fraction), -fraction.length⟩ := by
  have read := numeral?_pointed digits digits' .nil rfl
  rwa [List.append_nil, Int.zero_sub] at read

theorem numeral?_minus (cs : List Char) : numeral? ('-' :: cs) = none := rfl

namespace FixedPoint

-- The text without the sign.
def unsigned (d : FixedPoint) : List Char :=
  let filled := List.replicate (d.scale + 1 - (Nat.toDigits 10 d.magnitude).length) '0' ++ Nat.toDigits 10 d.magnitude
  if d.scale = 0 then filled
  else filled.take (filled.length - d.scale) ++ '.' :: filled.drop (filled.length - d.scale)

theorem chars_eq (d : FixedPoint) : d.chars = if d.negative then '-' :: d.unsigned else d.unsigned := rfl

-- Digits before the point, at least one, and as many behind it as there are places.
theorem unsigned_parts (d : FixedPoint) : ∃ whole fraction, Digits whole ∧ Digits fraction ∧ whole ≠ [] ∧
    digitsValue (whole ++ fraction) = d.magnitude ∧ fraction.length = d.scale ∧
    d.unsigned = if d.scale = 0 then whole else whole ++ '.' :: fraction := by
  unfold unsigned
  dsimp only
  have digits := Digits.filled (d.scale + 1 - (Nat.toDigits 10 d.magnitude).length) d.magnitude
  have value := digitsValue_filled (d.scale + 1 - (Nat.toDigits 10 d.magnitude).length) d.magnitude
  have long : d.scale < (List.replicate (d.scale + 1 - (Nat.toDigits 10 d.magnitude).length) '0' ++
      Nat.toDigits 10 d.magnitude).length := by
    rw [List.length_append, List.length_replicate]
    omega
  generalize List.replicate (d.scale + 1 - (Nat.toDigits 10 d.magnitude).length) '0' ++ Nat.toDigits 10 d.magnitude =
    filled at digits value long
  refine ⟨filled.take (filled.length - d.scale), filled.drop (filled.length - d.scale), digits.take _, digits.drop _,
    ?_, ?_, ?_, ?_⟩
  · intro empty
    have length := congrArg List.length empty
    rw [List.length_take, List.length_nil] at length
    omega
  · rw [List.take_append_drop, value]
  · rw [List.length_drop]
    omega
  · split
    case isTrue whole => rw [whole, Nat.sub_zero, List.take_length]
    case isFalse => rfl

theorem unsigned_numeral (d : FixedPoint) : numeral? d.unsigned = some ⟨d.magnitude, -d.scale⟩ := by
  obtain ⟨whole, fraction, digits, digits', _, value, places, written⟩ := d.unsigned_parts
  rw [written]
  split
  case isTrue none =>
    rw [none, List.length_eq_zero_iff] at places
    rw [places, List.append_nil] at value
    rw [numeral?_digits digits, value, none]
    rfl
  case isFalse => rw [numeral?_fraction digits digits', value, places]

theorem text_inj {d e : FixedPoint} (same : d.text = e.text) : d = e := by
  have chars : d.chars = e.chars := String.ofList_inj.mp same
  rw [chars_eq, chars_eq] at chars
  have signed : d.negative = e.negative ∧ d.unsigned = e.unsigned := by
    have numeral := d.unsigned_numeral
    have numeral' := e.unsigned_numeral
    cases negative : d.negative <;> cases negative' : e.negative <;>
      simp only [negative, negative', Bool.false_eq_true, if_false, if_true] at chars
    · exact ⟨rfl, chars⟩
    · rw [chars, numeral?_minus] at numeral
      cases numeral
    · rw [← chars, numeral?_minus] at numeral'
      cases numeral'
    · exact ⟨rfl, (List.cons.inj chars).2⟩
  have numerals := d.unsigned_numeral
  rw [signed.2, e.unsigned_numeral] at numerals
  have parts := Decimal10.mk.inj (Option.some.inj numerals)
  obtain ⟨negative, magnitude, scale, _, _⟩ := d
  obtain ⟨negative', magnitude', scale', _, _⟩ := e
  obtain rfl : negative = negative' := signed.1
  obtain rfl : magnitude' = magnitude := parts.1
  obtain rfl : scale' = scale := by
    have places : -(scale' : Int) = -(scale : Int) := parts.2
    omega
  rfl

end FixedPoint

namespace NumberStyle

theorem dropTrailingZeros_append (ds : List Char) : ∃ count, ds = dropTrailingZeros ds ++ zeros count := by
  refine ⟨(ds.reverse.takeWhile (· == '0')).length, ?_⟩
  have zerosOnly : ds.reverse.takeWhile (· == '0') = zeros (ds.reverse.takeWhile (· == '0')).length := by
    refine List.eq_replicate_of_mem ?_
    intro c member
    exact beq_iff_eq.mp (List.all_eq_true.mp List.all_takeWhile c member)
  have parts := List.takeWhile_append_dropWhile (p := (· == '0')) (l := ds.reverse)
  rw [dropTrailingZeros, ← List.reverse_inj, List.reverse_append, List.reverse_reverse, zeros, List.reverse_replicate]
  rw [← zeros, ← zerosOnly, parts]

theorem zeros_digits (n : Nat) : Digits (zeros n) := Digits.zeros n

theorem zeros_value (n : Nat) : digitsValue (zeros n) = 0 := digitsValue_zeros n

theorem dropTrailingZeros_digits {ds : List Char} (digits : Digits ds) : Digits (dropTrailingZeros ds) := by
  obtain ⟨count, split⟩ := dropTrailingZeros_append ds
  rw [split] at digits
  exact (List.forall_mem_append.mp digits).1

theorem value_zeros (whole : List Char) (count : Nat) :
    (digitsValue (whole ++ zeros count) : ℚ) = digitsValue whole * (10 : ℚ) ^ (count : Int) := by
  rw [digitsValue_append, zeros_value, zeros, List.length_replicate, Nat.add_zero, Nat.mul_comm, zpow_natCast]
  push_cast
  rfl

-- The text is a numeral, and this is what it stands for.
def Spells (cs : List Char) (v : ℚ) : Prop := ∃ d, numeral? cs = some d ∧ d.value = v

theorem spells_positional (style : NumberStyle) {ds : List Char} (digits : Digits ds) (top : Int) :
    Spells (style.writePositional ds top) (digitsValue ds * (10 : ℚ) ^ (top + 1 - ds.length)) := by
  unfold writePositional
  split
  case isTrue small =>
    show Spells (['0'] ++ '.' :: (zeros (-top - 1).toNat ++ ds)) _
    refine ⟨_, numeral?_fraction (.cons (by decide) .nil) ((zeros_digits _).append digits), ?_⟩
    have value : digitsValue (['0'] ++ (zeros (-top - 1).toNat ++ ds)) = digitsValue ds := by
      rw [← List.append_assoc, digitsValue_append]
      simp [zeros, ← List.replicate_succ, digitsValue_zeros]
    have exponent : -((zeros (-top - 1).toNat ++ ds).length : Int) = top + 1 - ds.length := by
      rw [List.length_append, zeros, List.length_replicate]
      omega
    rw [Decimal10.value, value, exponent]
  case isFalse large =>
    dsimp only
    split
    case isTrue whole =>
      have exponent : top + 1 - ds.length = ((top.toNat + 1 - ds.length : Nat) : Int) := by omega
      rw [exponent, ← value_zeros]
      have filled := digits.append (zeros_digits (top.toNat + 1 - ds.length))
      split
      case isTrue =>
        refine ⟨_, numeral?_fraction filled (Digits.cons (c := '0') (by decide) .nil), ?_⟩
        have tenth := value_zeros (ds ++ zeros (top.toNat + 1 - ds.length)) 1
        show (digitsValue (_ ++ zeros 1) : ℚ) * (10 : ℚ) ^ (-1 : Int) = _
        rw [tenth, mul_assoc, ← zpow_add₀ (by norm_num)]
        simp
      case isFalse =>
        rw [List.append_nil]
        exact ⟨_, numeral?_digits filled, by simp [Decimal10.value]⟩
    case isFalse mixed =>
      refine ⟨_, numeral?_fraction (digits.take _) (digits.drop _), ?_⟩
      have exponent : -((ds.length - (top.toNat + 1) : Nat) : Int) = top + 1 - ds.length := by omega
      rw [Decimal10.value, List.take_append_drop, List.length_drop, exponent]

-- A sign and at least one digit behind the mark.
theorem readExponent?_written (top : Int) :
    readExponent? ('e' :: (if top < 0 then '-' else '+') :: Nat.toDigits 10 top.natAbs) = some top := by
  have digits := readDigits?_of_digits (Digits.toDigits top.natAbs) Nat.toDigits_ne_nil
  rw [digitsValue_toDigits] at digits
  by_cases negative : top < 0
  · rw [if_pos negative]
    show (readDigits? (Nat.toDigits 10 top.natAbs)).map (fun n => -(n : Int)) = _
    rw [digits]
    exact congrArg some (show -(top.natAbs : Int) = top by omega)
  · rw [if_neg negative]
    show (readDigits? (Nat.toDigits 10 top.natAbs)).map (fun n => (n : Int)) = _
    rw [digits]
    exact congrArg some (show (top.natAbs : Int) = top by omega)

theorem spells_exponent {ds : List Char} (digits : Digits ds) (filled : ds ≠ []) (top : Int) :
    Spells (writeExponent ds top) (digitsValue ds * (10 : ℚ) ^ (top + 1 - ds.length)) := by
  have read := readExponent?_written top
  have ends : ∀ rest, DigitsEnd ('e' :: rest) := fun rest => .cons (by decide) rest
  match ds, filled with
  | [d], _ =>
    refine ⟨_, numeral?_whole digits (ends _) (by simp) read, ?_⟩
    simp [Decimal10.value]
  | d :: e :: rest, _ =>
    refine ⟨_, numeral?_pointed (digits.take 1) (digits.drop 1) (ends _) read, ?_⟩
    have exponent : top - ((e :: rest).length : Int) = top + 1 - ((d :: e :: rest).length : Int) := by
      simp only [List.length_cons]
      omega
    exact congrArg (digitsValue (d :: e :: rest) * (10 : ℚ) ^ ·) exponent

theorem kept_value {written kept : List Char} {count : Nat} (parts : written = kept ++ zeros count) (exponent : Int) :
    (digitsValue kept : ℚ) * (10 : ℚ) ^ (exponent + written.length - 1 + 1 - kept.length) =
      digitsValue written * (10 : ℚ) ^ exponent := by
  have length : written.length = kept.length + count := by
    rw [parts, List.length_append, zeros, List.length_replicate]
  have shifted : exponent + (written.length : Int) - 1 + 1 - kept.length = count + exponent := by omega
  rw [shifted, zpow_add₀ (by norm_num), ← mul_assoc, parts, value_zeros]

-- What is written stands for the digits found.
theorem spells_magnitude (style : NumberStyle) {m : Nat} (positive : 0 < m) {q : Int}
    (found : 0 < (shortest style.tie m q).digits) :
    Spells (style.magnitude m q) (shortest style.tie m q).value := by
  unfold magnitude
  rw [if_neg (Nat.pos_iff_ne_zero.mp positive)]
  dsimp only
  obtain ⟨count, parts⟩ := dropTrailingZeros_append (Nat.toDigits 10 (shortest style.tie m q).digits)
  have digits := dropTrailingZeros_digits (Digits.toDigits (shortest style.tie m q).digits)
  have value := kept_value parts (shortest style.tie m q).exponent
  rw [digitsValue_toDigits] at value
  have filled : dropTrailingZeros (Nat.toDigits 10 (shortest style.tie m q).digits) ≠ [] := by
    intro empty
    have zero := digitsValue_toDigits (shortest style.tie m q).digits
    rw [parts, empty, List.nil_append, zeros_value] at zero
    exact absurd zero (Nat.ne_of_lt found)
  split
  · rw [Decimal10.value, ← value]
    exact spells_positional style digits _
  · rw [Decimal10.value, ← value]
    exact spells_exponent digits filled _

end NumberStyle
end FilterQuery
