import Mathlib.Algebra.Group.Nat.Defs
import FilterQuery.Calendar.Date

namespace FilterQuery

theorem isDigit_eq (c : Char) : FilterQuery.isDigit c = c.isDigit := rfl

theorem digitsValue_eq (cs : List Char) : digitsValue cs = Nat.ofDigitChars 10 cs 0 := rfl

theorem digitsValue_append (cs ds : List Char) :
    digitsValue (cs ++ ds) = 10 ^ ds.length * digitsValue cs + digitsValue ds := by
  rw [digitsValue_eq, Nat.ofDigitChars_append, Nat.ofDigitChars_eq_ofDigitChars_zero]
  rfl

theorem digitsValue_zeros (n : Nat) : digitsValue (List.replicate n '0') = 0 := by
  rw [digitsValue_eq, Nat.ofDigitChars_replicate_zero, Nat.mul_zero]

theorem digitsValue_toDigits (n : Nat) : digitsValue (Nat.toDigits 10 n) = n := Nat.ofDigitChars_ten_toDigits

theorem digitsValue_filled (width n : Nat) : digitsValue (List.replicate width '0' ++ Nat.toDigits 10 n) = n := by
  rw [digitsValue_append, digitsValue_zeros, digitsValue_toDigits, Nat.mul_zero, Nat.zero_add]

-- Nothing but digits.
def Digits (cs : List Char) : Prop := ∀ c ∈ cs, FilterQuery.isDigit c = true

-- A digit does not come next.
def DigitsEnd (cs : List Char) : Prop := ∀ c rest, cs = c :: rest → FilterQuery.isDigit c = false

theorem DigitsEnd.nil : DigitsEnd [] := nofun

theorem DigitsEnd.cons {c : Char} (other : FilterQuery.isDigit c = false) (rest : List Char) : DigitsEnd (c :: rest) := by
  intro d tail same
  cases same
  exact other

namespace Digits

variable {cs ds rest : List Char}

theorem nil : Digits [] := nofun

theorem cons {c : Char} (digit : FilterQuery.isDigit c = true) (digits : Digits cs) : Digits (c :: cs) :=
  List.forall_mem_cons.mpr ⟨digit, digits⟩

theorem append (first : Digits cs) (second : Digits ds) : Digits (cs ++ ds) :=
  List.forall_mem_append.mpr ⟨first, second⟩

theorem zeros (n : Nat) : Digits (List.replicate n '0') := by
  intro c member
  rw [List.eq_of_mem_replicate member]
  decide

theorem toDigits (n : Nat) : Digits (Nat.toDigits 10 n) :=
  fun _ member => Nat.isDigit_of_mem_toDigits (by decide) (by decide) member

theorem filled (width n : Nat) : Digits (List.replicate width '0' ++ Nat.toDigits 10 n) :=
  (zeros width).append (toDigits n)

theorem take (digits : Digits cs) (n : Nat) : Digits (cs.take n) := fun c member => digits c (List.mem_of_mem_take member)

theorem drop (digits : Digits cs) (n : Nat) : Digits (cs.drop n) := fun c member => digits c (List.mem_of_mem_drop member)

theorem all (digits : Digits cs) : cs.all FilterQuery.isDigit = true := List.all_eq_true.mpr digits

theorem takeWhile (digits : Digits cs) (ends : DigitsEnd rest) : (cs ++ rest).takeWhile FilterQuery.isDigit = cs := by
  rw [List.takeWhile_append_of_pos digits]
  cases rest with
  | nil => exact List.append_nil cs
  | cons c tail => rw [List.takeWhile_cons_of_neg (Bool.eq_false_iff.mp (ends c tail rfl)), List.append_nil]

theorem dropWhile (digits : Digits cs) (ends : DigitsEnd rest) : (cs ++ rest).dropWhile FilterQuery.isDigit = rest := by
  rw [List.dropWhile_append_of_pos digits]
  cases rest with
  | nil => rfl
  | cons c tail => exact List.dropWhile_cons_of_neg (Bool.eq_false_iff.mp (ends c tail rfl))

theorem head (digits : Digits cs) (filled : cs ≠ []) (rest : List Char) :
    ∀ c tail, cs ++ rest = c :: tail → FilterQuery.isDigit c = true := by
  intro c tail same
  cases cs with
  | nil => exact absurd rfl filled
  | cons d ds =>
    cases same
    exact digits _ List.mem_cons_self

theorem not_mem (digits : Digits cs) {c : Char} (other : FilterQuery.isDigit c = false) : c ∉ cs := by
  intro member
  cases (digits c member).symm.trans other

end Digits

theorem readDigits?_of_digits {cs : List Char} (digits : Digits cs) (filled : cs ≠ []) :
    readDigits? cs = some (digitsValue cs) := by
  rw [readDigits?, digits.all]
  simp [filled]

theorem isBlank_of_digit {c : Char} (digit : FilterQuery.isDigit c = true) : isBlank c = false := by
  rw [isDigit_eq, Char.isDigit_iff_toNat] at digit
  have bounds : 48 ≤ c.toNat ∧ c.toNat ≤ 57 := digit
  simp only [isBlank, Bool.or_eq_false_iff, Bool.and_eq_false_iff, decide_eq_false_iff_not, beq_eq_false_iff_ne]
  omega

theorem trimStart_digits {cs : List Char} (digits : Digits cs) (filled : cs ≠ []) (rest : List Char) :
    trimStart (cs ++ rest) = cs ++ rest := by
  cases cs with
  | nil => exact absurd rfl filled
  | cons c tail =>
    refine List.dropWhile_cons_of_neg ?_
    rw [isBlank_of_digit (digits c List.mem_cons_self)]
    decide

theorem padLeft_digits (width n : Nat) : Digits (padLeft width n) := Digits.filled _ n

theorem padLeft_value (width n : Nat) : digitsValue (padLeft width n) = n := digitsValue_filled ..

theorem padLeft_length {width n : Nat} (fits : n < 10 ^ width) (wide : 0 < width) : (padLeft width n).length = width := by
  have short := (Nat.length_toDigits_le_iff (by decide) wide).mpr fits
  rw [padLeft, List.length_append, List.length_replicate]
  omega

theorem padLeft_ne_nil (width n : Nat) : padLeft width n ≠ [] :=
  fun empty => Nat.toDigits_ne_nil (List.append_eq_nil_iff.mp empty).2

theorem readField?_padLeft {width n : Nat} (fits : n < 10 ^ width) (wide : 0 < width) (rest : List Char) :
    readField? width (padLeft width n ++ rest) = some (n, rest) := by
  have length := padLeft_length fits wide
  have taken : (padLeft width n ++ rest).take width = padLeft width n := List.take_left' length
  have digits : (padLeft width n).takeWhile FilterQuery.isDigit = padLeft width n := by
    simpa using (padLeft_digits width n).takeWhile .nil
  rw [readField?, trimStart_digits (padLeft_digits width n) (padLeft_ne_nil width n), taken, digits, padLeft_value, List.drop_left]
  simp [padLeft_ne_nil]

end FilterQuery
