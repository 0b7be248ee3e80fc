import Mathlib.Tactic.IntervalCases
import FilterQuery.Json.Reader
import FilterQuery.Proofs.DoubleText

namespace FilterQuery.Json

theorem hexDigit?_hexDigit {n : Nat} (small : n < 16) : hexDigit? (hexDigit n) = some n := by
  interval_cases n <;> rfl

theorem readEscapedUnit?_control {c : Char} (control : c.toNat < 32) (rest : List Char) :
    readEscapedUnit? ('0' :: '0' :: hexDigit (c.toNat / 16) :: hexDigit (c.toNat % 16) :: rest) = some (c, rest) := by
  have zero : hexDigit? '0' = some 0 := rfl
  have unit : ((0 * 16 + 0) * 16 + c.toNat / 16) * 16 + c.toNat % 16 = c.toNat := by omega
  unfold readEscapedUnit? readUnit?
  simp only [zero, hexDigit?_hexDigit (show c.toNat / 16 < 16 by omega),
    hexDigit?_hexDigit (show c.toNat % 16 < 16 by omega), Option.bind_eq_bind, Option.bind_some, unit]
  rw [if_neg (by omega), if_neg (by omega), Char.ofNat_toNat]

-- One character is read back from its escape.
theorem readString?_escapeChar (fuel : Nat) (c : Char) (tail seen : List Char) :
    readString? (fuel + 1) (escapeChar c ++ tail) seen = readString? fuel tail (c :: seen) := by
  unfold escapeChar
  split
  case isTrue quote => subst quote; rfl
  case isFalse notQuote =>
  split
  case isTrue slash => subst slash; rfl
  case isFalse notSlash =>
  split
  case isTrue line => subst line; rfl
  case isFalse =>
  split
  case isTrue carriage => subst carriage; rfl
  case isFalse =>
  split
  case isTrue tab => subst tab; rfl
  case isFalse =>
  split
  case isTrue back => subst back; rfl
  case isFalse =>
  split
  case isTrue feed => subst feed; rfl
  case isFalse =>
  split
  case isTrue control =>
    show ((readEscapedUnit? ('0' :: '0' :: hexDigit (c.toNat / 16) :: hexDigit (c.toNat % 16) :: tail)).bind
      fun unit => readString? fuel unit.2 (unit.1 :: seen)) = _
    rw [readEscapedUnit?_control control, Option.bind_some]
  case isFalse plain =>
    simp only [List.singleton_append, readString?, if_neg notQuote, if_neg plain, if_neg notSlash]

theorem readString?_quoted (cs : List Char) (rest seen : List Char) {fuel : Nat} (enough : cs.length < fuel) :
    readString? fuel (cs.flatMap escapeChar ++ '"' :: rest) seen = some (String.ofList (seen.reverse ++ cs), rest) := by
  induction cs generalizing fuel seen with
  | nil =>
    obtain ⟨fuel, rfl⟩ := Nat.exists_eq_succ_of_ne_zero (Nat.ne_of_gt enough)
    rw [List.append_nil]
    rfl
  | cons c cs ih =>
    obtain ⟨fuel, rfl⟩ := Nat.exists_eq_succ_of_ne_zero (Nat.ne_of_gt (Nat.zero_lt_of_lt enough))
    rw [List.flatMap_cons, List.append_assoc, readString?_escapeChar, ih (c :: seen) (Nat.lt_of_succ_lt_succ enough)]
    simp

theorem quoted_inj {s t : String} {rest rest' : List Char} (same : quoted s ++ rest = quoted t ++ rest') :
    s = t ∧ rest = rest' := by
  have body : s.toList.flatMap escapeChar ++ '"' :: rest = t.toList.flatMap escapeChar ++ '"' :: rest' := by
    simpa [quoted] using same
  have fuel := Nat.lt_succ_self (s.toList.length + t.toList.length)
  have read := readString?_quoted s.toList rest [] (Nat.lt_of_le_of_lt (Nat.le_add_right ..) fuel)
  have read' := readString?_quoted t.toList rest' [] (Nat.lt_of_le_of_lt (Nat.le_add_left ..) fuel)
  rw [body, read'] at read
  obtain ⟨text, tail⟩ := Prod.mk.inj (Option.some.inj read)
  simp only [List.reverse_nil, List.nil_append, String.ofList_toList] at text
  exact ⟨text.symm, tail.symm⟩

mutual
-- Every number in the document is one that a document can have.
def Real : Json → Prop
  | num n => n.Real
  | arr items => RealItems items
  | obj members => RealMembers members
  | null | bool _ | str _ => True

def RealItems : List Json → Prop
  | [] => True
  | a :: rest => a.Real ∧ RealItems rest

def RealMembers : List (String × Json) → Prop
  | [] => True
  | (_, v) :: rest => v.Real ∧ RealMembers rest
end

-- The kind of document that a first character opens.
def opens (c : Char) : String :=
  if c = 'n' then "null"
  else if c = 't' ∨ c = 'f' then "boolean"
  else if c = '"' then "string"
  else if c = '[' then "array"
  else if c = '\x7b' then "object"
  else "number"

theorem opens_numeric {c : Char} (numeric : IsNumeric c) : opens c = "number" := by
  have apart : ∀ d : Char, ¬ IsNumeric d → c ≠ d := fun d other same => other (same ▸ numeric)
  unfold opens
  rw [if_neg (apart 'n' (by decide)), if_neg, if_neg (apart '"' (by decide)), if_neg (apart '[' (by decide)),
    if_neg (apart '\x7b' (by decide))]
  exact not_or.mpr ⟨apart 't' (by decide), apart 'f' (by decide)⟩

theorem chars_opens {j : Json} (real : j.Real) : ∃ c rest, j.chars = c :: rest ∧ opens c = j.kind := by
  cases j with
  | null => exact ⟨'n', _, rfl, rfl⟩
  | bool b => cases b <;> exact ⟨_, _, rfl, rfl⟩
  | str s => exact ⟨'"', _, rfl, rfl⟩
  | arr items => exact ⟨'[', _, rfl, rfl⟩
  | obj members => exact ⟨'\x7b', _, rfl, rfl⟩
  | num n =>
    obtain ⟨c, rest, split⟩ := List.exists_cons_of_ne_nil (numberText_ne_nil real)
    exact ⟨c, rest, split, opens_numeric (numberText_numeric real c (split ▸ List.mem_cons_self))⟩

-- Nothing that would go on with a number.
def Stops (rest : List Char) : Prop := ∀ c tail, rest = c :: tail → ¬ IsNumeric c

theorem Stops.nil : Stops [] := nofun

theorem Stops.cons {c : Char} (other : ¬ IsNumeric c) (rest : List Char) : Stops (c :: rest) := by
  intro d tail same
  cases same
  exact other

theorem notNumeric_bracket : ¬ IsNumeric ']' := by decide

theorem notNumeric_brace : ¬ IsNumeric '\x7d' := by decide

theorem stops_comma (rest : List Char) : Stops (',' :: rest) := .cons (by decide) rest

theorem Numeric.split {cs ds rest rest' : List Char} (numeric : Numeric cs) (numeric' : Numeric ds)
    (stops : Stops rest) (stops' : Stops rest') (same : cs ++ rest = ds ++ rest') : cs = ds ∧ rest = rest' := by
  induction cs generalizing ds with
  | nil =>
    cases ds with
    | nil => exact ⟨rfl, same⟩
    | cons d ds => exact absurd (numeric' d List.mem_cons_self) (stops d _ same)
  | cons c cs ih =>
    cases ds with
    | nil => exact absurd (numeric c List.mem_cons_self) (stops' c _ same.symm)
    | cons d ds =>
      obtain ⟨rfl, tails⟩ := List.cons.inj same
      obtain ⟨rfl, rests⟩ := ih (List.forall_mem_cons.mp numeric).2 (List.forall_mem_cons.mp numeric').2 tails
      exact ⟨rfl, rests⟩

theorem kinds_eq {j j' : Json} {rest rest' : List Char} (real : j.Real) (real' : j'.Real)
    (same : j.chars ++ rest = j'.chars ++ rest') : j.kind = j'.kind := by
  obtain ⟨c, tail, chars, opened⟩ := chars_opens real
  obtain ⟨c', tail', chars', opened'⟩ := chars_opens real'
  rw [chars, chars'] at same
  rw [← opened, ← opened', (List.cons.inj same).1]

theorem chars_not_bracket {j : Json} (real : j.Real) (rest tail : List Char) : j.chars ++ rest ≠ ']' :: tail := by
  intro same
  cases j with
  | null | str | arr | obj => cases same
  | bool b => cases b <;> cases same
  | num n =>
    obtain ⟨c, more, split⟩ := List.exists_cons_of_ne_nil (numberText_ne_nil real)
    have numeric := numberText_numeric real c (split ▸ List.mem_cons_self)
    rw [chars, split] at same
    exact notNumeric_bracket ((List.cons.inj same).1 ▸ numeric)

theorem itemChars_cons (a : Json) (rest : List Json) :
    itemChars (a :: rest) = a.chars ++ if rest = [] then [] else ',' :: itemChars rest := by
  cases rest with
  | nil => exact (List.append_nil _).symm
  | cons b rest => rfl

theorem memberChars_cons (k : String) (v : Json) (rest : List (String × Json)) :
    memberChars ((k, v) :: rest) =
      quoted k ++ ':' :: (v.chars ++ if rest = [] then [] else ',' :: memberChars rest) := by
  cases rest with
  | nil => rw [if_pos rfl, List.append_nil]; rfl
  | cons b rest => simp [memberChars]

-- What stands behind one part: a comma and the next part, or the closing character.
theorem stops_tail {closer : Char} (other : ¬ IsNumeric closer) (last : Prop) [Decidable last]
    (more rest : List Char) : Stops ((if last then [] else ',' :: more) ++ closer :: rest) := by
  split
  · exact .cons other rest
  · exact stops_comma _

theorem tail_split {closer : Char} (other : closer ≠ ',') {last last' : Prop} [Decidable last] [Decidable last']
    {more more' rest rest' : List Char} (same : (if last then [] else ',' :: more) ++ closer :: rest =
      (if last' then [] else ',' :: more') ++ closer :: rest') :
    last ∧ last' ∧ rest = rest' ∨ ¬ last ∧ ¬ last' ∧ more ++ closer :: rest = more' ++ closer :: rest' := by
  split at same <;> split at same
  case isTrue.isTrue ends ends' => exact .inl ⟨ends, ends', (List.cons.inj same).2⟩
  case isTrue.isFalse => exact absurd (List.cons.inj same).1 other
  case isFalse.isTrue => exact absurd (List.cons.inj same).1.symm other
  case isFalse.isFalse goes goes' => exact .inr ⟨goes, goes', (List.cons.inj same).2⟩

mutual
theorem chars_inj (j j' : Json) {rest rest' : List Char} (real : j.Real) (real' : j'.Real) (stops : Stops rest)
    (stops' : Stops rest') (same : j.chars ++ rest = j'.chars ++ rest') : j = j' ∧ rest = rest' := by
  have kinds := kinds_eq real real' same
  cases j with
  | null =>
    cases j' with
    | null => exact ⟨rfl, List.append_cancel_left same⟩
    | bool | num | str | arr | obj => exact absurd kinds (by simp [kind])
  | bool b =>
    cases j' with
    | bool b' =>
      cases b <;> cases b' <;> first
        | exact ⟨rfl, List.append_cancel_left same⟩
        | cases (List.cons.inj same).1
    | null | num | str | arr | obj => exact absurd kinds (by simp [kind])
  | num n =>
    cases j' with
    | num n' =>
      obtain ⟨texts, rests⟩ := Numeric.split (numberText_numeric real) (numberText_numeric real') stops stops' same
      exact ⟨congrArg num (numberText_inj real real' (String.toList_inj.mp texts)), rests⟩
    | null | bool | str | arr | obj => exact absurd kinds (by simp [kind])
  | str s =>
    cases j' with
    | str t =>
      obtain ⟨rfl, rests⟩ := quoted_inj same
      exact ⟨rfl, rests⟩
    | null | bool | num | arr | obj => exact absurd kinds (by simp [kind])
  | arr items =>
    cases j' with
    | arr items' =>
      have inner : itemChars items ++ ']' :: rest = itemChars items' ++ ']' :: rest' := by
        simpa [chars] using same
      obtain ⟨rfl, rests⟩ := itemChars_inj items items' real real' inner
      exact ⟨rfl, rests⟩
    | null | bool | num | str | obj => exact absurd kinds (by simp [kind])
  | obj members =>
    cases j' with
    | obj members' =>
      have inner : memberChars members ++ '\x7d' :: rest = memberChars members' ++ '\x7d' :: rest' := by
        simpa [chars] using same
      obtain ⟨rfl, rests⟩ := memberChars_inj members members' real real' inner
      exact ⟨rfl, rests⟩
    | null | bool | num | str | arr => exact absurd kinds (by simp [kind])

theorem itemChars_inj (items items' : List Json) {rest rest' : List Char} (real : RealItems items)
    (real' : RealItems items') (same : itemChars items ++ ']' :: rest = itemChars items' ++ ']' :: rest') :
    items = items' ∧ rest = rest' := by
  cases items with
  | nil =>
    cases items' with
    | nil => exact ⟨rfl, (List.cons.inj same).2⟩
    | cons a' more' =>
      rw [itemChars_cons, List.append_assoc] at same
      exact absurd same.symm (chars_not_bracket real'.1 _ _)
  | cons a more =>
    cases items' with
    | nil =>
      rw [itemChars_cons, List.append_assoc] at same
      exact absurd same (chars_not_bracket real.1 _ _)
    | cons a' more' =>
      rw [itemChars_cons, itemChars_cons, List.append_assoc, List.append_assoc] at same
      obtain ⟨rfl, tails⟩ := chars_inj a a' real.1 real'.1 (stops_tail notNumeric_bracket _ _ _)
        (stops_tail notNumeric_bracket _ _ _) same
      rcases tail_split (by decide) tails with ⟨rfl, rfl, rests⟩ | ⟨-, -, further⟩
      · exact ⟨rfl, rests⟩
      · obtain ⟨rfl, rests⟩ := itemChars_inj more more' real.2 real'.2 further
        exact ⟨rfl, rests⟩

theorem memberChars_inj (members members' : List (String × Json)) {rest rest' : List Char}
    (real : RealMembers members) (real' : RealMembers members')
    (same : memberChars members ++ '\x7d' :: rest = memberChars members' ++ '\x7d' :: rest') :
    members = members' ∧ rest = rest' := by
  cases members with
  | nil =>
    cases members' with
    | nil => exact ⟨rfl, (List.cons.inj same).2⟩
    | cons member more =>
      obtain ⟨k, v⟩ := member
      rw [memberChars_cons] at same
      cases (List.cons.inj same).1
  | cons member more =>
    obtain ⟨k, v⟩ := member
    cases members' with
    | nil =>
      rw [memberChars_cons] at same
      cases (List.cons.inj same).1
    | cons member' more' =>
      obtain ⟨k', v'⟩ := member'
      rw [memberChars_cons, memberChars_cons, List.append_assoc, List.append_assoc] at same
      obtain ⟨rfl, values⟩ := quoted_inj same
      rw [List.cons_append, List.cons_append, List.append_assoc, List.append_assoc] at values
      obtain ⟨rfl, tails⟩ := chars_inj v v' real.1 real'.1 (stops_tail notNumeric_brace _ _ _)
        (stops_tail notNumeric_brace _ _ _) (List.cons.inj values).2
      rcases tail_split (by decide) tails with ⟨rfl, rfl, rests⟩ | ⟨-, -, further⟩
      · exact ⟨rfl, rests⟩
      · obtain ⟨rfl, rests⟩ := memberChars_inj more more' real.2 real'.2 further
        exact ⟨rfl, rests⟩
end

-- Without a null character.
def Unbroken (cs : List Char) : Prop := ∀ c ∈ cs, c.toNat ≠ 0

theorem unbroken_of_all {cs : List Char} (all : (cs.all fun c => c.toNat != 0) = true) : Unbroken cs :=
  fun c member => bne_iff_ne.mp (List.all_eq_true.mp all c member)

theorem Unbroken.append {cs ds : List Char} (first : Unbroken cs) (second : Unbroken ds) : Unbroken (cs ++ ds) :=
  List.forall_mem_append.mpr ⟨first, second⟩

theorem Unbroken.cons {c : Char} {cs : List Char} (other : c.toNat ≠ 0) (rest : Unbroken cs) : Unbroken (c :: cs) :=
  List.forall_mem_cons.mpr ⟨other, rest⟩

theorem numeric_unbroken {cs : List Char} (numeric : Numeric cs) : Unbroken cs := by
  intro c member null
  have same : c = Char.ofNat 0 := by rw [← null, Char.ofNat_toNat]
  have refused : ¬ IsNumeric (Char.ofNat 0) := by decide
  exact refused (same ▸ numeric c member)

theorem numberText_unbroken (n : JsonNumber) : Unbroken (numberText n).toList := by
  cases n with
  | int i => exact numeric_unbroken (intText_shape i).1
  | double x =>
    have word : Unbroken "null".toList := unbroken_of_all rfl
    show Unbroken (NumberStyle.json.write x).toList
    unfold NumberStyle.write
    cases Binary64.ofFloat x with
    | nan => exact word
    | infinite negative => cases negative <;> exact word
    | finite negative m q =>
      have numeric := (@NumberStyle.magnitude_shape .json rfl m q).1
      cases negative
      · exact numeric_unbroken (String.toList_ofList ▸ numeric)
      · exact numeric_unbroken (String.toList_ofList ▸ numeric.cons (.inr (by decide)))

theorem hexDigit_toNat {n : Nat} (small : n < 16) : (hexDigit n).toNat ≠ 0 := by
  interval_cases n <;> decide

theorem escapeChar_unbroken (c : Char) : Unbroken (escapeChar c) := by
  have pair : ∀ d, Char.toNat d ≠ 0 → Unbroken ['\\', d] := fun d other => .cons (by decide) (.cons other nofun)
  have control : c.toNat < 32 →
      Unbroken ['\\', 'u', '0', '0', hexDigit (c.toNat / 16), hexDigit (c.toNat % 16)] := by
    intro small
    exact .cons (by decide) (.cons (by decide) (.cons (by decide) (.cons (by decide)
      (.cons (hexDigit_toNat (by omega)) (.cons (hexDigit_toNat (by omega)) nofun)))))
  unfold escapeChar
  repeat' split
  all_goals first
    | exact pair _ (by decide)
    | exact control (by assumption)
    | exact .cons (by omega) nofun

theorem quoted_unbroken (s : String) : Unbroken (quoted s) := by
  refine .cons (by decide) (Unbroken.append ?_ (.cons (by decide) nofun))
  intro c member
  obtain ⟨d, -, escaped⟩ := List.mem_flatMap.mp member
  exact escapeChar_unbroken d c escaped

mutual
theorem chars_unbroken (j : Json) : Unbroken j.chars := by
  cases j with
  | null => exact unbroken_of_all rfl
  | bool b => cases b <;> exact unbroken_of_all rfl
  | num n => exact numberText_unbroken n
  | str s => exact quoted_unbroken s
  | arr items => exact .cons (by decide) ((itemChars_unbroken items).append (.cons (by decide) nofun))
  | obj members => exact .cons (by decide) ((memberChars_unbroken members).append (.cons (by decide) nofun))

theorem itemChars_unbroken (items : List Json) : Unbroken (itemChars items) := by
  cases items with
  | nil => exact nofun
  | cons a rest =>
    rw [itemChars_cons]
    refine (chars_unbroken a).append ?_
    split
    · exact nofun
    · exact .cons (by decide) (itemChars_unbroken rest)

theorem memberChars_unbroken (members : List (String × Json)) : Unbroken (memberChars members) := by
  cases members with
  | nil => exact nofun
  | cons member rest =>
    obtain ⟨k, v⟩ := member
    rw [memberChars_cons]
    refine (quoted_unbroken k).append (.cons (by decide) ((chars_unbroken v).append ?_))
    split
    · exact nofun
    · exact .cons (by decide) (memberChars_unbroken rest)
end

theorem text_inj {j j' : Json} (real : j.Real) (real' : j'.Real) (same : j.text = j'.text) : j = j' := by
  have chars : j.chars ++ [] = j'.chars ++ [] := by rw [String.ofList_inj.mp same]
  exact (chars_inj j j' real real' .nil .nil chars).1

end FilterQuery.Json
