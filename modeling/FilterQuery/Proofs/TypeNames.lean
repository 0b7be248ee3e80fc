import FilterQuery.Adapter.Basic
import Mathlib.Data.List.Basic
import Mathlib.Data.List.TakeWhile

namespace FilterQuery

section Trimming

variable {cs left right : List Char} {c : Char}

theorem trimStart_blanks (blank : ∀ c ∈ left, isBlank c = true) (cs : List Char) :
    trimStart (left ++ cs) = trimStart cs := List.dropWhile_append_of_pos blank

theorem trimEnd_eq_nil (cs : List Char) : trimEnd cs = [] ↔ ∀ c ∈ cs, isBlank c = true := by
  unfold trimEnd
  rw [List.reverse_eq_nil_iff, List.dropWhile_eq_nil_iff]
  simp only [List.mem_reverse]

theorem trimEnd_append (cs right : List Char) :
    trimEnd (cs ++ right) = if trimEnd right = [] then trimEnd cs else cs ++ trimEnd right := by
  unfold trimEnd
  rw [List.reverse_append, List.dropWhile_append]
  simp only [List.isEmpty_iff, List.reverse_eq_nil_iff]
  rw [apply_ite List.reverse, List.reverse_append, List.reverse_reverse]

theorem trimEnd_blanks (cs : List Char) (blank : ∀ c ∈ right, isBlank c = true) :
    trimEnd (cs ++ right) = trimEnd cs := by
  rw [trimEnd_append, if_pos ((trimEnd_eq_nil right).mpr blank)]

theorem trimEnd_behind (cs : List Char) (solid : isBlank c = false) (right : List Char) :
    trimEnd (cs ++ c :: right) = cs ++ c :: trimEnd right := by
  have last : trimEnd [c] = [c] := by simp [trimEnd, solid]
  have within : trimEnd (c :: right) = c :: trimEnd right := by
    rw [← List.singleton_append, trimEnd_append, last]
    split
    · rename_i empty
      rw [empty]
    · rfl
  rw [trimEnd_append, within, if_neg (List.cons_ne_nil _ _)]

theorem trim_padded (before : ∀ c ∈ left, isBlank c = true) (behind : ∀ c ∈ right, isBlank c = true)
    (cs : List Char) : trim (left ++ cs ++ right) = trim cs := by
  unfold trim
  rw [List.append_assoc, trimStart_blanks before]
  show trimEnd (List.dropWhile isBlank (cs ++ right)) = _
  rw [List.dropWhile_append]
  split
  · rename_i empty
    rw [show trimStart cs = [] from List.isEmpty_iff.mp empty, List.dropWhile_eq_nil_iff.mpr behind]
  · exact trimEnd_blanks _ behind

theorem length_trim_le (cs : List Char) : (trim cs).length ≤ cs.length := by
  have fewer : ∀ xs : List Char, (xs.dropWhile isBlank).length ≤ xs.length := fun xs =>
    (List.dropWhile_suffix isBlank).length_le
  unfold trim trimEnd
  rw [List.length_reverse]
  exact (fewer _).trans ((List.length_reverse).trans_le (fewer cs))

theorem solid_start {cs : List Char} (trimmed : trim (c :: cs) = c :: cs) : isBlank c = false := by
  by_contra blank
  have before : ∀ d ∈ [c], isBlank d = true := by simpa using blank
  have shorter : trim (c :: cs) = trim cs := by
    rw [← trim_padded before (List.forall_mem_nil _) cs, List.append_nil, List.singleton_append]
  have bound := length_trim_le cs
  rw [← shorter, trimmed, List.length_cons] at bound
  omega

theorem solid_end (trimmed : trim (cs ++ [c]) = cs ++ [c]) : isBlank c = false := by
  by_contra blank
  have behind : ∀ d ∈ [c], isBlank d = true := by simpa using blank
  have shorter : trim (cs ++ [c]) = trim cs := by
    rw [← trim_padded (List.forall_mem_nil _) behind cs, List.nil_append]
  have bound := length_trim_le cs
  rw [← shorter, trimmed, List.length_append, List.length_singleton] at bound
  omega

-- Only a capital changes, and it becomes the small letter.
theorem toLower_cases (c : Char) : (¬ (65 ≤ c.toNat ∧ c.toNat ≤ 90) ∧ c.toLower = c) ∨
    (65 ≤ c.toNat ∧ c.toNat ≤ 90) ∧ c.toLower.toNat = c.toNat + 32 := by
  have capital : c.val ≥ 'A'.val ∧ c.val ≤ 'Z'.val ↔ 65 ≤ c.toNat ∧ c.toNat ≤ 90 := by
    simp [UInt32.le_iff_toNat_le]
  unfold Char.toLower
  split
  · rename_i upper
    refine .inr ⟨capital.mp upper, ?_⟩
    have bound := (capital.mp upper).2
    simp only [Char.toNat, Char.reduceVal, UInt32.reduceSub, UInt32.toNat_add, UInt32.reduceToNat] at bound ⊢
    omega
  · rename_i other
    exact .inl ⟨fun upper => other (capital.mpr upper), rfl⟩

theorem isBlank_toLower (c : Char) : isBlank c.toLower = isBlank c := by
  obtain ⟨-, same⟩ | ⟨letter, lowered⟩ := toLower_cases c
  · rw [same]
  · rw [Bool.eq_iff_iff]
    simp only [isBlank, lowered, Bool.or_eq_true, Bool.and_eq_true, decide_eq_true_eq, beq_iff_eq]
    omega

theorem trimStart_lowerAscii (cs : List Char) : trimStart (lowerAscii cs) = lowerAscii (trimStart cs) := by
  have same : isBlank ∘ Char.toLower = isBlank := funext isBlank_toLower
  unfold trimStart lowerAscii
  rw [List.dropWhile_map, same]

theorem trim_lowerAscii (cs : List Char) : trim (lowerAscii cs) = lowerAscii (trim cs) := by
  have reversed : ∀ xs : List Char, (lowerAscii xs).reverse = lowerAscii xs.reverse := fun _ => List.map_reverse.symm
  show (trimStart (trimStart (lowerAscii cs)).reverse).reverse = lowerAscii (trimStart (trimStart cs).reverse).reverse
  rw [trimStart_lowerAscii, reversed, trimStart_lowerAscii, reversed]

theorem toLower_toLower (c : Char) : c.toLower.toLower = c.toLower := by
  obtain ⟨-, same⟩ | ⟨letter, lowered⟩ := toLower_cases c
  · rw [same, same]
  · obtain ⟨-, same⟩ | ⟨again, -⟩ := toLower_cases c.toLower
    · exact same
    · omega

theorem lowerAscii_lowerAscii (cs : List Char) : lowerAscii (lowerAscii cs) = lowerAscii cs := by
  unfold lowerAscii
  rw [List.map_map]
  exact List.map_congr_left fun c _ => toLower_toLower c

theorem trimEnd_split (cs : List Char) : ∃ right, (∀ c ∈ right, isBlank c = true) ∧ cs = trimEnd cs ++ right := by
  refine ⟨(cs.reverse.takeWhile isBlank).reverse, fun c member => ?_, ?_⟩
  · exact List.mem_takeWhile_imp (List.mem_reverse.mp member)
  · unfold trimEnd
    rw [← List.reverse_append, List.takeWhile_append_dropWhile, List.reverse_reverse]

theorem trim_parts (cs : List Char) : ∃ before after, cs = before ++ (trim cs ++ after) ∧
    (∀ c ∈ before, isBlank c = true) ∧ ∀ c ∈ after, isBlank c = true := by
  obtain ⟨after, behind, split⟩ := trimEnd_split (trimStart cs)
  refine ⟨cs.takeWhile isBlank, after, ?_, fun _ => List.mem_takeWhile_imp, behind⟩
  rw [trim, ← split, trimStart, List.takeWhile_append_dropWhile]

theorem dropWhile_solid (solid : ∀ c ∈ cs, isBlank c = false) : cs.dropWhile isBlank = cs := by
  cases cs with
  | nil => rfl
  | cons c rest => exact List.dropWhile_cons_of_neg (Bool.eq_false_iff.mp (solid c List.mem_cons_self))

theorem trim_solid (solid : ∀ c ∈ cs, isBlank c = false) : trim cs = cs := by
  have backwards : ∀ c ∈ cs.reverse, isBlank c = false := fun c member => solid c (List.mem_reverse.mp member)
  rw [trim, trimStart, dropWhile_solid solid, trimEnd, dropWhile_solid backwards, List.reverse_reverse]

theorem trim_trim (cs : List Char) : trim (trim cs) = trim cs := by
  obtain ⟨before, right, whole, blank, behind⟩ := trim_parts cs
  have padded := trim_padded blank behind (trim cs)
  rw [List.append_assoc, ← whole] at padded
  exact padded.symm

end Trimming

namespace NativeType

variable {n arg s cs : List Char} {c d : Char}

theorem isAlpha_of_letter (letter : 65 ≤ c.toNat ∧ c.toNat ≤ 90 ∨ 97 ≤ c.toNat ∧ c.toNat ≤ 122) :
    c.isAlpha = true := by
  have capital : c.isUpper = decide (c.val ≥ 'A'.val ∧ c.val ≤ 'Z'.val) := rfl
  have small : c.isLower = (decide (c.val ≥ 'a'.val) && decide (c.val ≤ 'z'.val)) := rfl
  show (c.isUpper || c.isLower) = true
  simpa [capital, small, UInt32.le_iff_toNat_le] using letter

theorem toLower_eq_iff (plain : d.isAlpha = false) : c.toLower = d ↔ c = d := by
  obtain ⟨-, same⟩ | ⟨letter, lowered⟩ := toLower_cases c
  · rw [same]
  · constructor
    · intro same
      rw [same] at lowered
      rw [isAlpha_of_letter (by omega)] at plain
      cases plain
    · intro same
      subst same
      rw [isAlpha_of_letter (.inl letter)] at plain
      cases plain

theorem mem_lowerAscii (plain : d.isAlpha = false) : d ∈ lowerAscii cs ↔ d ∈ cs := by
  simp [lowerAscii, toLower_eq_iff plain]

theorem takeWhile_until (absent : d ∉ n) (rest : List Char) : (n ++ d :: rest).takeWhile (· != d) = n := by
  have others : ∀ c ∈ n, (c != d) = true := fun c member => by
    rw [bne_iff_ne]
    rintro rfl
    exact absent member
  rw [List.takeWhile_append_of_pos others, List.takeWhile_cons_of_neg (by simp), List.append_nil]

theorem afterLast_behind (cs : List Char) (absent : d ∉ s) : afterLast d (cs ++ d :: s) = s := by
  unfold afterLast
  rw [List.reverse_append, List.reverse_cons, List.append_assoc, List.singleton_append,
    takeWhile_until (fun member => absent (List.mem_reverse.mp member)), List.reverse_reverse]

theorem withoutArguments_plain (opens : '(' ∉ cs) : withoutArguments cs = cs :=
  if_neg fun present => opens (List.contains_iff_mem.mp present)

theorem withoutArguments_cut (opens : '(' ∉ n) (closes : ')' ∉ s) :
    withoutArguments (n ++ '(' :: (arg ++ ')' :: s)) = trimEnd n ++ s := by
  have opened : (n ++ '(' :: (arg ++ ')' :: s)).contains '(' = true := by simp
  have closed : (n ++ '(' :: (arg ++ ')' :: s)).contains ')' = true := by simp
  have last : afterLast ')' (n ++ '(' :: (arg ++ ')' :: s)) = s := by
    rw [← List.cons_append, ← List.append_assoc]
    exact afterLast_behind _ closes
  unfold withoutArguments
  rw [if_pos opened, if_pos closed, takeWhile_until opens, last]

-- The text between two places, where the places are in order and none is behind the end.
def slice? (cs : List Char) (start stop : Nat) : Option (List Char) :=
  if start ≤ stop ∧ stop ≤ cs.length then some ((cs.take stop).drop start) else none

-- The arguments cut out by places: the first opening parenthesis and what follows the last closing one. They may be
-- in either order.
def cut? (cs : List Char) : Option (List Char) :=
  if cs.contains '(' then do
    let closing := if cs.contains ')' then cs.length - cs.reverse.idxOf ')' else cs.length
    let before ← slice? cs 0 (cs.idxOf '(')
    let behind ← slice? cs closing cs.length
    some (trimEnd before ++ behind)
  else some cs

theorem slice?_before (absent : d ∉ n) (rest : List Char) :
    slice? (n ++ d :: rest) 0 ((n ++ d :: rest).idxOf d) = some n := by
  have place : (n ++ d :: rest).idxOf d = n.length := by
    rw [List.idxOf_append_of_notMem absent, List.idxOf_cons_self, Nat.add_zero]
  have within : n.length ≤ (n ++ d :: rest).length := by simp
  rw [place, slice?, if_pos ⟨Nat.zero_le _, within⟩, List.drop_zero, List.take_left]

theorem slice?_behind (cs : List Char) (absent : d ∉ s) :
    slice? (cs ++ d :: s) ((cs ++ d :: s).length - (cs ++ d :: s).reverse.idxOf d) (cs ++ d :: s).length = some s := by
  have place : (cs ++ d :: s).reverse.idxOf d = s.length := by
    rw [List.reverse_append, List.reverse_cons, List.append_assoc, List.singleton_append,
      List.idxOf_append_of_notMem (fun member => absent (List.mem_reverse.mp member)), List.idxOf_cons_self,
      Nat.add_zero, List.length_reverse]
  have start : (cs ++ d :: s).length - s.length = (cs ++ [d]).length := by
    simp only [List.length_append, List.length_cons, List.length_nil]
    omega
  have within : (cs ++ [d]).length ≤ (cs ++ d :: s).length := by simp
  have split : cs ++ d :: s = (cs ++ [d]) ++ s := by simp
  rw [place, start, slice?, if_pos ⟨within, le_rfl⟩, List.take_length, split, List.drop_left]

-- No text is without these places.
theorem cut?_exact (cs : List Char) : cut? cs = some (withoutArguments cs) := by
  unfold cut? withoutArguments
  by_cases opened : cs.contains '('
  · obtain ⟨n, rest, split, absent⟩ := List.eq_append_cons_of_mem (List.contains_iff_mem.mp opened)
    have before : slice? cs 0 (cs.idxOf '(') = some (cs.takeWhile (· != '(')) := by
      rw [split, slice?_before absent, takeWhile_until absent]
    rw [if_pos opened, if_pos opened, before]
    by_cases closed : cs.contains ')'
    · obtain ⟨t, front, turned, absent⟩ :=
        List.eq_append_cons_of_mem (List.mem_reverse.mpr (List.contains_iff_mem.mp closed))
      have split : cs = front.reverse ++ ')' :: t.reverse := by
        rw [← List.reverse_reverse cs, turned]
        simp
      have absent : ')' ∉ t.reverse := fun member => absent (List.mem_reverse.mp member)
      have behind : slice? cs (cs.length - cs.reverse.idxOf ')') cs.length = some (afterLast ')' cs) := by
        rw [split, slice?_behind _ absent, afterLast_behind _ absent]
      rw [if_pos closed, if_pos closed]
      simp only [behind, Option.bind_eq_bind, Option.bind_some]
    · have behind : slice? cs cs.length cs.length = some [] := by
        rw [slice?, if_pos ⟨le_rfl, le_rfl⟩, List.take_length, List.drop_length]
      rw [if_neg closed, if_neg closed]
      simp only [behind, Option.bind_eq_bind, Option.bind_some]
  · rw [if_neg opened, if_neg opened]

example : withoutArguments "a)b(c".toList = "a)bb(c".toList := by decide

-- What a name may be: something without parentheses that begins and ends solid.
structure Name (n : List Char) : Prop where
  nonempty : n ≠ []
  opens : '(' ∉ n
  closes : ')' ∉ n
  trimmed : trim n = n

theorem Name.trim_append (name : Name n) (rest : List Char) : trim (n ++ rest) = n ++ trimEnd rest := by
  have start : trimStart (n ++ rest) = n ++ rest := by
    obtain ⟨c, t, rfl⟩ := List.exists_cons_of_ne_nil name.nonempty
    exact List.dropWhile_cons_of_neg (by simp [solid_start name.trimmed])
  obtain ⟨t, c, rfl⟩ := (List.eq_nil_or_concat' n).resolve_left name.nonempty
  unfold trim
  rw [start, List.append_assoc, List.singleton_append, trimEnd_behind t (solid_end name.trimmed), List.append_assoc,
    List.singleton_append]

theorem Name.trimEnd_eq (name : Name n) : trimEnd n = n := by
  obtain ⟨t, c, rfl⟩ := (List.eq_nil_or_concat' n).resolve_left name.nonempty
  exact trimEnd_behind t (solid_end name.trimmed) []

theorem Name.lowered (name : Name n) : Name (lowerAscii n) where
  nonempty empty := name.nonempty (List.map_eq_nil_iff.mp empty)
  opens member := name.opens ((mem_lowerAscii (by decide)).mp member)
  closes member := name.closes ((mem_lowerAscii (by decide)).mp member)
  trimmed := by rw [trim_lowerAscii, name.trimmed]

theorem lowerAscii_append (xs ys : List Char) : lowerAscii (xs ++ ys) = lowerAscii xs ++ lowerAscii ys :=
  List.map_append

-- What stands behind a name or behind its arguments.
structure Suffix (s : List Char) : Prop where
  opens : '(' ∉ s
  closes : ')' ∉ s

theorem Suffix.lowered (suffix : Suffix s) : Suffix (lowerAscii (trimEnd s)) := by
  obtain ⟨right, _, split⟩ := trimEnd_split s
  have kept : ∀ c, c ∈ trimEnd s → c ∈ s := fun c member => by
    rw [split]
    exact List.mem_append_left right member
  constructor
  · exact fun member => suffix.opens (kept _ ((mem_lowerAscii (by decide)).mp member))
  · exact fun member => suffix.closes (kept _ ((mem_lowerAscii (by decide)).mp member))

section Spelling

variable {n : String}

theorem Name.normal_plain (name : Name n.toList) (s : String) :
    normal (n ++ s) = lowerAscii n.toList ++ lowerAscii (trimEnd s.toList) := by
  unfold normal
  rw [String.toList_append, name.trim_append, lowerAscii_append]

theorem Name.normal_arguments (name : Name n.toList) (arg s : String) :
    normal (n ++ "(" ++ arg ++ ")" ++ s) =
      lowerAscii n.toList ++ '(' :: (lowerAscii arg.toList ++ ')' :: lowerAscii (trimEnd s.toList)) := by
  have closed : isBlank ')' = false := by decide
  have letters : (n ++ "(" ++ arg ++ ")" ++ s).toList = n.toList ++ (('(' :: arg.toList) ++ ')' :: s.toList) := by
    simp [String.toList_append]
  unfold normal
  rw [letters, name.trim_append, trimEnd_behind _ closed, lowerAscii_append, lowerAscii_append]
  rfl

theorem Name.plain_opens (name : Name n.toList) {s : String} (suffix : Suffix s.toList) : '(' ∉ normal (n ++ s) := by
  rw [name.normal_plain, List.mem_append, not_or]
  exact ⟨name.lowered.opens, suffix.lowered.opens⟩

theorem Name.base_plain (name : Name n.toList) {s : String} (suffix : Suffix s.toList) :
    base (n ++ s) = lowerAscii n.toList ++ lowerAscii (trimEnd s.toList) := by
  unfold base
  rw [withoutArguments_plain (name.plain_opens suffix), name.normal_plain]

theorem Name.base_arguments (name : Name n.toList) (arg : String) {s : String} (suffix : Suffix s.toList) :
    base (n ++ "(" ++ arg ++ ")" ++ s) = base (n ++ s) := by
  rw [name.base_plain suffix]
  unfold base
  rw [name.normal_arguments, withoutArguments_cut name.lowered.opens suffix.lowered.closes,
    name.lowered.trimEnd_eq]

theorem normal_normal (native : String) : normal (String.ofList (normal native)) = normal native := by
  unfold normal
  rw [String.toList_ofList, trim_lowerAscii, trim_trim, lowerAscii_lowerAscii]

theorem base_normal (native : String) : base (String.ofList (normal native)) = base native :=
  congrArg withoutArguments (normal_normal native)

end Spelling

end NativeType

namespace MySql

open NativeType

variable {n arg s : String} {w : List Char}

-- The types that are read with their arguments: a number of one bit, and the types that list their members.
def ReadWhole (n arg s : String) : Prop :=
  (lowerText n = "tinyint" ∨ lowerText n = "bit") ∧ arg = "1" ∧ (∀ c ∈ s.toList, isBlank c = true) ∨
    lowerText n = "enum" ∨ lowerText n = "set"

theorem lowerText_eq_iff (n w : String) : lowerText n = w ↔ lowerAscii n.toList = w.toList := by
  rw [← String.toList_inj, lowerText, String.toList_ofList]

theorem lowerAscii_eq_one (arg : String) : lowerAscii arg.toList = ['1'] ↔ arg = "1" := by
  have digit : ∀ c : Char, c.toLower = '1' ↔ c = '1' := fun c => toLower_eq_iff (by decide)
  unfold lowerAscii
  rw [List.map_eq_singleton_iff, ← String.toList_inj]
  constructor
  · intro ⟨c, one, folded⟩
    rw [one, (digit c).mp folded]
    rfl
  · intro one
    exact ⟨'1', one, rfl⟩

theorem written_one_iff (name : Name n.toList) (opens : '(' ∉ w) :
    normal (n ++ "(" ++ arg ++ ")" ++ s) = w ++ ['(', '1', ')'] ↔
      lowerAscii n.toList = w ∧ arg = "1" ∧ ∀ c ∈ s.toList, isBlank c = true := by
  have first : '(' ∉ ['1', ')'] := by decide
  have last : ')' ∉ ['1'] := by decide
  have blank : [] = lowerAscii (trimEnd s.toList) ↔ ∀ c ∈ s.toList, isBlank c = true := by
    rw [eq_comm, lowerAscii, List.map_eq_nil_iff, trimEnd_eq_nil]
  have inner : (['1'] ++ ')' :: [] = lowerAscii arg.toList ++ ')' :: lowerAscii (trimEnd s.toList)) ↔
      arg = "1" ∧ ∀ c ∈ s.toList, isBlank c = true := by
    rw [List.append_cons_inj_of_notMem last (List.not_mem_nil), blank, eq_comm, lowerAscii_eq_one]
    simp
  rw [name.normal_arguments, eq_comm, List.append_cons_inj_of_notMem opens first]
  simp only [true_and]
  rw [← inner, eq_comm]
  rfl

theorem written_prefix_iff (name : Name n.toList) (opens : '(' ∉ w) :
    (w ++ ['(']).isPrefixOf (normal (n ++ "(" ++ arg ++ ")" ++ s)) = true ↔ lowerAscii n.toList = w := by
  rw [name.normal_arguments, List.isPrefixOf_iff_prefix]
  constructor
  · intro ⟨rest, whole⟩
    rw [List.append_assoc, List.singleton_append] at whole
    have same := congrArg (List.takeWhile (· != '(')) whole
    rw [takeWhile_until opens, takeWhile_until name.lowered.opens] at same
    exact same.symm
  · rintro rfl
    exact ⟨_, by rw [List.append_assoc, List.singleton_append]⟩

-- The type that a text names when nothing in it is read whole.
def namedType? (native : String) : Option SemanticType :=
  typeOf scalarType? (dropUnsigned (base native).length (base native))

theorem semanticType_plain {native : String} (opens : '(' ∉ normal native) : semanticType native = namedType? native := by
  have other : ∀ w, '(' ∈ w → normal native ≠ w := by
    rintro w present rfl
    exact opens present
  have unprefixed : ∀ w : List Char, '(' ∈ w → ¬ w.isPrefixOf (normal native) = true := fun w present starts =>
    opens ((List.isPrefixOf_iff_prefix.mp starts).subset present)
  unfold semanticType namedType?
  dsimp only
  rw [if_neg (not_or.mpr ⟨other _ (by decide), other _ (by decide)⟩),
    if_neg (not_or.mpr ⟨unprefixed _ (by decide), unprefixed _ (by decide)⟩), base_normal]

theorem scalarType?_ne_enum (name : String) : scalarType? name ≠ some .enum := by
  unfold scalarType?
  split <;> decide

theorem namedType?_ne_enum (native : String) : namedType? native ≠ some .enum := by
  unfold namedType? typeOf
  split
  · unfold arrayOf
    intro enum
    obtain ⟨element, _, same⟩ := Option.map_eq_some_iff.mp enum
    cases same
  · exact scalarType?_ne_enum _

theorem written_bit_iff (name : Name n.toList) :
    (normal (n ++ "(" ++ arg ++ ")" ++ s) = "tinyint(1)".toList ∨
      normal (n ++ "(" ++ arg ++ ")" ++ s) = "bit(1)".toList) ↔
      (lowerText n = "tinyint" ∨ lowerText n = "bit") ∧ arg = "1" ∧ ∀ c ∈ s.toList, isBlank c = true := by
  have tiny : '(' ∉ "tinyint".toList := by decide
  have bit : '(' ∉ "bit".toList := by decide
  rw [lowerText_eq_iff, lowerText_eq_iff, or_and_right, ← written_one_iff name tiny, ← written_one_iff name bit]
  rfl

theorem written_list_iff (name : Name n.toList) :
    ("enum(".toList.isPrefixOf (normal (n ++ "(" ++ arg ++ ")" ++ s)) = true ∨
      "set(".toList.isPrefixOf (normal (n ++ "(" ++ arg ++ ")" ++ s)) = true) ↔
      lowerText n = "enum" ∨ lowerText n = "set" := by
  have enum : '(' ∉ "enum".toList := by decide
  have set : '(' ∉ "set".toList := by decide
  rw [lowerText_eq_iff, lowerText_eq_iff, ← written_prefix_iff name enum, ← written_prefix_iff name set]
  rfl

theorem namedType?_bit (name : Name n.toList) (suffix : Suffix s.toList)
    (one : lowerText n = "tinyint" ∨ lowerText n = "bit") (blank : ∀ c ∈ s.toList, isBlank c = true) :
    namedType? (n ++ s) ≠ some .boolean := by
  have base : base (n ++ s) = lowerAscii n.toList := by
    rw [name.base_plain suffix, (trimEnd_eq_nil s.toList).mpr blank]
    exact List.append_nil _
  unfold namedType?
  rw [base]
  rcases one with tiny | bit
  · rw [(lowerText_eq_iff n "tinyint").mp tiny]
    decide
  · rw [(lowerText_eq_iff n "bit").mp bit]
    decide

theorem semanticType_bit (name : Name n.toList)
    (one : (lowerText n = "tinyint" ∨ lowerText n = "bit") ∧ arg = "1" ∧ ∀ c ∈ s.toList, isBlank c = true) :
    semanticType (n ++ "(" ++ arg ++ ")" ++ s) = some .boolean := by
  unfold semanticType
  dsimp only
  rw [if_pos ((written_bit_iff name).mpr one)]

theorem semanticType_listed (name : Name n.toList) (listed : lowerText n = "enum" ∨ lowerText n = "set") :
    semanticType (n ++ "(" ++ arg ++ ")" ++ s) = some .enum := by
  have other : ¬(lowerText n = "tinyint" ∨ lowerText n = "bit") := by
    rcases listed with enum | set
    · rw [enum]
      decide
    · rw [set]
      decide
  unfold semanticType
  dsimp only
  rw [if_neg (fun written => other ((written_bit_iff name).mp written).1), if_pos ((written_list_iff name).mpr listed)]

theorem semanticType_arguments (name : Name n.toList) (suffix : Suffix s.toList) (arg : String) :
    semanticType (n ++ "(" ++ arg ++ ")" ++ s) = semanticType (n ++ s) ↔ ¬ ReadWhole n arg s := by
  rw [semanticType_plain (name.plain_opens suffix)]
  unfold ReadWhole
  by_cases one : (lowerText n = "tinyint" ∨ lowerText n = "bit") ∧ arg = "1" ∧ ∀ c ∈ s.toList, isBlank c = true
  · rw [semanticType_bit name one]
    have other := namedType?_bit name suffix one.1 one.2.2
    exact iff_of_false other.symm (not_not_intro (.inl one))
  · by_cases listed : lowerText n = "enum" ∨ lowerText n = "set"
    · rw [semanticType_listed name listed]
      exact iff_of_false (namedType?_ne_enum _).symm (not_not_intro (.inr listed))
    · refine iff_of_true ?_ (not_or.mpr ⟨one, listed⟩)
      unfold semanticType
      dsimp only
      rw [if_neg (fun written => one ((written_bit_iff name).mp written)),
        if_neg (fun written => listed ((written_list_iff name).mp written)), base_normal,
        name.base_arguments arg suffix]
      rfl

end MySql

namespace Adapter

open NativeType

variable {a : Adapter} {x y : String}

theorem semanticType_base (sql : a.isSql = true) (other : a ≠ .mySql) (same : base x = base y) :
    a.semanticType x = a.semanticType y := by
  cases a with
  | postgres | cockroachDb =>
    show Postgres.semanticType x = Postgres.semanticType y
    unfold Postgres.semanticType
    rw [same]
  | mySql => exact absurd rfl other
  | sqlite =>
    show Sqlite.semanticType x = Sqlite.semanticType y
    unfold Sqlite.semanticType
    rw [same]
  | msSql =>
    show MsSql.semanticType x = MsSql.semanticType y
    unfold MsSql.semanticType
    rw [same]
  | search => cases sql

theorem semanticType_normal (sql : a.isSql = true) (same : normal x = normal y) :
    a.semanticType x = a.semanticType y := by
  by_cases mySql : a = .mySql
  · subst mySql
    show MySql.semanticType x = MySql.semanticType y
    unfold MySql.semanticType
    rw [same]
  · exact semanticType_base sql mySql (congrArg withoutArguments same)

theorem normal_padded {left right : String} (before : ∀ c ∈ left.toList, isBlank c = true)
    (behind : ∀ c ∈ right.toList, isBlank c = true) (folded : lowerText x = lowerText y) :
    normal (left ++ x ++ right) = normal y := by
  have folded : lowerAscii x.toList = lowerAscii y.toList := String.ofList_injective folded
  unfold normal
  rw [String.toList_append, String.toList_append, trim_padded before behind, ← trim_lowerAscii, folded,
    trim_lowerAscii]

-- In every SQL adapter a type is the same with arguments and without, unless it is one that MySQL reads with them;
-- letter case and blanks around it do not count, and no text lacks the places where the arguments are cut out.
theorem arguments_ignored (a : Adapter) (sql : a.isSql = true) :
    (∀ n arg s : String, Name n.toList → Suffix s.toList →
      (a.semanticType (n ++ "(" ++ arg ++ ")" ++ s) = a.semanticType (n ++ s) ↔
        ¬(a = .mySql ∧ MySql.ReadWhole n arg s))) ∧
    (∀ left x right y : String, (∀ c ∈ left.toList, isBlank c = true) → (∀ c ∈ right.toList, isBlank c = true) →
      lowerText x = lowerText y → a.semanticType (left ++ x ++ right) = a.semanticType y) ∧
    ∀ native : String, cut? (normal native) = some (base native) := by
  refine ⟨fun n arg s name suffix => ?_, fun left x right y before behind folded => ?_, fun native => cut?_exact _⟩
  · by_cases mySql : a = .mySql
    · subst mySql
      simp only [true_and]
      exact MySql.semanticType_arguments name suffix arg
    · exact iff_of_true (semanticType_base sql mySql (name.base_arguments arg suffix)) fun whole => mySql whole.1
  · exact semanticType_normal sql (normal_padded before behind folded)

theorem limitedTexts_read : Name "varchar".toList ∧ Suffix "[]".toList ∧
    postgres.semanticType ("varchar" ++ "(" ++ "20" ++ ")" ++ "[]") = postgres.semanticType ("varchar" ++ "[]") ∧
    postgres.semanticType (" " ++ "VARCHAR(20)[]" ++ "\t") = postgres.semanticType "varchar(20)[]" := by
  have name : Name "varchar".toList := ⟨by decide, by decide, by decide, by decide⟩
  have suffix : Suffix "[]".toList := ⟨by decide, by decide⟩
  have read := arguments_ignored postgres rfl
  have cut := (read.1 "varchar" "20" "[]" name suffix).mpr fun whole => nomatch whole.1
  have space : ∀ c ∈ " ".toList, isBlank c = true := List.forall_mem_singleton.mpr rfl
  have tab : ∀ c ∈ "\t".toList, isBlank c = true := List.forall_mem_singleton.mpr rfl
  exact ⟨name, suffix, cut, read.2.1 " " "VARCHAR(20)[]" "\t" "varchar(20)[]" space tab (by decide)⟩

end Adapter

end FilterQuery
