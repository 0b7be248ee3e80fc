import Mathlib.Data.List.Infix

namespace FilterQuery

-- A part of a pattern: any run of characters, or one character that passes a test.
inductive PatternPart where
  | many
  | one (takes : Char → Bool)

namespace PatternPart

def anything : PatternPart := one fun _ => true

def exactly (c : Char) : PatternPart := one (· == c)

def accept : List PatternPart → List Char → Bool
  | [], t => t.isEmpty
  | many :: ps, t => t.tails.any (accept ps)
  | one _ :: _, [] => false
  | one takes :: ps, c :: t => takes c && accept ps t

variable {ps : List PatternPart} {s t : List Char}

theorem accept_many :
    accept (many :: ps) t = true ↔ ∃ skipped rest, t = skipped ++ rest ∧ accept ps rest = true := by
  simp only [accept, List.any_eq_true, List.mem_tails]
  constructor
  · intro ⟨rest, ⟨skipped, split⟩, accepted⟩
    exact ⟨skipped, rest, split.symm, accepted⟩
  · intro ⟨skipped, rest, split, accepted⟩
    exact ⟨rest, ⟨skipped, split.symm⟩, accepted⟩

theorem accept_exactly :
    accept (s.map exactly ++ ps) t = true ↔ ∃ rest, t = s ++ rest ∧ accept ps rest = true := by
  induction s generalizing t with
  | nil => simp
  | cons c s ih =>
    cases t with
    | nil => simp [exactly, accept]
    | cons d t =>
      simp only [List.map_cons, List.cons_append, exactly, accept, Bool.and_eq_true, beq_iff_eq, List.cons.injEq]
      rw [ih]
      constructor
      · intro ⟨same, rest, split, accepted⟩
        exact ⟨rest, ⟨same, split⟩, accepted⟩
      · intro ⟨rest, ⟨same, split⟩, accepted⟩
        exact ⟨same, rest, split, accepted⟩

theorem accept_text : accept (s.map exactly) t = true ↔ t = s := by
  have empty : ∀ rest : List Char, accept [] rest = true ↔ rest = [] := fun _ => List.isEmpty_iff
  have text : accept (s.map exactly ++ []) t = true ↔ ∃ rest, t = s ++ rest ∧ accept [] rest = true := accept_exactly
  simp only [List.append_nil, empty, exists_eq_right] at text
  exact text

theorem accept_anything : accept [many] t = true :=
  accept_many.mpr ⟨t, [], (List.append_nil t).symm, rfl⟩

theorem accept_start : accept (s.map exactly ++ [many]) t = true ↔ s <+: t := by
  rw [accept_exactly]
  constructor
  · intro ⟨rest, split, _⟩
    exact ⟨rest, split.symm⟩
  · intro ⟨rest, split⟩
    exact ⟨rest, split.symm, accept_anything⟩

theorem accept_end : accept (many :: s.map exactly) t = true ↔ s <:+ t := by
  rw [accept_many]
  constructor
  · intro ⟨skipped, rest, split, accepted⟩
    cases accept_text.mp accepted
    exact ⟨skipped, split.symm⟩
  · intro ⟨skipped, split⟩
    exact ⟨skipped, s, split.symm, accept_text.mpr rfl⟩

theorem accept_within : accept (many :: s.map exactly ++ [many]) t = true ↔ s <:+: t := by
  rw [List.cons_append, accept_many]
  constructor
  · intro ⟨skipped, rest, split, accepted⟩
    obtain ⟨left, rfl⟩ := accept_start.mp accepted
    exact ⟨skipped, left, by rw [split, List.append_assoc]⟩
  · intro ⟨skipped, left, split⟩
    exact ⟨skipped, s ++ left, by rw [← split, List.append_assoc], accept_start.mpr ⟨left, rfl⟩⟩

end PatternPart

-- What brackets are: ordinary characters, or a class. Behind the opening one the closing one may be a member.
inductive Brackets where
  | ordinary
  | classes
  | closingFirst
  deriving DecidableEq

structure PatternLanguage where
  many : Char
  one : Char
  escape : Option Char
  brackets : Brackets

-- A character of a pattern; what is escaped has no meaning of its own.
structure PatternChar where
  char : Char
  escaped : Bool
  deriving DecidableEq

theorem PatternChar.ne_of_char {c d : Char} {escaped : Bool} (other : c ≠ d) :
    (⟨c, escaped⟩ : PatternChar) ≠ ⟨d, false⟩ := fun same => other (PatternChar.mk.inj same).1

theorem PatternChar.escaped_ne (c d : Char) : (⟨c, true⟩ : PatternChar) ≠ ⟨d, false⟩ :=
  fun same => Bool.noConfusion (PatternChar.mk.inj same).2

namespace PatternLanguage

def like (escape : Option Char) (brackets : Brackets) : PatternLanguage := ⟨'%', '_', escape, brackets⟩

def glob : PatternLanguage := ⟨'*', '?', none, .closingFirst⟩

def wildcard : PatternLanguage := ⟨'*', '?', some '\\', .ordinary⟩

-- A hyphen between two members makes them a range; a closing bracket begins none.
def inClass (c : Char) : Option Char → List PatternChar → Bool
  | _, [] => false
  | some low, ⟨'-', false⟩ :: high :: rest => (low ≤ c && c ≤ high.char) || inClass c none rest
  | _, sign :: rest => c == sign.char || inClass c (if sign = ⟨']', false⟩ then none else some sign.char) rest

inductive Mode where
  | outside
  | inside (negated : Bool) (members : List PatternChar)

-- The parts of a pattern, read from left to right. A class that is never closed and an escape with nothing behind it
-- make it no pattern at all.
def read (lang : PatternLanguage) : Mode → Bool → List Char → Option (List PatternPart)
  | .outside, false, [] => some []
  | _, _, [] => none
  | mode, escaped, c :: rest =>
    if lang.escape = some c ∧ escaped = false then lang.read mode true rest
    else
      let sign : PatternChar := ⟨c, escaped⟩
      match mode with
      | .outside =>
        if sign = ⟨lang.many, false⟩ then (lang.read .outside false rest).map (.many :: ·)
        else if sign = ⟨lang.one, false⟩ then (lang.read .outside false rest).map (.anything :: ·)
        else if sign = ⟨'[', false⟩ ∧ lang.brackets ≠ .ordinary then lang.read (.inside false []) false rest
        else (lang.read .outside false rest).map (.exactly c :: ·)
      | .inside negated members =>
        if sign = ⟨'^', false⟩ ∧ negated = false ∧ members = [] then lang.read (.inside true []) false rest
        else if sign = ⟨']', false⟩ ∧ ¬ (lang.brackets = .closingFirst ∧ members = []) then
          (lang.read .outside false rest).map (.one (fun d => inClass d none members != negated) :: ·)
        else lang.read (.inside negated (members ++ [sign])) false rest

-- What is no pattern matches nothing.
def accepts (lang : PatternLanguage) (pattern text : List Char) : Bool :=
  ((lang.read .outside false pattern).map (PatternPart.accept · text)).getD false

-- The text is read as these parts, whatever is behind it.
def Writes (lang : PatternLanguage) (cs : List Char) (ps : List PatternPart) : Prop :=
  ∀ rest, lang.read .outside false (cs ++ rest) = (lang.read .outside false rest).map (ps ++ ·)

variable {lang : PatternLanguage} {cs ds : List Char} {ps qs : List PatternPart}

namespace Writes

theorem nil : lang.Writes [] [] := fun rest => by simp

theorem append (first : lang.Writes cs ps) (second : lang.Writes ds qs) : lang.Writes (cs ++ ds) (ps ++ qs) := by
  intro rest
  rw [List.append_assoc, first, second, Option.map_map]
  exact congrArg (Option.map · _) (funext fun more => (List.append_assoc ps qs more).symm)

theorem flatMap {write : Char → List Char} {part : Char → PatternPart} (each : ∀ c, lang.Writes (write c) [part c])
    (s : List Char) : lang.Writes (s.flatMap write) (s.map part) := by
  induction s with
  | nil => exact nil
  | cons c s ih => exact (each c).append ih

theorem accepts (written : lang.Writes cs ps) (t : List Char) : lang.accepts cs t = PatternPart.accept ps t := by
  have alone := written []
  rw [List.append_nil] at alone
  rw [PatternLanguage.accepts, alone]
  simp [read]

end Writes

theorem writes_many (lang : PatternLanguage) (plain : lang.escape ≠ some lang.many) :
    lang.Writes [lang.many] [.many] := by
  intro rest
  rw [List.singleton_append, read, if_neg fun special => plain special.1]
  exact if_pos rfl

theorem writes_one (lang : PatternLanguage) (plain : lang.escape ≠ some lang.one) (other : lang.one ≠ lang.many) :
    lang.Writes [lang.one] [.anything] := by
  intro rest
  rw [List.singleton_append, read, if_neg fun special => plain special.1]
  dsimp only
  rw [if_neg (PatternChar.ne_of_char other), if_pos rfl]
  rfl

-- A character without a meaning stands for itself.
theorem writes_plain {c : Char} (plain : lang.escape ≠ some c) (many : c ≠ lang.many) (one : c ≠ lang.one)
    (bracket : c = '[' → lang.brackets = .ordinary) : lang.Writes [c] [.exactly c] := by
  intro rest
  rw [List.singleton_append, read, if_neg fun special => plain special.1]
  dsimp only
  rw [if_neg (PatternChar.ne_of_char many), if_neg (PatternChar.ne_of_char one),
    if_neg fun special => special.2 (bracket (PatternChar.mk.inj special.1).1)]
  rfl

-- So does any character behind the escape.
theorem writes_escaped {e : Char} (escape : lang.escape = some e) (c : Char) : lang.Writes [e, c] [.exactly c] := by
  intro rest
  rw [List.cons_append, List.singleton_append, read, if_pos ⟨escape, rfl⟩, read, if_neg nofun]
  dsimp only
  rw [if_neg (PatternChar.escaped_ne c _), if_neg (PatternChar.escaped_ne c _),
    if_neg fun special => PatternChar.escaped_ne c _ special.1]
  rfl

-- And the one member of a class.
theorem glob_class {c : Char} (closing : c ≠ ']') (caret : c ≠ '^') : glob.Writes ['[', c, ']'] [.exactly c] := by
  intro rest
  have inside : glob.read (.inside false []) false (c :: ']' :: rest) =
      glob.read (.inside false [⟨c, false⟩]) false (']' :: rest) := by
    rw [read, if_neg nofun]
    dsimp only
    rw [if_neg fun special => PatternChar.ne_of_char caret special.1,
      if_neg fun special => PatternChar.ne_of_char closing special.1]
    rfl
  have member : (fun d => inClass d none [⟨c, false⟩] != false) = (· == c) := by
    funext d
    simp [inClass]
  calc glob.read .outside false ('[' :: c :: ']' :: rest)
    _ = glob.read (.inside false []) false (c :: ']' :: rest) := rfl
    _ = glob.read (.inside false [⟨c, false⟩]) false (']' :: rest) := inside
    _ = (glob.read .outside false rest).map (.one (fun d => inClass d none [⟨c, false⟩] != false) :: ·) := rfl
    _ = (glob.read .outside false rest).map (.exactly c :: ·) := by rw [member]; rfl

end PatternLanguage
end FilterQuery
