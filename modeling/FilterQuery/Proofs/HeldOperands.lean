import FilterQuery.Proofs.OperandReading

namespace FilterQuery

def Token.toWord? : Token → Option String
  | .word text => some text
  | _ => none

-- The words of an operator.
def BinOp.spelling (d : Dialect) (op : BinOp) : List String := (Scan.of d op.symbol).finish.filterMap Token.toWord?

theorem BinOp.map_spelling {d : Dialect} {op : BinOp} (plain : d.plain op.symbol = true) :
    (op.spelling d).map .word = (Scan.of d op.symbol).finish := by
  have words := Dialect.plain_words plain
  unfold BinOp.spelling
  generalize (Scan.of d op.symbol).finish = ts at words
  induction ts with
  | nil => rfl
  | cons t rest ih =>
    rw [List.forall_mem_cons] at words
    obtain ⟨⟨-, w, rfl⟩, others⟩ := words
    exact congrArg (Token.word w :: ·) (ih others)

theorem BinOp.spelling_standard (d : Dialect) (op : BinOp) : (∃ symbol, op = custom symbol) ∨
    (op.symbol ∈ standardSymbols ∧ op.spelling d = [op.symbol]) ∨
      ∃ w ∈ standardSymbols, op.spelling d = ["NOT", w] := by
  cases op with
  | custom symbol => exact .inl ⟨symbol, rfl⟩
  | notLike => exact .inr (.inr ⟨"LIKE", by decide, by cases d <;> rfl⟩)
  | notIlike => exact .inr (.inr ⟨"ILIKE", by decide, by cases d <;> rfl⟩)
  | _ => exact .inr (.inl ⟨by decide, by cases d <;> rfl⟩)

namespace Expr

mutual
-- The tree that an expression is, brackets included. Templates, functions and subqueries are atoms.
def phrase (d : Dialect) : Expr → Phrase
  | and parts => .joined .and (phrases d isOr parts)
  | or parts => .joined .or (phrases d isAnd parts)
  | not e => .not (.group (e.phrase d))
  | notTrue e =>
    if d.testsTruth then .behind (.group (e.phrase d)) .untrue
    else .between (.flag (e.phrase d)) (.compare ["="]) (.atom [.word "0"])
  | constant b => .between (.atom [.word "1"]) (.compare ["="]) (.atom [.word (if b then "1" else "0")])
  | binary left op right =>
    .between (.bracketed left.isWeak (left.phrase d)) (.compare (op.spelling d))
      (.bracketed right.isWeak (right.phrase d))
  | inList e list negated =>
    .member (.bracketed e.isWeak (e.phrase d)) negated (phrases d (fun _ => false) list)
  | isNull e negated => .behind (.bracketed e.isWeak (e.phrase d)) (.null negated)
  | existsIn query true => .not (.atom ((existsIn query false).spelt d))
  | e => .atom (e.spelt d)

def phrases (d : Dialect) (group : Expr → Bool) : List Expr → List Phrase
  | [] => []
  | e :: rest => .bracketed (group e) (e.phrase d) :: phrases d group rest
end

-- As an operand it stays whole before a test that binds so tight. NOT binds less than every test, and so takes in
-- whatever test is put behind it.
def StaysBefore (g : Grammar) (d : Dialect) (after : Nat) : Expr → Prop
  | not _ | existsIn _ true => after < 3
  | notTrue _ => d.testsTruth = true ∨ after ≤ (Between.compare ["="]).rank g
  | _ => True

-- As an operand it stays whole where only what binds at least so tight is taken.
def StaysBehind (g : Grammar) (d : Dialect) (least : Nat) : Expr → Prop
  | not _ | existsIn _ true => least ≤ 3 ∨ g.negates = true
  | notTrue _ => least ≤ if d.testsTruth then Behind.untrue.rank g else (Between.compare ["="]).rank g
  | inList e _ negated => least ≤ (Joint.among negated).rank g ∧ e.StaysBehind g d least
  | isNull e negated => least ≤ (Behind.null negated).rank g ∧ e.StaysBehind g d least
  | _ => True

mutual
-- Every comparison, IN and IS NULL has its operands whole, and AND and OR have members.
def Held (g : Grammar) (d : Dialect) : Expr → Prop
  | binary left op right =>
    left.Held g d ∧ left.StaysBefore g d ((Between.compare (op.spelling d)).rank g) ∧
      right.Held g d ∧ right.StaysBehind g d ((Between.compare (op.spelling d)).rank g + 1)
  | inList e list negated => e.Held g d ∧ e.StaysBefore g d ((Joint.among negated).rank g) ∧ AllHeld g d list
  | isNull e negated => e.Held g d ∧ e.StaysBefore g d ((Behind.null negated).rank g)
  | and parts => parts ≠ [] ∧ AllHeld g d parts
  | or parts => parts ≠ [] ∧ AllHeld g d parts
  | not e => e.Held g d
  | notTrue e => e.Held g d
  | _ => True

def AllHeld (g : Grammar) (d : Dialect) : List Expr → Prop
  | [] => True
  | e :: rest => e.Held g d ∧ AllHeld g d rest
end

end Expr

-- An operator that SQL has, or that the grammar knows.
def BinOp.Known (g : Grammar) (d : Dialect) : BinOp → Prop
  | custom symbol => g.knows (.compare ((custom symbol).spelling d)) = true
  | _ => True

namespace Expr

mutual
-- Operators are known, and each function and template is written as one atom.
def Known (g : Grammar) (d : Dialect) : Expr → Prop
  | binary left op right => left.Known g d ∧ op.Known g d ∧ right.Known g d
  | inList e list _ => e.Known g d ∧ AllKnown g d list
  | isNull e _ => e.Known g d
  | and parts => AllKnown g d parts
  | or parts => AllKnown g d parts
  | not e => e.Known g d
  | notTrue e => e.Known g d
  | func f args => g.isAtom ((func f args).spelt d) = true
  | template text args => g.isAtom ((template text args).spelt d) = true
  | _ => True

def AllKnown (g : Grammar) (d : Dialect) : List Expr → Prop
  | [] => True
  | e :: rest => e.Known g d ∧ AllKnown g d rest
end

variable {g : Grammar} {d : Dialect} {least after : Nat}

theorem staysBefore_loose (e : Expr) (two : after ≤ 2) : e.StaysBefore g d after := by
  have three : after ≤ (Between.compare ["="]).rank g := Nat.le_trans (Nat.le_succ_of_le two) (Nat.le_add_right ..)
  unfold StaysBefore
  split
  · exact Nat.lt_succ_of_le two
  · exact Nat.lt_succ_of_le two
  · exact .inr three
  · trivial

theorem staysBehind_loose (e : Expr) (three : least ≤ 3) : e.StaysBehind g d least := by
  cases e with
  | not inner => exact .inl three
  | existsIn query negated =>
    cases negated with
    | false => trivial
    | true => exact .inl three
  | notTrue inner =>
    rw [StaysBehind]
    split
    · exact Nat.le_trans three (Nat.le_add_right ..)
    · exact Nat.le_trans three (Nat.le_add_right ..)
  | inList e list negated => exact ⟨Nat.le_trans three (Nat.le_add_right ..), staysBehind_loose e three⟩
  | isNull e negated => exact ⟨Nat.le_trans three (Nat.le_add_right ..), staysBehind_loose e three⟩
  | _ => trivial

end Expr

namespace Grammar

variable {g : Grammar} {ts : List Token}

theorem closed_select {d : Dialect} {query : Select} (plain : query.Plain d) :
    Closed (Piece.spelled d (Render.select d query)) := by
  intro around rest
  have walk := outer_of_openAfter (Render.neat_select query plain).walk around rest
  rwa [Nat.zero_add] at walk

theorem isAtom_operand {e : Expr} (operand : e.isOperand = true) : g.isAtom e.operandTokens = true := by
  cases e with
  | column table name =>
    cases table <;> exact isAtom_flat (by simp [Expr.operandTokens]) rfl (by simp [Expr.operandTokens, ends]) rfl
  | value v =>
    rw [Expr.operandTokens]
    split
    · exact isAtom_constant (by decide)
    · exact isAtom_flat (by simp) rfl (by simp [ends]) rfl
  | _ => cases operand

theorem knows_operator {d : Dialect} {op : BinOp} (known : op.Known g d) :
    g.knows (.compare (op.spelling d)) = true := by
  rcases op.spelling_standard d with ⟨symbol, rfl⟩ | ⟨member, plain⟩ | ⟨w, member, negated⟩
  · exact known
  · rw [plain]
    exact (knows_symbol member).1
  · rw [negated]
    exact (knows_symbol member).2

end Grammar

namespace Render
open Piece

variable {d : Dialect}

theorem select_begins (d : Dialect) (query : Select) : ∃ rest, spelled d (select d query) = .word "SELECT" :: rest := by
  have word : (Scan.of d "SELECT").finish = [.word "SELECT"] := by cases d <;> rfl
  obtain ⟨rest, shape⟩ : ∃ rest, select d query = .text "SELECT" :: rest := by
    cases query
    exact ⟨_, rfl⟩
  refine ⟨spelled d rest, ?_⟩
  rw [shape, spelled_text, word]
  rfl

-- Text that ends with an opening bracket, and what is closed behind it.
theorem spelled_enclosed {first : String} {front : List Token} (opens : (Scan.of d first).finish = front ++ [.opening])
    (pieces : List Piece) :
    spelled d (.text first :: pieces ++ [.text ")"]) = front ++ (.opening :: spelled d pieces ++ [.closing]) := by
  have ends : (Scan.of d ")").finish = [.closing] := by cases d <;> rfl
  simp [opens, ends]

theorem spelled_scalar (query : Select) :
    (Expr.scalar query).spelt d = .opening :: spelled d (select d query) ++ [.closing] := by
  rw [Expr.spelt, expr]
  exact spelled_bracket _

theorem spelled_exists (query : Select) :
    (Expr.existsIn query false).spelt d = .word "EXISTS" :: (.opening :: spelled d (select d query) ++ [.closing]) := by
  have opens : (Scan.of d "EXISTS (").finish = [.word "EXISTS"] ++ [.opening] := by cases d <;> rfl
  rw [Expr.spelt, expr]
  exact spelled_enclosed opens _

theorem spelled_notExists (query : Select) :
    (Expr.existsIn query true).spelt d = .word "NOT" :: (Expr.existsIn query false).spelt d := by
  have opens : (Scan.of d "NOT EXISTS (").finish = [.word "NOT", .word "EXISTS"] ++ [.opening] := by cases d <;> rfl
  rw [spelled_exists, Expr.spelt, expr]
  exact spelled_enclosed opens _

theorem spelled_not (e : Expr) : (Expr.not e).spelt d = .word "NOT" :: (.opening :: e.spelt d ++ [.closing]) := by
  have opens : (Scan.of d "NOT (").finish = [.word "NOT"] ++ [.opening] := by cases d <;> rfl
  rw [Expr.spelt, expr]
  exact spelled_enclosed opens _

theorem tokens_bracketed {t : Phrase} {pieces : List Piece} (own : t.tokens = spelled d pieces) (weak : Bool) :
    (Phrase.bracketed weak t).tokens = spelled d (grouped weak pieces) := by
  cases weak with
  | false => exact own
  | true =>
    rw [grouped, if_pos rfl, spelled_bracket, ← own]
    rfl

theorem tokens_joined {separator : String} {op : Between} (word : (Scan.of d separator).finish = op.tokens)
    (group : Expr → Bool) (parts : List Expr) (own : ∀ e ∈ parts, (e.phrase d).tokens = e.spelt d) :
    (Phrase.joined op (Expr.phrases d group parts)).tokens = spelled d (members d separator group parts) := by
  match parts with
  | [] => rfl
  | [e] => exact tokens_bracketed (own e (List.mem_cons_self ..)) (group e)
  | e :: next :: rest =>
    rw [List.forall_mem_cons] at own
    have later := tokens_joined word group (next :: rest) own.2
    rw [members_cons, spelled_append, spelled_text, word, ← later, ← tokens_bracketed own.1 (group e)]
    exact (Phrase.tokens_join ..).trans (List.append_assoc ..)

theorem tokens_member {subject : Phrase} {pieces : List Piece} (own : subject.tokens = spelled d pieces)
    (negated : Bool) (list : List Expr) (each : ∀ e ∈ list, (e.phrase d).tokens = e.spelt d) :
    (Phrase.member subject negated (Expr.phrases d (fun _ => false) list)).tokens =
      spelled d (pieces ++ Piece.keyword (if negated then "NOT IN" else "IN") ++
        .text " (" :: members d ", " (fun _ => false) list ++ [.text ")"]) := by
  have comma : (Scan.of d ", ").finish = Between.comma.tokens := by cases d <;> rfl
  have word : (Scan.of d (if negated then "NOT IN" else "IN")).finish = inWords negated := by
    cases negated <;> cases d <;> rfl
  have begins : (Scan.of d " (").finish = [.opening] := by cases d <;> rfl
  have ends : (Scan.of d ")").finish = [.closing] := by cases d <;> rfl
  have items := tokens_joined comma (fun _ => false) list each
  cases list with
  | nil =>
    simp [Phrase.member, Expr.phrases, Phrase.tokens, Behind.tokens, members, own, word, begins, ends, Piece.keyword]
  | cons e rest =>
    simp only [Expr.phrases] at items
    simp [Phrase.member, Expr.phrases, Phrase.tokens, own, word, begins, ends, Piece.keyword, ← items]

mutual
-- The tree has the text of the expression.
theorem tokens_phrase (e : Expr) (plain : e.Plain d) : (e.phrase d).tokens = e.spelt d := by
  cases e with
  | and parts =>
    have word : (Scan.of d " AND ").finish = Between.and.tokens := by cases d <;> rfl
    exact tokens_joined word Expr.isOr parts (tokens_phrases parts plain)
  | or parts =>
    have word : (Scan.of d " OR ").finish = Between.or.tokens := by cases d <;> rfl
    exact tokens_joined word Expr.isAnd parts (tokens_phrases parts plain)
  | not e => rw [Expr.phrase, Phrase.tokens, Phrase.tokens, tokens_phrase e plain, spelled_not]
  | notTrue e =>
    have own := tokens_phrase e plain
    have opens : (Scan.of d "(").finish = [.opening] := by cases d <;> rfl
    have closes : (Scan.of d ") IS NOT TRUE").finish = .closing :: Behind.untrue.tokens := by cases d <;> rfl
    have begins : (Scan.of d "CASE WHEN ").finish = ["CASE", "WHEN"].map .word := by cases d <;> rfl
    have ends : (Scan.of d " THEN 1 ELSE 0 END = 0").finish =
        ["THEN", "1", "ELSE", "0", "END", "=", "0"].map .word := by cases d <;> rfl
    rw [Expr.spelt] at own
    rw [Expr.phrase, Expr.spelt, expr, notTrue]
    cases d.testsTruth with
    | true => simp [Phrase.tokens, own, opens, closes]
    | false => simp [Phrase.tokens, Between.tokens, own, begins, ends]
  | constant b => cases b <;> cases d <;> rfl
  | binary left op right =>
    rw [Expr.Plain] at plain
    have first := tokens_bracketed (tokens_phrase left plain.1) left.isWeak
    have second := tokens_bracketed (tokens_phrase right plain.2.2) right.isWeak
    simp [Expr.phrase, Phrase.tokens, Between.tokens, Expr.spelt, expr, Piece.keyword, first, second,
      BinOp.map_spelling plain.2.1]
  | inList e list negated =>
    rw [Expr.Plain] at plain
    have own := tokens_bracketed (tokens_phrase e plain.1) e.isWeak
    exact tokens_member own negated list (tokens_phrases list plain.2)
  | isNull e negated =>
    have own := tokens_bracketed (tokens_phrase e plain) e.isWeak
    have word : (Scan.of d (if negated then "IS NOT NULL" else "IS NULL")).finish = (Behind.null negated).tokens := by
      cases negated <;> cases d <;> rfl
    simp [Expr.phrase, Phrase.tokens, Expr.spelt, expr, Piece.keyword, own, word]
  | existsIn query negated =>
    cases negated with
    | false => rfl
    | true => rw [Expr.phrase, Phrase.tokens, Phrase.tokens, spelled_notExists]
  | _ => rfl

theorem tokens_phrases (parts : List Expr) (plain : Expr.AllPlain d parts) :
    ∀ e ∈ parts, (e.phrase d).tokens = e.spelt d := by
  cases parts with
  | nil => exact nofun
  | cons e rest => exact List.forall_mem_cons.mpr ⟨tokens_phrase e plain.1, tokens_phrases rest plain.2⟩
end

end Render

namespace Expr

variable {g : Grammar} {d : Dialect} {least after : Nat} {e left right : Expr} {op : BinOp} {list parts : List Expr}

-- Beside words as loose as AND the tree holds together just if all in it does; as an operand, in parentheses where it
-- is weak, just if it stays whole as well.
structure Graded (g : Grammar) (d : Dialect) (e : Expr) : Prop where
  settles : ∀ most, (e.isOr = true → most ≤ 1) → most ≤ 2 → (e.phrase d).Settles g most (e.Held g d)
  operand : ∀ least after, (Phrase.bracketed e.isWeak (e.phrase d)).Correct g least after ↔
    e.Held g d ∧ e.StaysBehind g d least ∧ e.StaysBefore g d after

namespace Graded

-- What gets no parentheses binds tighter than the words that join conditions.
theorem of_bare (bare : e.isWeak = false) (correct : ∀ least after, (e.phrase d).Correct g least after ↔
    e.Held g d ∧ e.StaysBehind g d least ∧ e.StaysBefore g d after) : Graded g d e := by
  constructor
  · intro most _ two least after tight loose
    rw [correct]
    have behind : e.StaysBehind g d least := staysBehind_loose e (Nat.le_succ_of_le (Nat.le_trans tight two))
    have before : e.StaysBefore g d after := staysBefore_loose e (Nat.le_trans loose two)
    exact and_iff_left ⟨behind, before⟩
  · rw [bare]
    exact correct

theorem whole (graded : Graded g d e) : (e.phrase d).Correct g 1 0 ↔ e.Held g d :=
  graded.settles 1 (fun _ => Nat.le_refl 1) (Nat.le_succ 1) 1 0 (Nat.le_refl 1) (Nat.zero_le 1)

theorem of_weak (weak : e.isWeak = true)
    (settles : ∀ most, (e.isOr = true → most ≤ 1) → most ≤ 2 → (e.phrase d).Settles g most (e.Held g d)) :
    Graded g d e := by
  refine ⟨settles, ?_⟩
  intro least after
  have inner := settles 1 (fun _ => Nat.le_refl 1) (Nat.le_succ 1) 1 0 (Nat.le_refl 1) (Nat.zero_le 1)
  have behind : e.StaysBehind g d least := by cases e <;> trivial
  have before : e.StaysBefore g d after := by cases e <;> trivial
  rw [weak]
  exact inner.trans (and_iff_left ⟨behind, before⟩).symm

theorem atom (bare : e.isWeak = false) (own : e.phrase d = .atom (e.spelt d)) (one : g.isAtom (e.spelt d) = true)
    (held : e.Held g d) (behind : ∀ least, e.StaysBehind g d least) (before : ∀ after, e.StaysBefore g d after) :
    Graded g d e := by
  refine .of_bare bare fun least after => ?_
  rw [own]
  exact iff_of_true one ⟨held, behind least, before after⟩

theorem binary (known : op.Known g d) (first : left.Graded g d) (second : right.Graded g d) :
    (Expr.binary left op right).Graded g d := by
  refine .of_weak rfl fun most _ two least after tight loose => ?_
  have bound : 2 ≤ (Between.compare (op.spelling d)).rank g := Nat.le_trans (Nat.le_succ 2) (Nat.le_add_right ..)
  rw [Expr.phrase, Phrase.Correct, first.operand, second.operand]
  constructor
  · intro ⟨_, _, _, ⟨held, _, before⟩, held', behind, _⟩
    exact ⟨held, before, held', behind⟩
  · intro ⟨held, before, held', behind⟩
    have tight_two := Nat.le_trans tight two
    have loose_two := Nat.le_trans loose two
    have free : left.StaysBehind g d least := staysBehind_loose left (Nat.le_succ_of_le tight_two)
    have free' : right.StaysBefore g d after := staysBefore_loose right loose_two
    exact ⟨Grammar.knows_operator known, Nat.le_trans tight_two bound, Nat.le_trans loose_two bound,
      ⟨held, free, before⟩, held', behind, free'⟩

theorem isNull (graded : e.Graded g d) (negated : Bool) : (Expr.isNull e negated).Graded g d := by
  refine .of_bare rfl fun least after => ?_
  rw [Expr.phrase, Phrase.Correct, graded.operand]
  constructor
  · intro ⟨tight, held, behind, before⟩
    exact ⟨⟨held, before⟩, ⟨tight, behind⟩, trivial⟩
  · intro ⟨⟨held, before⟩, ⟨tight, behind⟩, _⟩
    exact ⟨tight, held, behind, before⟩

theorem not (graded : e.Graded g d) : (Expr.not e).Graded g d := by
  refine .of_bare rfl fun least after => ?_
  rw [Expr.phrase, Phrase.Correct, Phrase.Correct, graded.whole]
  constructor
  · intro ⟨free, loose, held⟩
    exact ⟨held, free, loose⟩
  · intro ⟨held, free, loose⟩
    exact ⟨free, loose, held⟩

-- The members of AND or OR, or the items of a list.
theorem joined (op : Between) (word : op.rank g ≤ 2) (group : Expr → Bool)
    (fits : ∀ e, e.isOr = true → group e = false → op.rank g ≤ 1) (parts : List Expr) (nonempty : parts ≠ [])
    (graded : ∀ e ∈ parts, e.Graded g d) :
    (Phrase.joined op (phrases d group parts)).Settles g (op.rank g) (AllHeld g d parts) := by
  have member : ∀ {e}, e.Graded g d →
      (Phrase.bracketed (group e) (e.phrase d)).Settles g (op.rank g) (e.Held g d) := by
    intro e graded
    cases grouped : group e with
    | false => exact graded.settles _ (fun isOr => fits e isOr grouped) word
    | true => exact (graded.settles 1 (fun _ => Nat.le_refl 1) (Nat.le_succ 1)).group _
  match parts with
  | [] => exact absurd rfl nonempty
  | [e] =>
    intro least after tight loose
    exact (member (graded e (List.mem_cons_self ..)) least after tight loose).trans (and_iff_left trivial).symm
  | e :: next :: rest =>
    rw [List.forall_mem_cons] at graded
    exact .join word (member graded.1) (joined op word group fits (next :: rest) (List.cons_ne_nil next rest) graded.2)

-- Without members nothing is written, and nothing can be read.
theorem junction (op : Between) (word : op.rank g ≤ 2) (group : Expr → Bool)
    (fits : ∀ e, e.isOr = true → group e = false → op.rank g ≤ 1) (graded : ∀ e ∈ parts, e.Graded g d) :
    (Phrase.joined op (phrases d group parts)).Settles g (op.rank g) (parts ≠ [] ∧ AllHeld g d parts) := by
  intro least after tight loose
  cases parts with
  | nil =>
    constructor
    · intro correct
      cases correct
    · intro members
      exact absurd rfl members.1
  | cons first rest =>
    have settles := joined op word group fits _ (List.cons_ne_nil first rest) graded least after tight loose
    exact settles.trans (and_iff_right (List.cons_ne_nil first rest)).symm

theorem and (graded : ∀ e ∈ parts, e.Graded g d) : (Expr.and parts).Graded g d := by
  have fits : ∀ e : Expr, e.isOr = true → e.isOr = false → Between.and.rank g ≤ 1 := by
    intro e isOr bare
    cases isOr.symm.trans bare
  exact .of_weak rfl fun most _ two => (junction .and (Nat.le_refl 2) isOr fits graded).mono two

theorem or (graded : ∀ e ∈ parts, e.Graded g d) : (Expr.or parts).Graded g d :=
  .of_weak rfl fun _ one _ => (junction .or (Nat.le_succ 1) isAnd (fun _ _ _ => Nat.le_refl 1) graded).mono (one rfl)

theorem inList (graded : e.Graded g d) (items : ∀ x ∈ list, x.Graded g d) (negated : Bool) :
    (Expr.inList e list negated).Graded g d := by
  refine .of_bare rfl fun least after => ?_
  let subject := Phrase.bracketed e.isWeak (e.phrase d)
  have own : (Phrase.member subject negated (phrases d (fun _ => false) list)).Correct g least after ↔
      least ≤ (Joint.among negated).rank g ∧ subject.Correct g least ((Joint.among negated).rank g) ∧
        AllHeld g d list := by
    cases list with
    | nil =>
      refine and_congr_right fun _ => ?_
      exact (and_iff_left trivial).symm
    | cons first rest =>
      have settles := joined .comma (Nat.zero_le 2) (fun _ => false) (fun _ _ _ => Nat.zero_le 1) _
        (List.cons_ne_nil first rest) items
      refine and_congr_right fun _ => and_congr_right fun _ => ?_
      exact settles 0 0 (Nat.le_refl 0) (Nat.le_refl 0)
  rw [Expr.phrase, own, graded.operand]
  constructor
  · intro ⟨tight, ⟨held, behind, before⟩, all⟩
    exact ⟨⟨held, before, all⟩, ⟨tight, behind⟩, trivial⟩
  · intro ⟨⟨held, before, all⟩, ⟨tight, behind⟩, _⟩
    exact ⟨tight, ⟨held, behind, before⟩, all⟩

theorem notTrue (graded : e.Graded g d) : (Expr.notTrue e).Graded g d := by
  refine .of_bare rfl fun least after => ?_
  have equals : g.knows (.compare ["="]) = true := (Grammar.knows_symbol (by decide)).1
  have zero : g.isAtom [.word "0"] = true := Grammar.isAtom_constant (by decide)
  have own : (Expr.notTrue e).Held g d = e.Held g d := rfl
  rw [Expr.phrase, own, StaysBefore, StaysBehind]
  cases d.testsTruth with
  | true =>
    rw [if_pos rfl, if_pos rfl, Phrase.Correct, Phrase.Correct, graded.whole]
    constructor
    · intro ⟨tight, held⟩
      exact ⟨held, tight, .inl rfl⟩
    · intro ⟨held, tight, _⟩
      exact ⟨tight, held⟩
  | false =>
    rw [if_neg (by simp), if_neg (by simp), Phrase.Correct, Phrase.Correct, Phrase.Correct, graded.whole]
    constructor
    · intro ⟨_, tight, loose, held, _⟩
      exact ⟨held, tight, .inr loose⟩
    · intro ⟨held, tight, loose⟩
      exact ⟨equals, tight, loose.resolve_left (by simp), held, zero⟩

theorem constant (b : Bool) : (Expr.constant b).Graded g d := by
  refine .of_weak rfl fun most _ two least after tight loose => ?_
  have bound : 2 ≤ (Between.compare ["="]).rank g := Nat.le_trans (Nat.le_succ 2) (Nat.le_add_right ..)
  have equals : g.knows (.compare ["="]) = true := (Grammar.knows_symbol (by decide)).1
  have last : g.isAtom [.word (if b then "1" else "0")] = true := by
    cases b <;> exact Grammar.isAtom_constant (by decide)
  have tighter := Nat.le_trans (Nat.le_trans tight two) bound
  have looser := Nat.le_trans (Nat.le_trans loose two) bound
  exact iff_of_true ⟨equals, tighter, looser, Grammar.isAtom_constant (by decide), last⟩ trivial

theorem existsIn {query : Select} (plain : query.Plain d) (negated : Bool) :
    (Expr.existsIn query negated).Graded g d := by
  have one : g.isAtom ((Expr.existsIn query false).spelt d) = true := by
    rw [Render.spelled_exists]
    exact Grammar.isAtom_exists (Grammar.closed_select plain)
  cases negated with
  | false => exact .atom rfl rfl one trivial (fun _ => trivial) (fun _ => trivial)
  | true =>
    refine .of_bare rfl fun least after => ?_
    constructor
    · intro ⟨free, loose, _⟩
      exact ⟨trivial, free, loose⟩
    · intro ⟨_, free, loose⟩
      exact ⟨free, loose, one⟩

theorem scalar {query : Select} (plain : query.Plain d) : (Expr.scalar query).Graded g d := by
  have one : g.isAtom ((Expr.scalar query).spelt d) = true := by
    have closed := Grammar.closed_select plain
    obtain ⟨rest, shape⟩ := Render.select_begins d query
    rw [Render.spelled_scalar, shape]
    rw [shape] at closed
    exact Grammar.isAtom_select closed
  exact .atom rfl rfl one trivial (fun _ => trivial) (fun _ => trivial)

theorem simple (operand : e.isOperand = true) : e.Graded g d := by
  have one : g.isAtom (e.spelt d) = true := by
    rw [Expr.spelt, Render.spelled_operand operand]
    exact Grammar.isAtom_operand operand
  cases e with
  | column | value => exact .atom rfl rfl one trivial (fun _ => trivial) (fun _ => trivial)
  | _ => cases operand

end Graded

mutual
theorem graded_of_known (e : Expr) (plain : e.Plain d) (known : e.Known g d) : e.Graded g d := by
  cases e with
  | column | value => exact .simple rfl
  | binary left op right =>
    obtain ⟨first, own, second⟩ := known
    rw [Plain] at plain
    exact .binary own (graded_of_known left plain.1 first) (graded_of_known right plain.2.2 second)
  | inList e list negated =>
    rw [Plain] at plain
    exact .inList (graded_of_known e plain.1 known.1) (each_graded list plain.2 known.2) negated
  | isNull e negated => exact .isNull (graded_of_known e plain known) negated
  | and parts => exact .and (each_graded parts plain known)
  | or parts => exact .or (each_graded parts plain known)
  | not e => exact .not (graded_of_known e plain known)
  | notTrue e => exact .notTrue (graded_of_known e plain known)
  | func | template => exact .atom rfl rfl known trivial (fun _ => trivial) (fun _ => trivial)
  | existsIn query negated => exact .existsIn plain negated
  | scalar query => exact .scalar plain
  | constant b => exact .constant b

theorem each_graded (parts : List Expr) (plain : AllPlain d parts) (known : AllKnown g d parts) :
    ∀ e ∈ parts, e.Graded g d := by
  cases parts with
  | nil => exact nofun
  | cons e rest => exact List.forall_mem_cons.mpr ⟨graded_of_known e plain.1 known.1, each_graded rest plain.2 known.2⟩
end

-- On its own the tree holds together just if every test in it has its operands whole.
theorem correct_iff_held (e : Expr) (plain : e.Plain d) (known : e.Known g d) :
    (e.phrase d).Correct g 1 0 ↔ e.Held g d :=
  (graded_of_known e plain known).whole

end Expr

namespace Render

variable {g : Grammar} {d : Dialect}

-- The text of an expression, read where it stands.
theorem expr_read (g : Grammar) {e : Expr} (plain : e.Plain d) (w : Writer) : ∃ text values,
    w.putAll d.placeholder (expr d e) = ⟨w.sql ++ text, w.values ++ values⟩ ∧
      ∀ later, (d.tokens? w.values.length (w.values ++ values ++ later) text).bind g.read? = g.read? (e.spelt d) := by
  obtain ⟨text, values, written, tokens⟩ := (neat_expr e plain).legible.reads w
  refine ⟨text, values, written, ?_⟩
  intro later
  rw [tokens]
  rfl

-- Wherever in a statement it is written, the text of an expression is read as its tree, just if every comparison, IN
-- and IS NULL in it has its operands whole.
theorem operands_read (g : Grammar) (d : Dialect) {e : Expr} (plain : e.Plain d) (known : e.Known g d) (w : Writer) :
    ∃ text values, w.putAll d.placeholder (expr d e) = ⟨w.sql ++ text, w.values ++ values⟩ ∧
      ∀ later, (d.tokens? w.values.length (w.values ++ values ++ later) text).bind g.read? = some (e.phrase d) ↔
        e.Held g d := by
  obtain ⟨text, values, written, read⟩ := expr_read g plain w
  refine ⟨text, values, written, ?_⟩
  intro later
  rw [read, Grammar.read_iff, e.correct_iff_held plain known]
  exact and_iff_right (tokens_phrase e plain)

-- A test behind a negation is read as a part of what is negated.
theorem negation_read {e : Expr} (plain : e.Plain d) (known : e.Known g d) (held : e.Held g d) (negated : Bool) :
    g.read? ((Expr.isNull (.not e) negated).spelt d) =
      some (.not (.behind (.group (e.phrase d)) (.null negated))) := by
  have own := tokens_phrase (.isNull (.not e) negated) (d := d) plain
  rw [Grammar.read_iff, ← own]
  have inner : (e.phrase d).Correct g 1 0 := (e.correct_iff_held plain known).mpr held
  exact ⟨rfl, .inl (Nat.le_add_left 1 2), Nat.zero_lt_succ 2, Nat.le_add_right 3 _, inner⟩

end Render

-- IS binds less than a comparison, LIKE and IN more.
def Grammar.postgres : Grammar where
  isSymbol w := standardSymbols.contains w
  comparison words := if words.contains "LIKE" || words.contains "ILIKE" then 2 else 1
  membership := 2
  nullity := 0
  negates := false
  symbols := by decide
  others := by decide

-- Weak operands on both sides, tests of tests, and IN behind a comparison.
def vetted : Expr :=
  .and [
    .isNull (.or [.binary (.column none "a") .lt (.column none "b"), .constant false]) true,
    .binary (.and [.isNull (.column none "c") false, .existsIn (Select.new "orders") true]) .ne (.value (.bool true)),
    .inList (.notTrue (.not (.isNull (.column none "d") false))) [.value (.bool true), .not (.column none "e")] true,
    .or [
      .binary (.func "lower" [.column none "name"]) .notLike (.value (.string "a%")),
      .binary (.column none "f") .eq (.inList (.scalar (Select.new "items")) [.value (.int 1)] false)]]

theorem vetted_plain : vetted.Plain .postgres := by
  simp [vetted, Select.new, Select.Plain, Select.JoinsPlain, Select.OrdersPlain, Expr.AllPlain, Expr.Plain]
  decide

theorem vetted_known : vetted.Known .postgres .postgres := by
  simp [vetted, Expr.Known, Expr.AllKnown, BinOp.Known]
  decide

theorem vetted_held : vetted.Held .postgres .postgres := by
  simp [vetted, Expr.Held, Expr.AllHeld, Expr.StaysBefore, Expr.StaysBehind]
  decide

theorem vetted_read :
    vetted.Plain .postgres ∧ vetted.Known .postgres .postgres ∧ vetted.Held .postgres .postgres ∧
    ∃ text values, Writer.empty.putAll Dialect.postgres.placeholder (Render.expr .postgres vetted) = ⟨text, values⟩ ∧
      (Dialect.postgres.tokens? 0 values text).bind Grammar.postgres.read? = some (vetted.phrase .postgres) := by
  obtain ⟨text, values, written, read⟩ :=
    Render.operands_read .postgres .postgres vetted_plain vetted_known Writer.empty
  have found := (read []).mpr vetted_held
  simp only [Writer.empty, String.empty_append, List.nil_append, List.append_nil] at written found
  exact ⟨vetted_plain, vetted_known, vetted_held, text, values, written, found⟩

def equal : Expr := .binary (.column none "a") .eq (.column none "b")

-- Is it unknown whether they differ? The text asks whether that is known.
theorem negation_escapes :
    (Writer.empty.putAll Dialect.postgres.placeholder (Render.expr .postgres (.isNull (.not equal) false))).sql =
      "NOT (\"a\" = \"b\") IS NULL" ∧
    Grammar.postgres.read? ((Expr.isNull (.not equal) false).spelt .postgres) =
      some (.not (.behind (.group (.between (.atom [.name "a"]) (.compare ["="]) (.atom [.name "b"]))) (.null false))) ∧
    ¬∀ (g : Grammar) (d : Dialect) (e : Expr) (negated : Bool), e.Plain d → e.Known g d → ∀ w : Writer, ∃ text values,
      w.putAll d.placeholder (Render.expr d (.isNull e negated)) = ⟨w.sql ++ text, w.values ++ values⟩ ∧
        ∀ later, (d.tokens? w.values.length (w.values ++ values ++ later) text).bind g.read? =
          some ((Expr.isNull e negated).phrase d) := by
  have plain : equal.Plain .postgres := ⟨trivial, rfl, trivial⟩
  have known : equal.Known .postgres .postgres := ⟨trivial, trivial, trivial⟩
  have held : equal.Held .postgres .postgres := ⟨trivial, trivial, trivial, trivial⟩
  have misread := Render.negation_read plain known held false
  refine ⟨rfl, misread, ?_⟩
  intro claimed
  obtain ⟨text, values, written, read⟩ := claimed .postgres .postgres (.not equal) false plain known Writer.empty
  have whole : (Expr.isNull (.not equal) false).Plain .postgres := plain
  obtain ⟨text', values', written', read'⟩ := Render.expr_read .postgres whole Writer.empty
  simp only [Writer.empty, String.empty_append, List.nil_append] at written written' read read'
  cases written.symm.trans written'
  cases (read []).symm.trans ((read' []).trans misread)

end FilterQuery
