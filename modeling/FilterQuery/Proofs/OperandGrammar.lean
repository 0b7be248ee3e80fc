import FilterQuery.Proofs.SortTerms

namespace FilterQuery

-- What stands between two operands.
inductive Between where
  | comma
  | or
  | and
  | compare (words : List String)
  deriving DecidableEq

-- What stands behind one.
inductive Behind where
  | null (negated : Bool)
  | untrue
  -- IN, with nothing in its brackets.
  | nothing (negated : Bool)
  deriving DecidableEq

inductive Phrase where
  | atom (tokens : List Token)
  | group (inner : Phrase)
  | not (inner : Phrase)
  -- 1 where the test holds and 0 elsewhere.
  | flag (test : Phrase)
  | between (left : Phrase) (joint : Between) (right : Phrase)
  | behind (subject : Phrase) (test : Behind)
  | among (subject : Phrase) (negated : Bool) (items : Phrase)

inductive Joint where
  | between (joint : Between)
  | behind (test : Behind)
  | among (negated : Bool)

def standardSymbols : List String := ["=", "<>", ">", ">=", "<", "<=", "LIKE", "ILIKE"]

-- The words around operands, and those of constants.
def connectives : List String :=
  ["AND", "OR", "NOT", "IS", "IN", "CASE", "WHEN", "THEN", "ELSE", "END", "SELECT"]

def constantWords : List String := ["NULL", "TRUE", "EXISTS", "1", "0"]

-- What may vary: which words compare, how tight each test binds, and whether NOT may follow a comparison.
structure Grammar where
  isSymbol : String → Bool
  comparison : List String → Nat
  membership : Nat
  nullity : Nat
  negates : Bool
  symbols : ∀ w ∈ standardSymbols, isSymbol w = true
  others : ∀ w ∈ connectives ++ constantWords, isSymbol w = false

namespace Between

def tokens : Between → List Token
  | comma => [.comma]
  | or => [.word "OR"]
  | and => [.word "AND"]
  | compare words => words.map .word

def rank (g : Grammar) : Between → Nat
  | comma => 0
  | or => 1
  | and => 2
  | compare words => 3 + g.comparison words

end Between

def inWords (negated : Bool) : List Token := (if negated then ["NOT", "IN"] else ["IN"]).map .word

namespace Behind

def tokens : Behind → List Token
  | null false => ["IS", "NULL"].map .word
  | null true => ["IS", "NOT", "NULL"].map .word
  | untrue => ["IS", "NOT", "TRUE"].map .word
  | nothing negated => inWords negated ++ [.opening, .closing]

def rank (g : Grammar) : Behind → Nat
  | nothing _ => 3 + g.membership
  | _ => 3 + g.nullity

end Behind

namespace Joint

-- The items of a membership test follow its opening bracket.
def tokens : Joint → List Token
  | between joint => joint.tokens
  | behind test => test.tokens
  | among negated => inWords negated ++ [.opening]

def rank (g : Grammar) : Joint → Nat
  | between joint => joint.rank g
  | behind test => test.rank g
  | among _ => 3 + g.membership

end Joint

namespace Phrase

def tokens : Phrase → List Token
  | atom ts => ts
  | group inner => .opening :: inner.tokens ++ [.closing]
  | not inner => .word "NOT" :: inner.tokens
  | flag test => ["CASE", "WHEN"].map .word ++ test.tokens ++ ["THEN", "1", "ELSE", "0", "END"].map .word
  | between left joint right => left.tokens ++ joint.tokens ++ right.tokens
  | behind subject test => subject.tokens ++ test.tokens
  | among subject negated items => subject.tokens ++ (inWords negated ++ [.opening]) ++ items.tokens ++ [.closing]

end Phrase

namespace Grammar

variable (g : Grammar)

-- No atom goes beyond such a token.
def ends : Token → Bool
  | .closing | .comma => true
  | .word text => connectives.contains text || g.isSymbol text
  | _ => false

-- A pair of brackets around anything but a SELECT is no atom, but a group.
def isGroup (ts own : List Token) : Bool :=
  match own with
  | [.opening] => (after? ["SELECT"] ts.tail).isNone
  | _ => false

def isAtom (ts : List Token) : Bool :=
  match outer? 0 ts with
  | some own => !own.isEmpty && own.all (fun t => !g.ends t) && !isGroup ts own
  | none => false

-- The words of an operator that stand first, and what is behind them.
def symbolRun : List Token → List String × List Token
  | .word text :: rest =>
    if g.isSymbol text then (text :: (symbolRun rest).1, (symbolRun rest).2) else ([], .word text :: rest)
  | ts => ([], ts)

def operator? (ts : List Token) : Option (List String × List Token) :=
  match after? ["NOT"] ts with
  | some later =>
    if (g.symbolRun later).1.isEmpty then none else some ("NOT" :: (g.symbolRun later).1, (g.symbolRun later).2)
  | none => if (g.symbolRun ts).1.isEmpty then none else some (g.symbolRun ts)

def fixedJoint? : List Token → Option (Joint × List Token)
  | .comma :: rest => some (.between .comma, rest)
  | .word "OR" :: rest => some (.between .or, rest)
  | .word "AND" :: rest => some (.between .and, rest)
  | .word "IS" :: .word "NULL" :: rest => some (.behind (.null false), rest)
  | .word "IS" :: .word "NOT" :: .word "NULL" :: rest => some (.behind (.null true), rest)
  | .word "IS" :: .word "NOT" :: .word "TRUE" :: rest => some (.behind .untrue, rest)
  | .word "IN" :: .opening :: .closing :: rest => some (.behind (.nothing false), rest)
  | .word "IN" :: .opening :: rest => some (.among false, rest)
  | .word "NOT" :: .word "IN" :: .opening :: .closing :: rest => some (.behind (.nothing true), rest)
  | .word "NOT" :: .word "IN" :: .opening :: rest => some (.among true, rest)
  | _ => none

-- What goes on behind an operand.
def joint? (ts : List Token) : Option (Joint × List Token) :=
  match g.operator? ts with
  | some (words, rest) => some (.between (.compare words), rest)
  | none => fixedJoint? ts

mutual
-- What binds at least so tight, and the tokens behind it. The first argument bounds the nesting; twice as many as
-- there are tokens, and two, are enough.
def expr? : Nat → Nat → List Token → Option (Phrase × List Token)
  | 0, _, _ => none
  | fuel + 1, least, ts => do
    let (first, rest) ← head? fuel least ts
    more? fuel least first rest

def head? : Nat → Nat → List Token → Option (Phrase × List Token)
  | 0, _, _ => none
  | fuel + 1, least, ts =>
    match after? ["NOT"] ts with
    | some later =>
      if least ≤ 3 ∨ g.negates then do
        let (inner, rest) ← expr? fuel 3 later
        pure (.not inner, rest)
      else none
    | none =>
    match after? ["CASE", "WHEN"] ts with
    | some later => do
      let (test, rest) ← expr? fuel 1 later
      let rest ← after? ["THEN", "1", "ELSE", "0", "END"] rest
      pure (.flag test, rest)
    | none =>
      let own := (splitOuter g.ends 0 ts).headD []
      if g.isAtom own then some (.atom own, ts.drop own.length)
      else do
        let later ← afterOpening? ts
        let (inner, rest) ← expr? fuel 1 later
        let rest ← afterClosing? rest
        pure (.group inner, rest)

-- What was read so far is the left operand of all that follows and binds tight enough.
def more? : Nat → Nat → Phrase → List Token → Option (Phrase × List Token)
  | 0, _, _, _ => none
  | fuel + 1, least, left, ts =>
    match g.joint? ts with
    | none => some (left, ts)
    | some (joint, later) =>
      if joint.rank g < least then some (left, ts)
      else match joint with
        | .behind test => more? fuel least (.behind left test) later
        | .between joint => do
          let (right, rest) ← expr? fuel (joint.rank g + 1) later
          more? fuel least (.between left joint right) rest
        | .among negated => do
          let (items, rest) ← expr? fuel 0 later
          let rest ← afterClosing? rest
          more? fuel least (.among left negated items) rest
end

-- All tokens as one condition.
def read? (ts : List Token) : Option Phrase := do
  let (t, rest) ← g.expr? (2 * ts.length + 2) 1 ts
  if rest.isEmpty then some t else none

-- An operator that stands in the vocabulary, with NOT before it or without.
def knows : Between → Bool
  | .compare ("NOT" :: words) => !words.isEmpty && words.all g.isSymbol
  | .compare words => !words.isEmpty && words.all g.isSymbol
  | _ => true

end Grammar

-- The tree holds together where what stands before it binds less than the first number, and what stands behind it no
-- tighter than the second.
def Phrase.Correct (g : Grammar) : Nat → Nat → Phrase → Prop
  | _, _, atom ts => g.isAtom ts = true
  | _, _, group inner => inner.Correct g 1 0
  | least, after, not inner => (least ≤ 3 ∨ g.negates = true) ∧ after < 3 ∧ inner.Correct g 3 after
  | _, _, flag test => test.Correct g 1 0
  | least, after, between left joint right =>
    g.knows joint = true ∧ least ≤ joint.rank g ∧ after ≤ joint.rank g ∧ left.Correct g least (joint.rank g) ∧
      right.Correct g (joint.rank g + 1) after
  | least, _, behind subject test => least ≤ test.rank g ∧ subject.Correct g least (test.rank g)
  | least, _, among subject negated items =>
    least ≤ (Joint.among negated).rank g ∧ subject.Correct g least ((Joint.among negated).rank g) ∧ items.Correct g 0 0

theorem after_sound {words : List String} {ts later : List Token} (found : after? words ts = some later) :
    ts = words.map .word ++ later := by
  induction words generalizing ts with
  | nil =>
    cases found
    rfl
  | cons w words ih =>
    unfold after? at found
    split at found
    · rename_i mismatch
      cases mismatch
    · rename_i text rest same
      cases same
      split at found
      · rename_i same
        rw [ih found, same]
        rfl
      · cases found
    · cases found

namespace Grammar

variable {g : Grammar} {ts later rest : List Token} {joint : Joint} {least most after : Nat}

theorem unsymbolic (g : Grammar) {w : String} (member : w ∈ connectives ++ constantWords) : g.isSymbol w = false :=
  g.others w member

-- No operator begins here.
def Unsymbolic (g : Grammar) (ts : List Token) : Prop := (g.symbolRun ts).1 = []

theorem symbolRun_rest (apart : g.Unsymbolic rest) : g.symbolRun rest = ([], rest) := by
  unfold Unsymbolic at apart
  unfold symbolRun at apart ⊢
  split at apart
  · split at apart
    · cases apart
    · rename_i other
      exact if_neg other
  · rfl

theorem symbolRun_words {words : List String} (own : words.all g.isSymbol = true) (apart : g.Unsymbolic rest) :
    g.symbolRun (words.map .word ++ rest) = (words, rest) := by
  induction words with
  | nil => exact symbolRun_rest apart
  | cons w words ih =>
    rw [List.all_cons, Bool.and_eq_true] at own
    rw [List.map_cons, List.cons_append, symbolRun, if_pos own.1, ih own.2]

theorem symbolRun_whole (ts : List Token) :
    (g.symbolRun ts).1.map .word ++ (g.symbolRun ts).2 = ts ∧ (g.symbolRun ts).1.all g.isSymbol = true := by
  induction ts with
  | nil => exact ⟨rfl, rfl⟩
  | cons t rest ih =>
    cases t with
    | word text =>
      by_cases own : g.isSymbol text = true
      · rw [symbolRun, if_pos own]
        exact ⟨congrArg (Token.word text :: ·) ih.1, by rw [List.all_cons, own, ih.2]; rfl⟩
      · rw [symbolRun, if_neg own]
        exact ⟨rfl, rfl⟩
    | _ => exact ⟨rfl, rfl⟩

theorem symbolRun_connective {w : String} (member : w ∈ connectives ++ constantWords) (rest : List Token) :
    g.Unsymbolic (.word w :: rest) := by
  rw [Unsymbolic, symbolRun, if_neg (by simp [g.unsymbolic member])]

theorem operator_words {words : List String} (own : g.knows (.compare words) = true) (apart : g.Unsymbolic later) :
    g.operator? (words.map .word ++ later) = some (words, later) := by
  unfold knows at own
  split at own
  · rename_i words same
    cases same
    rw [Bool.and_eq_true] at own
    have run := symbolRun_words own.2 apart
    simp only [List.map_cons, List.cons_append, operator?, after?, if_true, run]
    exact if_neg (by simpa using own.1)
  · rename_i words other same
    cases same
    rw [Bool.and_eq_true] at own
    have run := symbolRun_words own.2 apart
    have plain : after? ["NOT"] (words.map .word ++ later) = none := by
      cases words with
      | nil => cases own.1
      | cons w words => exact if_neg fun same => other words (congrArg (· :: words) same)
    simp only [operator?, plain, run]
    exact if_neg (by simpa using own.1)
  · rename_i other
    exact absurd rfl (other words)

theorem knows_words {words : List String} (own : g.knows (.compare words) = true) :
    ∃ w more, words = w :: more ∧ g.ends (.word w) = true := by
  unfold knows at own
  split at own
  · rename_i more same
    cases same
    exact ⟨"NOT", more, rfl, rfl⟩
  · rename_i words _ same
    cases same
    rw [Bool.and_eq_true] at own
    cases words with
    | nil => cases own.1
    | cons w more =>
      rw [List.all_cons, Bool.and_eq_true] at own
      exact ⟨w, more, rfl, by simp [ends, own.2.1]⟩
  · rename_i other
    exact absurd rfl (other words)

theorem knows_symbol {w : String} (member : w ∈ standardSymbols) :
    g.knows (.compare [w]) = true ∧ g.knows (.compare ["NOT", w]) = true := by
  have own : g.isSymbol w = true := g.symbols w member
  refine ⟨?_, by simp [knows, own]⟩
  unfold knows
  split
  · rename_i same
    cases same
    cases (by decide : "NOT" ∉ standardSymbols) member
  · rename_i same
    cases same
    simp [own]
  · rfl

theorem operator_none (apart : g.Unsymbolic ts)
    (apart' : ∀ later, after? ["NOT"] ts = some later → g.Unsymbolic later) : g.operator? ts = none := by
  unfold operator?
  split
  · rename_i later found
    exact if_pos (List.isEmpty_iff.mpr (apart' later found))
  · exact if_pos (List.isEmpty_iff.mpr apart)

theorem operator_sound {words : List String} (found : g.operator? ts = some (words, later)) :
    ts = words.map .word ++ later ∧ g.knows (.compare words) = true := by
  unfold operator? at found
  split at found
  · rename_i behind negated
    split at found
    · cases found
    · rename_i nonempty
      cases found
      obtain ⟨whole, own⟩ := symbolRun_whole (g := g) behind
      refine ⟨?_, by simpa [knows, own] using nonempty⟩
      exact (after_sound negated).trans (congrArg (Token.word "NOT" :: ·) whole.symm)
  · split at found
    · cases found
    · rename_i nonempty
      obtain ⟨whole, own⟩ := symbolRun_whole (g := g) ts
      rw [Option.some.inj found] at whole own nonempty
      refine ⟨whole.symm, ?_⟩
      unfold knows
      split
      · rename_i rest same
        cases same
        simp [g.unsymbolic (w := "NOT") (by decide)] at own
      · rename_i same
        cases same
        simpa [own] using nonempty
      · rfl

-- What may follow a joint: no further operator, and in the brackets of IN something.
def Admits (g : Grammar) : Joint → List Token → Prop
  | .between joint, later => g.knows joint = true ∧ g.Unsymbolic later
  | .behind _, _ => True
  | .among _, later => later.head? ≠ some .closing

theorem operator_connective {w : String} (member : w ∈ connectives) (other : w ≠ "NOT") (rest : List Token) :
    g.operator? (.word w :: rest) = none := by
  refine operator_none (symbolRun_connective (List.mem_append_left _ member) rest) ?_
  intro later found
  exact absurd (after_sound found) (by simp [other])

theorem operator_notIn (rest : List Token) : g.operator? (.word "NOT" :: .word "IN" :: rest) = none := by
  refine operator_none (symbolRun_connective (by decide) _) ?_
  intro later found
  cases found
  exact symbolRun_connective (by decide) rest

theorem joint_fixed (missing : g.operator? ts = none) : g.joint? ts = fixedJoint? ts := by
  rw [joint?, missing]

theorem joint_among (negated : Bool) (unclosed : later.head? ≠ some .closing) :
    g.joint? ((Joint.among negated).tokens ++ later) = some (.among negated, later) := by
  cases negated with
  | false =>
    refine (joint_fixed (operator_connective (by decide) (by decide) _)).trans ?_
    cases later with
    | nil => rfl
    | cons t later =>
      cases t with
      | closing => exact absurd rfl unclosed
      | _ => rfl
  | true =>
    refine (joint_fixed (operator_notIn _)).trans ?_
    cases later with
    | nil => rfl
    | cons t later =>
      cases t with
      | closing => exact absurd rfl unclosed
      | _ => rfl

theorem joint_tokens (admits : g.Admits joint later) : g.joint? (joint.tokens ++ later) = some (joint, later) := by
  cases joint with
  | between joint =>
    obtain ⟨known, apart⟩ := admits
    cases joint with
    | compare words =>
      have found := operator_words known apart
      change g.joint? (words.map .word ++ later) = _
      rw [joint?, found]
    | comma => rfl
    | or | and => exact joint_fixed (operator_connective (by decide) (by decide) _)
  | behind test =>
    cases test with
    | null negated => cases negated <;> exact joint_fixed (operator_connective (by decide) (by decide) _)
    | untrue => exact joint_fixed (operator_connective (by decide) (by decide) _)
    | nothing negated =>
      cases negated with
      | false => exact joint_fixed (operator_connective (by decide) (by decide) _)
      | true => exact joint_fixed (operator_notIn _)
  | among negated => exact joint_among negated admits

theorem joint_sound (found : g.joint? ts = some (joint, later)) :
    ts = joint.tokens ++ later ∧ ∀ b, joint = .between b → g.knows b = true := by
  unfold joint? at found
  split at found
  · rename_i words rest operator
    cases found
    obtain ⟨whole, known⟩ := operator_sound operator
    refine ⟨whole, ?_⟩
    intro b same
    cases same
    exact known
  · unfold fixedJoint? at found
    split at found <;> cases found <;> exact ⟨rfl, fun b same => by cases same <;> rfl⟩

end Grammar

namespace Phrase

variable {g : Grammar} {op : Between} {least less after before most : Nat} {t first : Phrase}

-- In front of a chain of the same word it comes to stand beside the first operand.
def join (op : Between) (first : Phrase) : Phrase → Phrase
  | between left joint right =>
    if joint = op then between (join op first left) op right else between first op (between left joint right)
  | t => between first op t

def joined (op : Between) : List Phrase → Phrase
  | [] => atom []
  | [t] => t
  | t :: rest => join op t (joined op rest)

-- IN, with its items.
def member (subject : Phrase) (negated : Bool) : List Phrase → Phrase
  | [] => behind subject (.nothing negated)
  | items => among subject negated (joined .comma items)

def bracketed (weak : Bool) (t : Phrase) : Phrase := if weak then group t else t

def isChain (op : Between) : Phrase → Bool
  | between _ joint _ => joint = op
  | _ => false

theorem join_other (other : t.isChain op = false) : join op first t = between first op t := by
  cases t with
  | between left joint right => exact if_neg (of_decide_eq_false other)
  | _ => rfl

theorem tokens_join (op : Between) (first t : Phrase) :
    (join op first t).tokens = first.tokens ++ op.tokens ++ t.tokens := by
  induction t with
  | between left joint right ih =>
    by_cases same : joint = op
    · rw [join, if_pos same, tokens, ih, same]
      simp only [tokens, List.append_assoc]
    · rw [join, if_neg same, tokens]
  | _ => rfl

-- What holds together loosely does so beside less.
theorem Correct.mono (correct : t.Correct g least after) (looser : less ≤ least) (later : before ≤ after) :
    t.Correct g less before := by
  induction t generalizing least less after before with
  | atom | group | flag => exact correct
  | not inner ih =>
    obtain ⟨free, loose, inside⟩ := correct
    exact ⟨free.imp_left (Nat.le_trans looser), Nat.lt_of_le_of_lt later loose, ih inside (Nat.le_refl 3) later⟩
  | between left joint right first second =>
    obtain ⟨known, tight, loose, front, back⟩ := correct
    exact ⟨known, Nat.le_trans looser tight, Nat.le_trans later loose, first front looser (Nat.le_refl _),
      second back (Nat.le_refl _) later⟩
  | behind subject test ih => exact ⟨Nat.le_trans looser correct.1, ih correct.2 looser (Nat.le_refl _)⟩
  | among subject negated items ih =>
    exact ⟨Nat.le_trans looser correct.1, ih correct.2.1 looser (Nat.le_refl _), correct.2.2⟩

theorem three_le_behind (g : Grammar) (test : Behind) : 3 ≤ test.rank g := by
  cases test <;> exact Nat.le_add_right ..

theorem three_le_among (g : Grammar) (negated : Bool) : 3 ≤ (Joint.among negated).rank g := Nat.le_add_right ..

-- What stays whole before something that tight begins with nothing looser, unless with a NOT.
theorem Correct.lift (correct : t.Correct g least after) (most_three : most ≤ 3) (tight : most ≤ after) :
    t.Correct g most after := by
  induction t generalizing least after with
  | atom | group | flag => exact correct
  | not inner => exact ⟨.inl most_three, correct.2⟩
  | between left joint right ih =>
    obtain ⟨known, -, loose, front, back⟩ := correct
    exact ⟨known, Nat.le_trans tight loose, loose, ih front (Nat.le_trans tight loose), back⟩
  | behind subject test ih =>
    have bound := Nat.le_trans most_three (three_le_behind g test)
    exact ⟨bound, ih correct.2 bound⟩
  | among subject negated items ih =>
    have bound := Nat.le_trans most_three (three_le_among g negated)
    exact ⟨bound, ih correct.2.1 bound, correct.2.2⟩

-- No two words are equally loose, and no test is as loose as a word.
theorem rank_inj {joint : Between} (word : op.rank g ≤ 2) (same : joint.rank g = op.rank g) : joint = op := by
  cases op <;> cases joint <;> simp [Between.rank] at word same ⊢ <;> omega

-- Only chains of a word are as loose as the word.
theorem Correct.raise (correct : t.Correct g (op.rank g) after) (word : op.rank g ≤ 2) (other : t.isChain op = false) :
    t.Correct g (op.rank g + 1) after := by
  have bound : op.rank g + 1 ≤ 3 := Nat.succ_le_succ word
  cases t with
  | atom | group | flag => exact correct
  | not inner => exact ⟨.inl bound, correct.2⟩
  | between left joint right =>
    obtain ⟨known, tight, loose, front, back⟩ := correct
    have apart : joint.rank g ≠ op.rank g := fun same => of_decide_eq_false other (rank_inj word same)
    have tighter : op.rank g + 1 ≤ joint.rank g := Nat.lt_of_le_of_ne tight apart.symm
    exact ⟨known, tighter, loose, front.lift bound tighter, back⟩
  | behind subject test =>
    have tighter := Nat.le_trans bound (three_le_behind g test)
    exact ⟨tighter, correct.2.lift bound tighter⟩
  | among subject negated items =>
    have tighter := Nat.le_trans bound (three_le_among g negated)
    exact ⟨tighter, correct.2.1.lift bound tighter, correct.2.2⟩

theorem knows_word (word : op.rank g ≤ 2) : g.knows op = true := by
  cases op with
  | compare words => simp [Between.rank] at word; omega
  | _ => rfl

theorem correct_between (word : op.rank g ≤ 2) (other : t.isChain op = false) :
    (between first op t).Correct g least after ↔
      least ≤ op.rank g ∧ after ≤ op.rank g ∧ first.Correct g least (op.rank g) ∧ t.Correct g (op.rank g) after := by
  constructor
  · intro ⟨_, tight, loose, front, back⟩
    exact ⟨tight, loose, front, back.mono (Nat.le_succ _) (Nat.le_refl _)⟩
  · intro ⟨tight, loose, front, back⟩
    exact ⟨knows_word word, tight, loose, front, back.raise word other⟩

-- By induction on the chain, at the beginning of which the new operand ends up.
theorem correct_join (word : op.rank g ≤ 2) : (join op first t).Correct g least after ↔
    least ≤ op.rank g ∧ after ≤ op.rank g ∧ first.Correct g least (op.rank g) ∧ t.Correct g (op.rank g) after := by
  induction t generalizing least after with
  | between left joint right ih =>
    by_cases same : joint = op
    · subst same
      rw [join, if_pos rfl]
      constructor
      · intro ⟨known, tight, loose, front, back⟩
        obtain ⟨-, -, own, others⟩ := ih.mp front
        exact ⟨tight, loose, own, known, Nat.le_refl _, loose, others, back⟩
      · intro ⟨tight, loose, own, known, _, _, others, back⟩
        exact ⟨known, tight, loose, ih.mpr ⟨tight, Nat.le_refl _, own, others⟩, back⟩
    · have other : (between left joint right).isChain op = false := decide_eq_false same
      rw [join_other other]
      exact correct_between word other
  | _ => exact correct_between word rfl

-- Beside words so loose, nothing but this decides.
def Settles (g : Grammar) (most : Nat) (t : Phrase) (held : Prop) : Prop :=
  ∀ least after, least ≤ most → after ≤ most → (t.Correct g least after ↔ held)

theorem Settles.group {held : Prop} (settles : Settles g 1 t held) (most : Nat) : Settles g most (group t) held :=
  fun _ _ _ _ => settles 1 0 (Nat.le_refl 1) (Nat.zero_le 1)

theorem Settles.join {held held' : Prop} (word : op.rank g ≤ 2) (front : Settles g (op.rank g) first held)
    (back : Settles g (op.rank g) t held') : Settles g (op.rank g) (join op first t) (held ∧ held') := by
  intro least after tight loose
  rw [correct_join word, front _ _ tight (Nat.le_refl _), back _ _ (Nat.le_refl _) loose]
  constructor
  · intro ⟨_, _, both⟩
    exact both
  · intro both
    exact ⟨tight, loose, both⟩

theorem Settles.mono {held : Prop} (settles : Settles g most t held) (le : less ≤ most) : Settles g less t held :=
  fun least after tight loose => settles least after (Nat.le_trans tight le) (Nat.le_trans loose le)

end Phrase
end FilterQuery
