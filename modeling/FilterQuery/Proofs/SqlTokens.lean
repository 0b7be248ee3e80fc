import FilterQuery.Proofs.Placeholders

namespace FilterQuery

-- Names in quotes, words, and marks with the parameters they stand for.
inductive Token where
  | opening
  | closing
  | comma
  | dot
  | colon
  | word (text : String)
  | name (ident : String)
  | value (v : Value)

-- What the next character may belong to.
inductive Pending where
  | idle
  | word (chars : List Char)
  | quoted (chars : List Char)
  -- A closing quote was read; one more makes it part of the name.
  | closed (chars : List Char)

structure Scan where
  tokens : List Token
  pending : Pending

-- What a character is that is no part of a word.
def punctuation? : Char → Option (List Token)
  | ' ' => some []
  | '(' => some [.opening]
  | ')' => some [.closing]
  | ',' => some [.comma]
  | '.' => some [.dot]
  | ':' => some [.colon]
  | _ => none

namespace Scan

def start : Scan := ⟨[], .idle⟩

-- The tokens of a text that ends here.
def finish (s : Scan) : List Token :=
  match s.pending with
  | .idle | .quoted _ => s.tokens
  | .word chars => s.tokens ++ [.word (String.ofList chars)]
  | .closed chars => s.tokens ++ [.name (String.ofList chars)]

def fresh (d : Dialect) (tokens : List Token) (c : Char) : Scan :=
  match punctuation? c with
  | some found => ⟨tokens ++ found, .idle⟩
  | none => if c = d.openQuote then ⟨tokens, .quoted []⟩ else ⟨tokens, .word [c]⟩

def step (d : Dialect) (s : Scan) (c : Char) : Scan :=
  match s.pending with
  | .idle => fresh d s.tokens c
  | .word chars => if (punctuation? c).isSome then fresh d s.finish c else ⟨s.tokens, .word (chars ++ [c])⟩
  | .quoted chars => if c = d.closeQuote then ⟨s.tokens, .closed chars⟩ else ⟨s.tokens, .quoted (chars ++ [c])⟩
  | .closed chars => if c = d.closeQuote then ⟨s.tokens, .quoted (chars ++ [c])⟩ else fresh d s.finish c

def run (d : Dialect) (s : Scan) (chars : List Char) : Scan := chars.foldl (step d) s

def of (d : Dialect) (text : String) : Scan := run d start text.toList

-- The text does not end inside a name.
def Unquoted (s : Scan) : Prop := ∀ chars, s.pending ≠ .quoted chars

-- The same text after other tokens.
def after (before : List Token) (s : Scan) : Scan := ⟨before ++ s.tokens, s.pending⟩

variable {d : Dialect} {s : Scan}

theorem run_append (left right : List Char) : run d s (left ++ right) = run d (run d s left) right :=
  List.foldl_append ..

theorem of_append (left right : String) : of d (left ++ right) = run d (of d left) right.toList := by
  rw [of, String.toList_append, run_append]
  rfl

@[simp] theorem finish_after (before : List Token) : (s.after before).finish = before ++ s.finish := by
  cases s with
  | mk tokens pending => cases pending <;> simp [after, finish]

theorem fresh_after (before tokens : List Token) (c : Char) :
    fresh d (before ++ tokens) c = (fresh d tokens c).after before := by
  unfold fresh
  split
  · rw [List.append_assoc]
    rfl
  · split <;> rfl

theorem step_after (before : List Token) (c : Char) : step d (s.after before) c = (step d s c).after before := by
  cases s with
  | mk tokens pending =>
    cases pending with
    | idle => exact fresh_after before tokens c
    | word chars =>
      have finished := finish_after (s := ⟨tokens, .word chars⟩) before
      simp only [step, after] at finished ⊢
      split
      · rw [finished, fresh_after]
        rfl
      · rfl
    | quoted chars =>
      simp only [step, after]
      split <;> rfl
    | closed chars =>
      have finished := finish_after (s := ⟨tokens, .closed chars⟩) before
      simp only [step, after] at finished ⊢
      split
      · rfl
      · rw [finished, fresh_after]
        rfl

theorem run_after (before : List Token) (chars : List Char) : run d (s.after before) chars = (run d s chars).after before := by
  induction chars generalizing s with
  | nil => rfl
  | cons c rest ih =>
    rw [run, List.foldl_cons, step_after]
    exact ih

theorem punctuation_closeQuote (d : Dialect) : punctuation? d.closeQuote = none := by
  cases d <;> rfl

theorem punctuation_openQuote (d : Dialect) : punctuation? d.openQuote = none := by
  cases d <;> rfl

-- Punctuation ends whatever was pending.
theorem step_punctuation (unquoted : s.Unquoted) (found : punctuation? c = some ts) :
    step d s c = ⟨s.finish ++ ts, .idle⟩ := by
  have apart : c ≠ d.closeQuote := by
    rintro rfl
    rw [punctuation_closeQuote] at found
    cases found
  cases s with
  | mk tokens pending =>
    cases pending with
    | idle => simp [step, fresh, finish, found]
    | word chars => simp [step, fresh, finish, found]
    | quoted chars => exact absurd rfl (unquoted chars)
    | closed chars => simp [step, fresh, finish, found, apart]

end Scan

def startsApart (text : String) : Bool :=
  match text.toList with
  | [] => false
  | c :: _ => (punctuation? c).isSome

theorem Scan.run_apart {s : Scan} (unquoted : s.Unquoted) (free : s.pending = .idle ∨ startsApart text = true) :
    run d s text.toList = (of d text).after s.finish := by
  rcases free with idle | begins
  · have settled : s = start.after s.finish := by
      cases s with
      | mk tokens pending =>
        cases idle
        simp [after, start, finish]
    rw [settled, run_after, ← settled]
    rfl
  · unfold startsApart at begins
    split at begins
    · cases begins
    · rename_i c rest shape
      obtain ⟨ts, found⟩ := Option.isSome_iff_exists.mp begins
      have first : step d start c = ⟨ts, .idle⟩ := step_punctuation (by simp [Unquoted, start]) found
      rw [of, shape, run, List.foldl_cons, step_punctuation unquoted found, run, List.foldl_cons, first]
      exact run_after (s := ⟨ts, .idle⟩) s.finish rest

-- A quoted name is read as the name, whatever characters it has.
theorem Scan.run_quoted (d : Dialect) (tokens : List Token) (chars rest : List Char) :
    run d ⟨tokens, .quoted chars⟩ (replaceChar d.closeQuote [d.closeQuote, d.closeQuote] rest) =
      ⟨tokens, .quoted (chars ++ rest)⟩ := by
  induction rest generalizing chars with
  | nil => simp [replaceChar, run]
  | cons c rest ih =>
    by_cases same : c = d.closeQuote
    · subst same
      have later := ih (chars ++ [d.closeQuote])
      rw [List.append_assoc] at later
      simpa [replaceChar, run, step] using later
    · have later := ih (chars ++ [c])
      rw [List.append_assoc] at later
      simpa [replaceChar, run, step, same] using later

theorem Scan.of_quoteName (d : Dialect) (ident : String) :
    of d (d.quoteName ident) = ⟨[], .closed ident.toList⟩ := by
  have opened : step d start d.openQuote = ⟨[], .quoted []⟩ := by
    simp [step, start, fresh, punctuation_openQuote]
  rw [of, Dialect.quoteName, String.toList_ofList, List.cons_append, run, List.foldl_cons, opened]
  change run d _ _ = _
  rw [run_append, run_quoted]
  simp [run, step]

-- The place that a number gives, counted from one, after the characters of the mark.
def placeAfter? : List Char → List Char → Option Nat
  | [], digits =>
    if digits ≠ [] ∧ digits.all Char.isDigit ∧ 0 < readDigits digits then some (readDigits digits - 1) else none
  | m :: mark, c :: rest => if c = m then placeAfter? mark rest else none
  | _ :: _, [] => none

namespace Dialect

-- Which parameter a word stands for, when so many marks stand before it.
def parameterOf? (d : Dialect) (taken : Nat) (word : String) : Option Nat :=
  match d with
  | postgres | cockroachDb => placeAfter? ['$'] word.toList
  | msSql => placeAfter? ['@', 'P'] word.toList
  | mySql | sqlite => if word = "?" then some taken else none

def isMark (d : Dialect) : Token → Bool
  | .word text => (d.parameterOf? 0 text).isSome
  | _ => false

-- Marks replaced by what they stand for.
def resolve (d : Dialect) (params : List Value) : Nat → List Token → List Token
  | _, [] => []
  | taken, .word text :: rest =>
    match d.parameterOf? taken text with
    | some place => (params[place]?.elim (.word text) .value) :: d.resolve params (taken + 1) rest
    | none => .word text :: d.resolve params taken rest
  | taken, t :: rest => t :: d.resolve params taken rest

-- The tokens of a text with so many marks before it; none if a name is left open.
def tokens? (d : Dialect) (taken : Nat) (params : List Value) (text : String) : Option (List Token) :=
  match (Scan.of d text).pending with
  | .quoted _ => none
  | _ => some (d.resolve params taken (Scan.of d text).finish)

variable {d : Dialect} {params : List Value}

theorem isMark_word (taken : Nat) (text : String) : d.isMark (.word text) = (d.parameterOf? taken text).isSome := by
  cases d with
  | postgres | cockroachDb | msSql => rfl
  | mySql | sqlite =>
    simp only [isMark, parameterOf?]
    split <;> rfl

theorem resolve_append (taken : Nat) (left right : List Token) :
    d.resolve params taken (left ++ right) =
      d.resolve params taken left ++ d.resolve params (taken + left.countP d.isMark) right := by
  induction left generalizing taken with
  | nil => rfl
  | cons t rest ih =>
    cases t with
    | word text =>
      have mark := isMark_word (d := d) taken text
      cases found : d.parameterOf? taken text with
      | some place =>
        rw [found] at mark
        simp only [List.cons_append, resolve, found, ih, List.countP_cons, mark]
        simp [Nat.add_assoc, Nat.add_comm 1]
      | none =>
        rw [found] at mark
        simp only [List.cons_append, resolve, found, ih, List.countP_cons, mark]
        simp
    | _ => simp [resolve, ih, isMark]

theorem resolve_unmarked {ts : List Token} (taken : Nat) (plain : ∀ t ∈ ts, d.isMark t = false) :
    d.resolve params taken ts = ts := by
  induction ts with
  | nil => rfl
  | cons t rest ih =>
    rw [List.forall_mem_cons] at plain
    cases t with
    | word text =>
      have unbound := plain.1
      rw [isMark_word taken, Option.isSome_eq_false_iff, Option.isNone_iff_eq_none] at unbound
      simp only [resolve, unbound, ih plain.2]
    | _ => simp [resolve, ih plain.2]

theorem parameterOf_placeholder (d : Dialect) (taken : Nat) :
    d.parameterOf? taken (d.placeholder (taken + 1)) = some taken := by
  have number : placeAfter? [] (toString (taken + 1)).toList = some taken := by
    have digits : (toString (taken + 1)).toList = Nat.toDigits 10 (taken + 1) := by simp
    rw [digits, placeAfter?, readDigits_toDigits, if_pos]
    · rfl
    · refine ⟨Nat.toDigits_ne_nil, ?_, Nat.succ_pos _⟩
      rw [List.all_eq_true]
      exact fun c member => Nat.isDigit_of_mem_toDigits (by decide) (by decide) member
  cases d with
  | postgres | cockroachDb =>
    rw [parameterOf?, placeholder, String.toList_append]
    exact number
  | msSql =>
    rw [parameterOf?, placeholder, String.toList_append]
    exact number
  | mySql | sqlite => rfl

end Dialect

-- Characters of a word, read after nothing.
theorem Scan.of_word {d : Dialect} {c : Char} {rest : List Char} (shape : text.toList = c :: rest)
    (plain : ∀ x ∈ c :: rest, punctuation? x = none) (unquoted : c ≠ d.openQuote) :
    of d text = ⟨[], .word text.toList⟩ := by
  have longer : ∀ (more chars : List Char), (∀ x ∈ more, punctuation? x = none) →
      run d ⟨[], .word chars⟩ more = ⟨[], .word (chars ++ more)⟩ := by
    intro more
    induction more with
    | nil => simp [run]
    | cons x more ih =>
      intro chars plain
      rw [List.forall_mem_cons] at plain
      have later := ih (chars ++ [x]) plain.2
      rw [List.append_assoc] at later
      simpa [run, step, plain.1] using later
  rw [List.forall_mem_cons] at plain
  have first : step d start c = ⟨[], .word [c]⟩ := by
    simp [step, start, fresh, plain.1, unquoted]
  rw [of, shape, run, List.foldl_cons, first]
  exact longer rest [c] plain.2

theorem Scan.of_placeholder (d : Dialect) (index : Nat) :
    of d (d.placeholder index) = ⟨[], .word (d.placeholder index).toList⟩ := by
  have digits : ∀ x ∈ (toString index).toList, punctuation? x = none := by
    intro x member
    have digit : x.isDigit = true :=
      Nat.isDigit_of_mem_toDigits (b := 10) (n := index) (by decide) (by decide) (by simpa using member)
    unfold punctuation?
    split <;> first | rfl | cases digit
  cases d with
  | postgres | cockroachDb =>
    have shape : ("$" ++ toString index).toList = '$' :: (toString index).toList := by simp
    exact of_word shape (List.forall_mem_cons.mpr ⟨rfl, digits⟩) (by decide)
  | msSql =>
    have shape : ("@P" ++ toString index).toList = '@' :: 'P' :: (toString index).toList := by simp
    exact of_word shape (List.forall_mem_cons.mpr ⟨rfl, List.forall_mem_cons.mpr ⟨rfl, digits⟩⟩) (by decide)
  | mySql | sqlite =>
    have shape : "?".toList = ['?'] := rfl
    exact of_word shape (List.forall_mem_cons.mpr ⟨rfl, by simp⟩) (by decide)

end FilterQuery
