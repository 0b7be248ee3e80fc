import FilterQuery.Proofs.SqlTokens

namespace FilterQuery

namespace Piece

def tokens (d : Dialect) : Piece → List Token
  | .text t => (Scan.of d t).finish
  | .space => []
  | .value v => if v.isNull then [.word "NULL"] else [.value v]

def spelled (d : Dialect) (pieces : List Piece) : List Token := pieces.flatMap (tokens d)

@[simp] theorem spelled_nil (d : Dialect) : spelled d [] = [] := rfl

@[simp] theorem spelled_append (d : Dialect) (left right : List Piece) :
    spelled d (left ++ right) = spelled d left ++ spelled d right :=
  List.flatMap_append

@[simp] theorem spelled_space (d : Dialect) (rest : List Piece) : spelled d (.space :: rest) = spelled d rest := rfl

@[simp] theorem spelled_text (d : Dialect) (t : String) (rest : List Piece) :
    spelled d (.text t :: rest) = (Scan.of d t).finish ++ spelled d rest := rfl

@[simp] theorem spelled_name (d : Dialect) (ident : String) (rest : List Piece) :
    spelled d (Render.name d ident :: rest) = .name ident :: spelled d rest := by
  simp [Render.name, Scan.of_quoteName, Scan.finish]

end Piece

-- The text may follow anything, or else a blank or bracket, and is such that anything may follow it, if that is asked.
def Dialect.fits (d : Dialect) (settled next : Bool) (text : String) : Bool :=
  (match (Scan.of d text).pending with
    | .idle => true
    | .quoted _ => false
    | _ => !next) &&
  (settled || startsApart text) && (Scan.of d text).finish.all fun t => !d.isMark t

-- What was written since the base reads as the tokens, marks and parameters in step.
structure Writer.Reads (d : Dialect) (params : List Value) (w base : Writer) (text : String) (ts : List Token) :
    Prop where
  sql : w.sql = base.sql ++ text
  unquoted : (Scan.of d text).Unquoted
  counted : base.values.length + (Scan.of d text).finish.countP d.isMark = w.values.length
  read : d.resolve params base.values.length (Scan.of d text).finish = ts

namespace Writer

variable {d : Dialect} {params : List Value} {base w : Writer} {text : String} {ts : List Token}

theorem reads_self (d : Dialect) (params : List Value) (w : Writer) : w.Reads d params w "" [] :=
  ⟨by simp, by simp [Scan.Unquoted, Scan.of, Scan.run, Scan.start], rfl, rfl⟩

theorem Reads.push (reads : w.Reads d params base text ts) (free : settled = true → (Scan.of d text).pending = .idle)
    (fits : d.fits settled next more = true) :
    (w.push more).Reads d params base (text ++ more) (ts ++ (Scan.of d more).finish) ∧
      (next = true → (Scan.of d (text ++ more)).pending = .idle) := by
  simp only [Dialect.fits, Bool.and_eq_true, Bool.or_eq_true, List.all_eq_true, Bool.not_eq_true'] at fits
  obtain ⟨⟨ends, begins⟩, unmarked⟩ := fits
  have joined := Scan.run_apart (d := d) reads.unquoted (begins.imp_left free)
  rw [← Scan.of_append] at joined
  refine ⟨⟨?_, ?_, ?_, ?_⟩, ?_⟩
  · rw [Writer.push, reads.sql, String.append_assoc]
  · intro chars quoted
    rw [joined] at quoted
    change (Scan.of d more).pending = _ at quoted
    rw [quoted] at ends
    cases ends
  · rw [joined, Scan.finish_after, List.countP_append, ← Nat.add_assoc, reads.counted,
      List.countP_eq_zero.mpr (by simpa using unmarked)]
    rfl
  · rw [joined, Scan.finish_after, Dialect.resolve_append, reads.read, Dialect.resolve_unmarked _ unmarked]
  · intro more_settled
    rw [joined]
    change (Scan.of d more).pending = _
    cases pending : (Scan.of d more).pending with
    | idle => rfl
    | _ => simp [pending, more_settled] at ends

theorem unquoted_of_step {s : Scan} (found : punctuation? c = some ts) (unquoted : (Scan.step d s c).Unquoted) :
    s.Unquoted := by
  intro chars quoted
  have apart : c ≠ d.closeQuote := by
    rintro rfl
    rw [Scan.punctuation_closeQuote] at found
    cases found
  exact unquoted (chars ++ [c]) (by simp [Scan.step, quoted, apart])

-- After a blank nothing is pending, whether one was written or stood there.
theorem Reads.space (reads : w.Reads d params base text ts) :
    ∃ text', w.space.Reads d params base text' ts ∧ (Scan.of d text').pending = .idle := by
  have blank : d.fits false true " " = true := by cases d <;> rfl
  have silent : (Scan.of d " ").finish = [] := by cases d <;> rfl
  obtain ⟨pushed, idle⟩ := reads.push (by simp) blank
  rw [silent, List.append_nil] at pushed
  have idle_after : ∀ c ts, punctuation? c = some ts → text.toList.getLast? = some c → (Scan.of d text).pending = .idle := by
    intro c ts found last
    obtain ⟨front, shape⟩ := List.getLast?_eq_some_iff.mp last
    have whole : Scan.of d text = Scan.step d (Scan.run d .start front) c := by
      rw [Scan.of, shape, Scan.run_append]
      rfl
    have unquoted := reads.unquoted
    rw [whole] at unquoted ⊢
    rw [Scan.step_punctuation (unquoted_of_step found unquoted) found]
  have idle_empty : text.toList = [] → (Scan.of d text).pending = .idle := by
    intro empty
    rw [Scan.of, empty]
    rfl
  unfold Writer.space
  split
  · rename_i nothing
    rw [reads.sql, String.toList_append, List.getLast?_append, Option.or_eq_none_iff, List.getLast?_eq_none_iff] at nothing
    exact ⟨text, reads, idle_empty nothing.1⟩
  · rename_i c last
    rw [reads.sql, String.toList_append, List.getLast?_append] at last
    split
    · rename_i known
      refine ⟨text, reads, ?_⟩
      cases own : text.toList.getLast? with
      | none => exact idle_empty (List.getLast?_eq_none_iff.mp own)
      | some x =>
        rw [own, Option.some_or, Option.some.injEq] at last
        subst last
        rcases known with rfl | rfl
        · exact idle_after ' ' [] rfl own
        · exact idle_after '(' [.opening] rfl own
    · exact ⟨_, pushed, idle rfl⟩

theorem Reads.value (reads : w.Reads d params base text ts) (idle : (Scan.of d text).pending = .idle)
    (known : (w.value d.placeholder v).values <+: params) :
    ∃ text', (w.value d.placeholder v).Reads d params base text' (ts ++ Piece.tokens d (.value v)) := by
  unfold Writer.value at known ⊢
  cases null : v.isNull with
  | true =>
    have fits : d.fits true false "NULL" = true := by cases d <;> rfl
    have word : (Scan.of d "NULL").finish = [.word "NULL"] := by cases d <;> rfl
    obtain ⟨pushed, _⟩ := reads.push (fun _ => idle) fits
    rw [word] at pushed
    simp only [if_true, Piece.tokens, null]
    exact ⟨_, pushed⟩
  | false =>
    simp only [null, Bool.false_eq_true, if_false] at known
    simp only [Bool.false_eq_true, if_false, Piece.tokens, null]
    let mark := d.placeholder w.index
    have joined : Scan.run d (Scan.of d text) mark.toList = (Scan.of d mark).after (Scan.of d text).finish :=
      Scan.run_apart reads.unquoted (.inl idle)
    rw [← Scan.of_append, Scan.of_placeholder] at joined
    have place : d.parameterOf? w.values.length mark = some w.values.length := d.parameterOf_placeholder _
    have own : params[w.values.length]? = some v := by
      obtain ⟨later, rfl⟩ := known
      simp
    have spelt : (Scan.of d (text ++ mark)).finish = (Scan.of d text).finish ++ [.word mark] := by
      rw [joined, Scan.finish_after]
      simp [Scan.finish, mark]
    refine ⟨text ++ mark, ?_, ?_, ?_, ?_⟩
    · simp only [reads.sql, String.append_assoc, mark]
    · intro chars quoted
      rw [joined] at quoted
      cases quoted
    · rw [spelt, List.countP_append, ← Nat.add_assoc, reads.counted]
      simp [Dialect.isMark_word w.values.length, place]
    · rw [spelt, Dialect.resolve_append, reads.read, reads.counted]
      simp [Dialect.resolve, place, own]

theorem putAll_append (placeholder : Nat → String) (left right : List Piece) (w : Writer) :
    w.putAll placeholder (left ++ right) = (w.putAll placeholder left).putAll placeholder right :=
  List.foldl_append ..

theorem values_putAll (placeholder : Nat → String) (pieces : List Piece) (w : Writer) :
    w.values <+: (w.putAll placeholder pieces).values := by
  induction pieces generalizing w with
  | nil => exact List.prefix_rfl
  | cons piece rest ih =>
    refine List.IsPrefix.trans ?_ (ih (w.put placeholder piece))
    cases piece with
    | text t => exact List.prefix_rfl
    | space =>
      rw [put, space]
      split
      · exact List.prefix_rfl
      · split <;> exact List.prefix_rfl
    | value v =>
      rw [put, value]
      split
      · exact List.prefix_rfl
      · exact List.prefix_append ..

end Writer

-- Where nothing is pending, or else anywhere, the pieces add their own tokens.
def Legible (d : Dialect) (settled : Bool) (pieces : List Piece) : Prop :=
  ∀ (params : List Value) (base w : Writer) (text : String) (ts : List Token), w.Reads d params base text ts →
    (settled = true → (Scan.of d text).pending = .idle) → (w.putAll d.placeholder pieces).values <+: params →
      ∃ text', (w.putAll d.placeholder pieces).Reads d params base text' (ts ++ Piece.spelled d pieces)

namespace Legible

variable {d : Dialect} {settled : Bool} {pieces rest : List Piece}

theorem nil (d : Dialect) (settled : Bool) : Legible d settled [] := by
  intro params base w text ts reads _ _
  rw [Piece.spelled_nil, List.append_nil]
  exact ⟨text, reads⟩

theorem append (first : Legible d settled pieces) (later : Legible d false rest) : Legible d settled (pieces ++ rest) := by
  intro params base w text ts reads free known
  rw [Writer.putAll_append] at known ⊢
  obtain ⟨text', mid⟩ := first params base w text ts reads free ((Writer.values_putAll ..).trans known)
  obtain ⟨text'', whole⟩ := later params base _ text' _ mid (by simp) known
  rw [Piece.spelled_append, ← List.append_assoc]
  exact ⟨text'', whole⟩

-- A text of no characters is not noticed.
theorem empty (later : Legible d settled rest) : Legible d settled (.text "" :: rest) := by
  intro params base w text ts reads free known
  have same : w.push "" = w := by
    rw [Writer.push, String.append_empty]
  have silent : (Scan.of d "").finish = [] := by cases d <;> rfl
  rw [Writer.putAll, List.foldl_cons, Piece.spelled_text, silent, List.nil_append]
  change (w.push "" |>.putAll d.placeholder rest).values <+: params at known
  change ∃ text', (w.push "" |>.putAll d.placeholder rest).Reads d params base text' _
  rw [same] at known ⊢
  exact later params base w text ts reads free known

theorem text (next : Bool) (fits : d.fits settled next t = true) (later : Legible d next rest) :
    Legible d settled (.text t :: rest) := by
  intro params base w text ts reads free known
  obtain ⟨pushed, idle⟩ := reads.push free fits
  rw [Piece.spelled_text, ← List.append_assoc]
  exact later params base (w.push t) _ _ pushed idle known

theorem space (later : Legible d true rest) : Legible d settled (.space :: rest) := by
  intro params base w text ts reads _ known
  obtain ⟨text', spaced, idle⟩ := reads.space
  exact later params base w.space text' ts spaced (fun _ => idle) known

theorem value (later : Legible d false rest) : Legible d true (.value v :: rest) := by
  intro params base w text ts reads free known
  obtain ⟨text', valued⟩ := reads.value (v := v) (free rfl) ((Writer.values_putAll ..).trans known)
  obtain ⟨text'', whole⟩ := later params base (w.value d.placeholder v) text' _ valued (by simp) known
  rw [List.append_assoc] at whole
  exact ⟨text'', whole⟩

theorem name (later : Legible d false rest) : Legible d true (Render.name d ident :: rest) := by
  refine text false ?_ later
  simp [Dialect.fits, Scan.of_quoteName, Scan.finish, Dialect.isMark]

-- The text that is added, and its tokens.
theorem reads (legible : Legible d true pieces) (w : Writer) : ∃ text values,
    w.putAll d.placeholder pieces = ⟨w.sql ++ text, w.values ++ values⟩ ∧
      ∀ later, d.tokens? w.values.length (w.values ++ values ++ later) text = some (Piece.spelled d pieces) := by
  obtain ⟨values, known⟩ := Writer.values_putAll d.placeholder pieces w
  have whole : ∀ later, ∃ text, (w.putAll d.placeholder pieces).Reads d (w.values ++ values ++ later) w text
      (Piece.spelled d pieces) := by
    intro later
    have read := legible (w.values ++ values ++ later) w w "" [] (w.reads_self d _) (fun _ => rfl)
      (known ▸ List.prefix_append ..)
    simpa using read
  obtain ⟨text, first⟩ := whole []
  refine ⟨text, values, ?_, ?_⟩
  · rw [known, ← first.sql]
  · intro later
    obtain ⟨text', again⟩ := whole later
    have same : text' = text := String.append_right_inj _ |>.mp (again.sql.symm.trans first.sql)
    subst same
    unfold Dialect.tokens?
    split
    · rename_i chars quoted
      exact absurd quoted (again.unquoted chars)
    · rw [again.read]

end Legible
end FilterQuery
