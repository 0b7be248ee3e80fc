import FilterQuery.Sql.Render

namespace FilterQuery

-- Each text with the mark after it.
def interleave : List String → List String → String
  | text :: texts, mark :: marks => text ++ mark ++ interleave texts marks
  | _, _ => ""

theorem interleave_concat {texts marks : List String} (same : texts.length = marks.length) (text mark : String) :
    interleave (texts ++ [text]) (marks ++ [mark]) = interleave texts marks ++ text ++ mark := by
  induction texts generalizing marks with
  | nil =>
    cases marks with
    | nil => simp [interleave]
    | cons mark rest => simp at same
  | cons first texts ih =>
    cases marks with
    | nil => simp at same
    | cons head marks =>
      simp only [List.length_cons, Nat.add_right_cancel_iff] at same
      simp only [List.cons_append, interleave, ih same, String.append_assoc]

-- The word after such a mark is set off by a blank.
def Tight (mark : String) : Prop := ∃ c, mark.toList.getLast? = some c ∧ c ≠ ' ' ∧ c ≠ '('

theorem tight_append (text : String) (tight : Tight mark) : Tight (text ++ mark) := by
  obtain ⟨c, ends, apart⟩ := tight
  refine ⟨c, ?_, apart⟩
  rw [String.toList_append, List.getLast?_append, ends]
  rfl

theorem interleave_tight {texts marks : List String} (nonempty : texts ≠ []) (same : texts.length = marks.length)
    (tight : ∀ mark ∈ marks, Tight mark) : Tight (interleave texts marks) := by
  induction texts generalizing marks with
  | nil => exact absurd rfl nonempty
  | cons text rest ih =>
    cases marks with
    | nil => simp at same
    | cons mark marks =>
      simp only [List.length_cons, Nat.add_right_cancel_iff] at same
      rw [List.forall_mem_cons] at tight
      by_cases more : rest = []
      · subst more
        simp only [interleave, String.append_empty]
        exact tight_append text tight.1
      · exact tight_append _ (ih more same tight.2)

-- The marks of so many gaps, when a mark is told by the place of its gap.
def numbered (placeholder : Nat → String) (count : Nat) : List String :=
  (List.range count).map fun i => placeholder (i + 1)

theorem numbered_succ (placeholder : Nat → String) (count : Nat) :
    numbered placeholder (count + 1) = numbered placeholder count ++ [placeholder (count + 1)] := by
  rw [numbered, List.range_succ, List.map_append]
  rfl

@[simp] theorem length_numbered (placeholder : Nat → String) (count : Nat) :
    (numbered placeholder count).length = count := by
  simp [numbered]

theorem numbered_tight {placeholder : Nat → String} (tight : ∀ k, Tight (placeholder k)) (count : Nat) :
    ∀ mark ∈ numbered placeholder count, Tight mark := by
  intro mark member
  obtain ⟨i, _, rfl⟩ := List.mem_map.mp member
  exact tight (i + 1)

-- The texts before the gaps, the text after the last gap and the value of each gap.
structure Draft where
  before : List String
  last : String
  values : List Value

namespace Draft

def empty : Draft := ⟨[], "", []⟩

def push (dr : Draft) (text : String) : Draft := { dr with last := dr.last ++ text }

-- A gap counts as a word.
def space (dr : Draft) : Draft :=
  match dr.last.toList.getLast? with
  | none => if dr.before.isEmpty then dr else dr.push " "
  | some c => if c = ' ' ∨ c = '(' then dr else dr.push " "

def put (dr : Draft) : Piece → Draft
  | .text t => dr.push t
  | .space => dr.space
  | .value v => if v.isNull then dr.push "NULL" else ⟨dr.before ++ [dr.last], "", dr.values ++ [v]⟩

def putAll (dr : Draft) (pieces : List Piece) : Draft := pieces.foldl put dr

def text (dr : Draft) (marks : List String) : String := interleave dr.before marks ++ dr.last

-- One value for each gap.
def Level (dr : Draft) : Prop := dr.before.length = dr.values.length

theorem text_push (dr : Draft) (marks : List String) (text : String) :
    (dr.push text).text marks = dr.text marks ++ text := by
  simp only [Draft.text, push, String.append_assoc]

theorem space_or_push (dr : Draft) : dr.space = dr ∨ dr.space = dr.push " " := by
  unfold space
  split <;> split <;> simp

@[simp] theorem before_space (dr : Draft) : dr.space.before = dr.before := by
  rcases dr.space_or_push with same | pushed
  · rw [same]
  · rw [pushed, push]

@[simp] theorem values_space (dr : Draft) : dr.space.values = dr.values := by
  rcases dr.space_or_push with same | pushed
  · rw [same]
  · rw [pushed, push]

theorem text_gap {dr : Draft} {marks : List String} (same : dr.before.length = marks.length) (mark : String)
    (values : List Value) : (Draft.mk (dr.before ++ [dr.last]) "" values).text (marks ++ [mark]) =
      dr.text marks ++ mark := by
  simp only [text, interleave_concat same, String.append_empty, String.append_assoc]

theorem put_level {dr : Draft} (level : dr.Level) (piece : Piece) : (dr.put piece).Level := by
  unfold Level at *
  cases piece with
  | text t => exact level
  | space => simpa [put] using level
  | value v =>
    simp only [put]
    split
    · exact level
    · simp [level]

theorem putAll_level {dr : Draft} (level : dr.Level) (pieces : List Piece) : (dr.putAll pieces).Level := by
  induction pieces generalizing dr with
  | nil => exact level
  | cons piece rest ih => exact ih (put_level level piece)

theorem space_text {dr : Draft} {marks : List String} {w : Writer} (same : dr.before.length = marks.length)
    (tight : ∀ mark ∈ marks, Tight mark) (spelled : w.sql = dr.text marks) :
    w.space.sql = dr.space.text marks := by
  have ends : w.sql.toList.getLast? = dr.last.toList.getLast?.or (interleave dr.before marks).toList.getLast? := by
    rw [spelled, text, String.toList_append, List.getLast?_append]
  unfold space Writer.space
  rw [ends]
  cases dr.last.toList.getLast? with
  | some c =>
    simp only [Option.some_or]
    split
    · exact spelled
    · rw [text_push, ← spelled]
      rfl
  | none =>
    rw [Option.none_or]
    by_cases first : dr.before = []
    · rw [first, interleave.eq_def]
      exact spelled
    · obtain ⟨c, last, apart⟩ := interleave_tight first same tight
      rw [last]
      simp only [List.isEmpty_iff, first, if_false, apart.1, apart.2, or_self]
      rw [text_push, ← spelled]
      rfl

-- What is written for a gap is the placeholder of the next index, so the marks stay in step with the gaps.
theorem putAll_numbered {placeholder : Nat → String} (tight : ∀ k, Tight (placeholder k)) (pieces : List Piece)
    {dr : Draft} (level : dr.Level) {w : Writer} (held : w.values = dr.values)
    (spelled : w.sql = dr.text (numbered placeholder dr.values.length)) :
    (w.putAll placeholder pieces).values = (dr.putAll pieces).values ∧
      (w.putAll placeholder pieces).sql =
        (dr.putAll pieces).text (numbered placeholder (dr.putAll pieces).values.length) := by
  induction pieces generalizing w dr with
  | nil => exact ⟨held, spelled⟩
  | cons piece rest ih =>
    refine ih (put_level level piece) ?_ ?_
    · cases piece with
      | text t => exact held
      | space =>
        simp only [put, values_space, ← held, Writer.put, Writer.space]
        split
        · rfl
        · split <;> rfl
      | value v =>
        simp only [put, Writer.put, Writer.value]
        split
        · exact held
        · rw [held]
    · have same : dr.before.length = (numbered placeholder dr.values.length).length := by
        rw [length_numbered]
        exact level
      cases piece with
      | text t =>
        simp only [Writer.put, Writer.push, spelled]
        exact (text_push ..).symm
      | space =>
        simp only [put, values_space, Writer.put]
        exact space_text same (numbered_tight tight _) spelled
      | value v =>
        simp only [put, Writer.put, Writer.value]
        split
        · rw [text_push]
          simp only [Writer.push, push, spelled]
        · rw [List.length_append, List.length_singleton, numbered_succ, text_gap same, Writer.index, held, spelled]

end Draft

-- The piece with its value written out where its placeholder would stand.
def Piece.inPlace (literal : Value → String) : Piece → Piece
  | .value v => if v.isNull then .value v else .text (literal v)
  | piece => piece

namespace Draft

theorem putAll_inPlace {literal : Value → String} (tight : ∀ v, Tight (literal v)) (placeholder : Nat → String)
    (pieces : List Piece) {dr : Draft} (level : dr.Level) {w : Writer}
    (spelled : w.sql = dr.text (dr.values.map literal)) :
    (w.putAll placeholder (pieces.map (Piece.inPlace literal))).sql =
      (dr.putAll pieces).text ((dr.putAll pieces).values.map literal) := by
  induction pieces generalizing w dr with
  | nil => exact spelled
  | cons piece rest ih =>
    refine ih (put_level level piece) ?_
    have same : dr.before.length = (dr.values.map literal).length := by
      rw [List.length_map]
      exact level
    have marks : ∀ mark ∈ dr.values.map literal, Tight mark := by
      intro mark member
      obtain ⟨v, _, rfl⟩ := List.mem_map.mp member
      exact tight v
    cases piece with
    | text t =>
      simp only [Piece.inPlace, Writer.put, Writer.push, spelled]
      exact (text_push ..).symm
    | space =>
      simp only [Piece.inPlace, put, values_space, Writer.put]
      exact space_text same marks spelled
    | value v =>
      cases null : v.isNull with
      | true =>
        simp only [Piece.inPlace, null, if_true, put, Writer.put, Writer.value, Writer.push, spelled]
        exact (text_push ..).symm
      | false =>
        simp only [Piece.inPlace, null, Bool.false_eq_true, if_false, put, Writer.put, Writer.push, spelled,
          List.map_append, List.map_singleton, text_gap same]

end Draft

def Piece.value? : Piece → Option Value
  | .value v => some v
  | _ => none

-- The values among the pieces, null ones too.
def Piece.values (pieces : List Piece) : List Value := pieces.filterMap value?

theorem Draft.values_putAll (pieces : List Piece) (dr : Draft) :
    (dr.putAll pieces).values = dr.values ++ (Piece.values pieces).filter fun v => !v.isNull := by
  induction pieces generalizing dr with
  | nil => simp [putAll, Piece.values]
  | cons piece rest ih =>
    have later := ih (dr.put piece)
    cases piece with
    | text t => exact later
    | space =>
      rw [put, values_space] at later
      exact later
    | value v =>
      cases null : v.isNull with
      | true => simpa [putAll, put, push, Piece.values, Piece.value?, null] using later
      | false => simpa [putAll, put, Piece.values, Piece.value?, null] using later

-- What pagination writes: SQL Server states an offset whenever it pages, and states it first.
def Dialect.pageValues (d : Dialect) (limit offset : Option Nat) : List Value :=
  match d with
  | .msSql =>
    if limit.isNone && offset.isNone then [] else rowCount (offset.getD 0) :: (limit.map rowCount).toList
  | _ => (limit.map rowCount).toList ++ (offset.map rowCount).toList

-- How often a sort key is written: once more for a null placement that the dialect lacks.
def Dialect.keyCopies (d : Dialect) (nulls : Nulls) : Nat :=
  if nulls ≠ .default ∧ !d.placesNulls then 2 else 1

namespace Expr

mutual
-- The values that stand in an expression, in writing order. A template has as many arguments as holes.
def written (d : Dialect) : Expr → List Value
  | column _ _ => []
  | value v => [v]
  | binary left _ right => left.written d ++ right.written d
  | inList e list _ => e.written d ++ listWritten d list
  | isNull e _ => e.written d
  | and members => listWritten d members
  | or members => listWritten d members
  | not e => e.written d
  | notTrue e => e.written d
  | func _ args => listWritten d args
  | template text args => firstWritten d text.rest args
  | existsIn query _ => selectWritten d query
  | scalar query => selectWritten d query
  | constant _ => []

def listWritten (d : Dialect) : List Expr → List Value
  | [] => []
  | e :: rest => e.written d ++ listWritten d rest

def firstWritten (d : Dialect) : List String → List Expr → List Value
  | _ :: texts, e :: rest => e.written d ++ firstWritten d texts rest
  | _, _ => []

def selectWritten (d : Dialect) : Select → List Value
  | ⟨_, _, columns, joins, conditions, orders, limit, offset⟩ =>
    listWritten d columns ++ joinsWritten d joins ++ listWritten d conditions ++ ordersWritten d orders ++
      d.pageValues limit offset

def joinsWritten (d : Dialect) : List Join → List Value
  | [] => []
  | ⟨_, _, _, condition⟩ :: rest => condition.written d ++ joinsWritten d rest

def ordersWritten (d : Dialect) : List SortKey → List Value
  | [] => []
  | ⟨key, _, nulls⟩ :: rest =>
    (List.replicate (d.keyCopies nulls) (key.written d)).flatten ++ ordersWritten d rest
end

end Expr

def Select.written (d : Dialect) (s : Select) : List Value := Expr.selectWritten d s

namespace Piece

@[simp] theorem values_nil : values [] = [] := rfl

@[simp] theorem values_append (left right : List Piece) : values (left ++ right) = values left ++ values right := by
  simp [values]

@[simp] theorem values_text (t : String) (rest : List Piece) : values (text t :: rest) = values rest := rfl

@[simp] theorem values_space (rest : List Piece) : values (space :: rest) = values rest := rfl

@[simp] theorem values_value (v : Value) (rest : List Piece) : values (value v :: rest) = v :: values rest := rfl

@[simp] theorem values_keyword (word : String) : values (keyword word) = [] := rfl

@[simp] theorem values_bound (word : String) (v : Value) : values (bound word v) = [v] := rfl

end Piece

namespace Render
open Piece

@[simp] theorem values_name (d : Dialect) (ident : String) (rest : List Piece) :
    values (name d ident :: rest) = values rest := rfl

@[simp] theorem values_columnName (d : Dialect) (table : Option String) (column : String) :
    values (columnName d table column) = [] := by
  cases table <;> rfl

@[simp] theorem values_grouped (group : Bool) (pieces : List Piece) : values (grouped group pieces) = values pieces := by
  cases group <;> simp [grouped]

@[simp] theorem values_asBinding (d : Dialect) (binding : String) : values (asBinding d binding) = [] := rfl

@[simp] theorem values_fromPieces (d : Dialect) (table binding : String) : values (fromPieces d table binding) = [] := by
  unfold fromPieces
  split <;> rfl

@[simp] theorem values_notTrue (d : Dialect) (inner : List Piece) : values (notTrue d inner) = values inner := by
  unfold notTrue
  split <;> simp

@[simp] theorem values_texts (texts : List String) : values (texts.map .text) = [] := by
  induction texts with
  | nil => rfl
  | cons t rest ih => exact ih

theorem values_sortKey (d : Dialect) (key : List Piece) (direction : Direction) (nulls : Nulls) :
    values (sortKey d key direction nulls) = (List.replicate (d.keyCopies nulls) (values key)).flatten := by
  have word : values (nullsWord nulls) = [] := by cases nulls <;> rfl
  unfold sortKey Dialect.keyCopies
  split
  · simp [nullsIndicator, List.replicate_succ]
  · simp [word, List.replicate_succ]

theorem values_pagination (d : Dialect) (ordered : Bool) (limit offset : Option Nat) :
    values (d.pagination ordered limit offset) = d.pageValues limit offset := by
  cases d <;> cases limit <;> cases offset <;> cases ordered <;> rfl

mutual
theorem values_expr (d : Dialect) (e : Expr) : values (expr d e) = e.written d := by
  cases e with
  | column table column => simp [expr, Expr.written]
  | value v => simp [expr, Expr.written]
  | binary left op right => simp [expr, Expr.written, values_expr d left, values_expr d right]
  | inList e list negated => simp [expr, Expr.written, values_expr d e, values_members d _ _ list]
  | isNull e negated => simp [expr, Expr.written, values_expr d e]
  | and parts => simp [expr, Expr.written, values_members d _ _ parts]
  | or parts => simp [expr, Expr.written, values_members d _ _ parts]
  | not e => simp [expr, Expr.written, values_expr d e]
  | notTrue e => simp [expr, Expr.written, values_expr d e]
  | func f args => simp [expr, Expr.written, values_members d _ _ args]
  | template text args => simp [expr, Expr.written, values_filled d text.rest args]
  | existsIn query negated => simp [expr, Expr.written, values_select d query]
  | scalar query => simp [expr, Expr.written, values_select d query]
  | constant b => cases b <;> simp [expr, Expr.written]

theorem values_members (d : Dialect) (separator : String) (group : Expr → Bool) (list : List Expr) :
    values (members d separator group list) = Expr.listWritten d list := by
  match list with
  | [] => simp [members, Expr.listWritten]
  | [e] => simp [members, Expr.listWritten, values_expr d e]
  | e :: next :: rest =>
    have later := values_members d separator group (next :: rest)
    simp [members, Expr.listWritten, values_expr d e] at later ⊢
    exact later

theorem values_filled (d : Dialect) (texts : List String) (args : List Expr) :
    values (filled d texts args) = Expr.firstWritten d texts args := by
  match texts, args with
  | [], _ => simp [filled, Expr.firstWritten]
  | _ :: _, [] => simp [filled, Expr.firstWritten]
  | _ :: texts, e :: rest => simp [filled, Expr.firstWritten, values_expr d e, values_filled d texts rest]

theorem values_select (d : Dialect) (s : Select) : values (select d s) = Expr.selectWritten d s := by
  match s with
  | ⟨table, binding, columns, joins, conditions, orders, limit, offset⟩ =>
    have shown : values (if columns.isEmpty then [name d binding, .text ".*"]
        else members d ", " (fun _ => false) columns) = Expr.listWritten d columns := by
      split
      · rename_i empty
        rw [List.isEmpty_iff.mp empty]
        rfl
      · exact values_members ..
    have narrowed : values (if conditions.isEmpty then [] else Piece.keyword "WHERE" ++ .space ::
        members d " AND " (fun e => 1 < conditions.length && e.isOr) conditions) = Expr.listWritten d conditions := by
      split
      · rename_i empty
        rw [List.isEmpty_iff.mp empty]
        rfl
      · simp [values_members d _ _ conditions]
    have sorted : values (if orders.isEmpty then [] else Piece.keyword "ORDER BY" ++ .space ::
        orderPieces d orders) = Expr.ordersWritten d orders := by
      split
      · rename_i empty
        rw [List.isEmpty_iff.mp empty]
        rfl
      · simp [values_orderPieces d orders]
    rw [select, Expr.selectWritten]
    simp only [values_append, values_text, values_space, shown, values_fromPieces, values_joinPieces d joins,
      narrowed, sorted, values_pagination, List.append_nil]

theorem values_joinPieces (d : Dialect) (joins : List Join) :
    values (joinPieces d joins) = Expr.joinsWritten d joins := by
  match joins with
  | [] => simp [joinPieces, Expr.joinsWritten]
  | ⟨kind, table, binding, condition⟩ :: rest =>
    simp [joinPieces, Expr.joinsWritten, values_expr d condition, values_joinPieces d rest]

theorem values_orderPieces (d : Dialect) (orders : List SortKey) :
    values (orderPieces d orders) = Expr.ordersWritten d orders := by
  match orders with
  | [] => simp [orderPieces, Expr.ordersWritten]
  | [⟨key, direction, nulls⟩] => simp [orderPieces, Expr.ordersWritten, values_sortKey, values_expr d key]
  | ⟨key, direction, nulls⟩ :: next :: rest =>
    have later := values_orderPieces d (next :: rest)
    rw [orderPieces, Expr.ordersWritten, values_append, values_text, values_sortKey, values_expr d key, later]
    simp
end

end Render

-- The statement with its values written out where their placeholders would stand.
def Select.inPlace (d : Dialect) (literal : Value → String) (s : Select) : String :=
  (Writer.empty.putAll d.placeholder ((Render.select d s).map (Piece.inPlace literal))).sql

-- The number that a run of digits is read as.
def readDigits (digits : List Char) : Nat := digits.foldl (fun n c => n * 10 + (c.toNat - 48)) 0

theorem readDigits_toDigits (n : Nat) : readDigits (Nat.toDigits 10 n) = n := by
  induction n using Nat.strongRecOn with
  | ind n ih =>
    by_cases small : n < 10
    · rw [Nat.toDigits_of_lt_base small]
      simp [readDigits, Nat.toNat_digitChar_sub_48_of_lt_ten small]
    · have last : n % 10 < 10 := Nat.mod_lt n (by decide)
      have front := ih (n / 10) (by omega)
      rw [readDigits] at front
      rw [Nat.toDigits_of_base_le (by decide) (by omega), readDigits, List.foldl_append, front, List.foldl_cons,
        List.foldl_nil, Nat.toNat_digitChar_sub_48_of_lt_ten last]
      omega

namespace Dialect

-- Whether placeholders carry their index.
def numbers : Dialect → Bool
  | postgres | cockroachDb | msSql => true
  | mySql | sqlite => false

theorem digits_tight (index : Nat) : Tight (toString index) := by
  have ends := List.getLast?_eq_some_getLast (Nat.toDigits_ne_nil (n := index) (b := 10))
  have digit := Nat.isDigit_of_mem_toDigits (by decide) (by decide) (List.mem_of_getLast? ends)
  refine ⟨_, by simpa using ends, ?_, ?_⟩
  · intro blank
    rw [blank] at digit
    cases digit
  · intro bracket
    rw [bracket] at digit
    cases digit

theorem placeholder_tight (d : Dialect) (index : Nat) : Tight (d.placeholder index) := by
  cases d with
  | postgres | cockroachDb => exact tight_append "$" (digits_tight index)
  | msSql => exact tight_append "@P" (digits_tight index)
  | mySql | sqlite => exact ⟨'?', by simp [placeholder], by decide, by decide⟩

theorem digits_inj {first second : Nat} (same : toString first = toString second) : first = second := by
  have digits : Nat.toDigits 10 first = Nat.toDigits 10 second := by
    simpa using congrArg String.toList same
  rw [← readDigits_toDigits first, digits, readDigits_toDigits]

theorem placeholder_inj {d : Dialect} (own : d.numbers = true) {first second : Nat}
    (same : d.placeholder first = d.placeholder second) : first = second := by
  cases d with
  | postgres | cockroachDb | msSql => exact digits_inj (String.append_right_inj _ |>.mp same)
  | mySql | sqlite => cases own

theorem numbered_nodup {d : Dialect} (own : d.numbers = true) (count : Nat) :
    (numbered d.placeholder count).Nodup := by
  refine List.Pairwise.map _ ?_ List.nodup_range
  intro first second different same
  exact different (Nat.succ.inj (placeholder_inj own same))

theorem numbered_positional {d : Dialect} (own : d.numbers = false) (count : Nat) :
    numbered d.placeholder count = List.replicate count "?" := by
  refine List.eq_replicate_iff.mpr ⟨length_numbered _ _, ?_⟩
  intro mark member
  obtain ⟨i, _, rfl⟩ := List.mem_map.mp member
  cases d with
  | postgres | cockroachDb | msSql => cases own
  | mySql | sqlite => rfl

end Dialect

-- The parameters are the values of the statement that are not null, in writing order. The placeholders 1 to n
-- stand one in each gap of the text, in order, and the k-th stands where the k-th parameter would be written.
theorem Select.build_placeholders (d : Dialect) (s : Select) :
    (s.build d).values = (s.written d).filter (fun v => !v.isNull) ∧
      ∃ n texts last, n = (s.build d).values.length ∧ texts.length = n ∧
        (s.build d).sql = interleave texts (numbered d.placeholder n) ++ last ∧
        (d.numbers = true → (numbered d.placeholder n).Nodup) ∧
        (d.numbers = false → numbered d.placeholder n = List.replicate n "?") ∧
        ∀ literal : Value → String, (∀ v, Tight (literal v)) →
          s.inPlace d literal = interleave texts ((s.build d).values.map literal) ++ last := by
  let start : Draft := .empty
  let dr := start.putAll (Render.select d s)
  have empty : start.Level := rfl
  obtain ⟨held, spelled⟩ : (s.build d).values = dr.values ∧
      (s.build d).sql = dr.text (numbered d.placeholder dr.values.length) :=
    Draft.putAll_numbered d.placeholder_tight (Render.select d s) empty rfl rfl
  refine ⟨?_, dr.values.length, dr.before, dr.last, ?_, Draft.putAll_level empty _, spelled,
    fun own => Dialect.numbered_nodup own _, fun own => Dialect.numbered_positional own _, ?_⟩
  · rw [held, Draft.values_putAll, Render.values_select]
    rfl
  · rw [held]
  · intro literal tight
    rw [held]
    exact Draft.putAll_inPlace tight d.placeholder (Render.select d s) empty rfl

end FilterQuery
