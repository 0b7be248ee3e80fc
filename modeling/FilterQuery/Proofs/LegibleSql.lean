import FilterQuery.Proofs.SqlReading
import FilterQuery.Proofs.WrittenTokens

namespace FilterQuery

-- Neither brackets nor names, and nothing that would count as a mark.
def Dialect.plain (d : Dialect) (text : String) : Bool :=
  (match (Scan.of d text).pending with
    | .quoted _ => false
    | _ => true) &&
  (Scan.of d text).finish.all fun
    | .word w => !d.isMark (.word w)
    | _ => false

def Token.isLevel : Token → Bool
  | .opening | .closing => false
  | _ => true

theorem within_level {ts : List Token} (level : ts.all Token.isLevel = true) (depth : Nat) : Within (depth + 1) ts := by
  refine .tokens fun t member => ⟨?_, by simp⟩
  have flat := List.all_eq_true.mp level t member
  cases t <;> first | rfl | cases flat

-- So many brackets are open after the tokens, if so many were before; none if one is closed that was not opened.
def openAfter : Nat → List Token → Option Nat
  | opened, [] => some opened
  | opened, .opening :: rest => openAfter (opened + 1) rest
  | 0, .closing :: _ => none
  | opened + 1, .closing :: rest => openAfter opened rest
  | opened, _ :: rest => openAfter opened rest

theorem Spans.of_openAfter {ts : List Token} (walk : openAfter before ts = some after) (base : Nat) :
    Spans (base + before + 1) (base + after + 1) ts := by
  fun_induction openAfter before ts with
  | case1 opened =>
    cases walk
    exact nil _
  | case2 opened rest ih => exact (opening _).append (ih walk)
  | case3 rest => cases walk
  | case4 opened rest ih => exact (closing _).append (ih walk)
  | case5 opened t rest notOpening notClosing notClosing' ih =>
    have first : Within (base + opened + 1) [t] := by
      refine .tokens fun t' member => ⟨?_, by simp⟩
      rw [List.mem_singleton.mp member]
      cases t with
      | opening => exact absurd rfl notOpening
      | closing => cases opened <;> simp_all
      | _ => rfl
    exact first.append (ih walk)

-- A text that fits, and by which the number of open brackets goes from one to the other.
def Dialect.moves (d : Dialect) (settled next : Bool) (before after : Nat) (text : String) : Bool :=
  d.fits settled next text && openAfter before (Scan.of d text).finish == some after

theorem openAfter_append {ts us : List Token} (walk : openAfter before ts = some mid) :
    openAfter before (ts ++ us) = openAfter mid us := by
  fun_induction openAfter before ts with
  | case1 opened =>
    cases walk
    rfl
  | case2 opened rest ih => exact ih walk
  | case3 rest => cases walk
  | case4 opened rest ih => exact ih walk
  | case5 opened t rest notOpening notClosing notClosing' ih =>
    rw [List.cons_append, openAfter]
    · exact ih walk
    · exact notOpening
    · exact notClosing
    · exact notClosing'

-- Brackets around the tokens make no difference to those among them.
theorem openAfter_add {ts : List Token} (walk : openAfter before ts = some after) (base : Nat) :
    openAfter (before + base) ts = some (after + base) := by
  fun_induction openAfter before ts with
  | case1 opened =>
    cases walk
    simp [openAfter]
  | case2 opened rest ih =>
    have later := ih walk
    rwa [Nat.add_right_comm] at later
  | case3 rest => cases walk
  | case4 opened rest ih =>
    have later := ih walk
    rwa [openAfter.eq_def, Nat.succ_eq_add_one, Nat.add_right_comm]
  | case5 opened t rest notOpening notClosing notClosing' ih =>
    have later := ih walk
    cases t with
    | opening => exact absurd rfl notOpening
    | closing =>
      cases opened with
      | zero => exact absurd rfl (notClosing rfl)
      | succ opened => exact absurd rfl (notClosing' opened rfl)
    | _ => simpa [openAfter] using later

-- Legible, and with so many brackets open before and after.
structure Nested (d : Dialect) (settled : Bool) (before after : Nat) (pieces : List Piece) : Prop where
  legible : Legible d settled pieces
  walk : openAfter before (Piece.spelled d pieces) = some after

-- Every bracket is closed.
abbrev Neat (d : Dialect) (settled : Bool) (pieces : List Piece) : Prop := Nested d settled 0 0 pieces

namespace Nested

variable {d : Dialect} {settled : Bool} {before mid after : Nat} {pieces rest : List Piece}

-- Inside of a bracket that is open around them.
theorem spans (nested : Nested d settled before after pieces) (base : Nat) :
    Spans (base + before + 1) (base + after + 1) (Piece.spelled d pieces) :=
  .of_openAfter nested.walk base

theorem nil : Nested d settled before before [] := ⟨.nil d settled, by simp [openAfter]⟩

theorem append (first : Nested d settled before mid pieces) (later : Nested d false mid after rest) :
    Nested d settled before after (pieces ++ rest) := by
  refine ⟨first.legible.append later.legible, ?_⟩
  rw [Piece.spelled_append, openAfter_append first.walk]
  exact later.walk

theorem text (next : Bool) (moves : d.moves settled next before mid t = true) (later : Nested d next mid after rest) :
    Nested d settled before after (.text t :: rest) := by
  rw [Dialect.moves, Bool.and_eq_true, beq_iff_eq] at moves
  refine ⟨.text next moves.1 later.legible, ?_⟩
  rw [Piece.spelled_text, openAfter_append moves.2]
  exact later.walk

theorem space (later : Nested d true before after rest) : Nested d settled before after (.space :: rest) :=
  ⟨later.legible.space, later.walk⟩

theorem value (later : Nested d false before after rest) : Nested d true before after (.value v :: rest) := by
  refine ⟨later.legible.value, ?_⟩
  have own : openAfter before (Piece.tokens d (.value v)) = some before := by
    rw [Piece.tokens]
    split <;> simp [openAfter]
  exact (openAfter_append own).trans later.walk

theorem name (later : Nested d false before after rest) : Nested d true before after (Render.name d ident :: rest) := by
  refine ⟨later.legible.name, ?_⟩
  rw [Piece.spelled_name]
  simpa [openAfter] using later.walk

theorem empty (later : Nested d settled before after rest) : Nested d settled before after (.text "" :: rest) := by
  have silent : (Scan.of d "").finish = [] := by cases d <;> rfl
  refine ⟨later.legible.empty, ?_⟩
  rw [Piece.spelled_text, silent]
  exact later.walk

theorem followed (first : Neat d settled pieces) (later : Neat d false rest) : Neat d settled (pieces ++ rest) :=
  first.append later

-- What closes its own brackets may stand inside others.
theorem inside (neat : Neat d settled pieces) : Nested d settled before before pieces := by
  refine ⟨neat.legible, ?_⟩
  have walk := openAfter_add neat.walk before
  rwa [Nat.zero_add] at walk

-- From a text that opens a bracket to one that closes it.
theorem group (next : Bool) (opens : d.moves settled true 0 1 first = true) (inner : Neat d true pieces)
    (closes : d.moves false next 1 0 last = true) (later : Neat d next rest) :
    Neat d settled (.text first :: pieces ++ .text last :: rest) :=
  text true opens (inner.inside.append (text next closes later))

theorem bracket (opens : d.moves settled true 0 1 first = true) (inner : Neat d true pieces) :
    Neat d settled (.text first :: pieces ++ [.text ")"]) :=
  group false opens inner (by cases d <;> rfl) nil

theorem grouped (inner : Neat d true pieces) (weak : Bool) : Neat d true (Render.grouped weak pieces) := by
  cases weak with
  | false => exact inner
  | true => exact bracket (by cases d <;> rfl) inner

theorem keyword (level : d.moves true false 0 0 word = true) : Neat d settled (Piece.keyword word) :=
  space (text false level nil)

theorem bound (level : d.moves true false 0 0 word = true) : Neat d settled (Piece.bound word v) :=
  (keyword level).append (space (value nil))

end Nested

namespace Dialect

theorem pagination_none (d : Dialect) (ordered : Bool) : d.pagination ordered none none = [] := by
  cases d <;> rfl

variable {d : Dialect}

theorem plain_words (plain : d.plain t = true) :
    ∀ token ∈ (Scan.of d t).finish, d.isMark token = false ∧ ∃ w, token = .word w := by
  simp only [Dialect.plain, Bool.and_eq_true, List.all_eq_true] at plain
  intro token member
  have own := plain.2 token member
  split at own
  · exact ⟨by simpa using own, _, rfl⟩
  · cases own

theorem openAfter_words {ts : List Token} (words : ∀ token ∈ ts, ∃ w, token = .word w) (opened : Nat) :
    openAfter opened ts = some opened := by
  induction ts with
  | nil => simp [openAfter]
  | cons t rest ih =>
    rw [List.forall_mem_cons] at words
    obtain ⟨⟨w, rfl⟩, later⟩ := words
    simpa [openAfter] using ih later

theorem moves_of_plain (plain : d.plain t = true) : d.moves true false 0 0 t = true := by
  have words := plain_words plain
  have walk := openAfter_words (fun token member => (words token member).2) 0
  simp only [Dialect.plain, Bool.and_eq_true] at plain
  simp only [moves, fits, walk, Bool.and_eq_true, List.all_eq_true, Bool.not_eq_true', Bool.true_or, and_true,
    Bool.not_false, beq_self_eq_true]
  refine ⟨?_, fun token member => (words token member).1⟩
  cases pending : (Scan.of d t).pending with
  | quoted chars => simp [pending] at plain
  | _ => rfl

end Dialect

-- The texts keep apart what is put between them and close every bracket, so many being open before.
def Dialect.surrounds (d : Dialect) : Bool → Nat → List String → Bool
  | _, opened, [] => opened == 0
  | settled, opened, text :: rest =>
    (d.fits settled (!rest.isEmpty) text || rest.isEmpty && text == "") &&
      match openAfter opened (Scan.of d text).finish with
      | some deeper => d.surrounds false deeper rest
      | none => false

mutual
-- The words that an expression brings along are words, and its templates have an argument for each hole; so too in
-- its subqueries.
def Expr.Plain (d : Dialect) : Expr → Prop
  | .column _ _ => True
  | .value _ => True
  | .binary left op right => left.Plain d ∧ d.plain op.symbol = true ∧ right.Plain d
  | .inList e list _ => e.Plain d ∧ Expr.AllPlain d list
  | .isNull e _ => e.Plain d
  | .and members => Expr.AllPlain d members
  | .or members => Expr.AllPlain d members
  | .not e => e.Plain d
  | .notTrue e => e.Plain d
  | .func f args => d.plain f = true ∧ Expr.AllPlain d args
  | .template text args =>
    args.length = text.rest.length ∧ d.surrounds true 0 (text.lead :: text.rest) = true ∧ Expr.AllPlain d args
  | .existsIn query _ => query.Plain d
  | .scalar query => query.Plain d
  | .constant _ => True

def Expr.AllPlain (d : Dialect) : List Expr → Prop
  | [] => True
  | e :: rest => e.Plain d ∧ Expr.AllPlain d rest

def Select.Plain (d : Dialect) : Select → Prop
  | ⟨_, _, columns, joins, conditions, orders, _, _⟩ =>
    Expr.AllPlain d columns ∧ Select.JoinsPlain d joins ∧ Expr.AllPlain d conditions ∧ Select.OrdersPlain d orders

def Select.JoinsPlain (d : Dialect) : List Join → Prop
  | [] => True
  | ⟨_, _, _, condition⟩ :: rest => condition.Plain d ∧ Select.JoinsPlain d rest

def Select.OrdersPlain (d : Dialect) : List SortKey → Prop
  | [] => True
  | ⟨key, _, _⟩ :: rest => key.Plain d ∧ Select.OrdersPlain d rest
end

namespace Render

variable {d : Dialect}

theorem neat_columnName (table : Option String) (column : String) : Neat d true (columnName d table column) := by
  cases table with
  | none => exact .name .nil
  | some t => exact .name (.text true (by cases d <;> rfl) (.name .nil))

theorem neat_asBinding (binding : String) : Neat d false (asBinding d binding) :=
  .append (.keyword (by cases d <;> rfl)) (.space (.name .nil))

theorem neat_fromPieces (table binding : String) : Neat d false (fromPieces d table binding) := by
  have front : Neat d false (Piece.keyword "FROM" ++ [.space, name d table]) :=
    .append (.keyword (by cases d <;> rfl)) (.space (.name .nil))
  refine front.append ?_
  split
  · exact .nil
  · exact neat_asBinding binding

theorem neat_notTrue (inner : Neat d true pieces) : Neat d true (notTrue d pieces) := by
  unfold notTrue
  split
  · exact .group false (by cases d <;> rfl) inner (by cases d <;> rfl) .nil
  · refine .append (.text true (by cases d <;> rfl) inner) ?_
    exact .text false (by cases d <;> rfl) .nil

theorem neat_limitPieces (limit offset : Option Nat) : Neat d false (Dialect.limitPieces limit offset) := by
  refine .followed ?_ ?_
  · cases limit with
    | none => exact .nil
    | some n => exact .bound (by cases d <;> rfl)
  · cases offset with
    | none => exact .nil
    | some n => exact .bound (by cases d <;> rfl)

theorem neat_msSqlPagination (ordered : Bool) (limit offset : Option Nat) :
    Neat d false (Dialect.msSqlPagination ordered limit offset) := by
  unfold Dialect.msSqlPagination
  split
  · exact .nil
  · refine .followed (.followed (.followed ?_ ?_) ?_) ?_
    · split
      · exact .nil
      · exact .keyword (by cases d <;> rfl)
    · exact .bound (by cases d <;> rfl)
    · exact .keyword (by cases d <;> rfl)
    · cases limit with
      | none => exact .nil
      | some n => exact .append (.bound (by cases d <;> rfl)) (.keyword (by cases d <;> rfl))

theorem neat_pagination (ordered : Bool) (limit offset : Option Nat) :
    Neat d false (d.pagination ordered limit offset) := by
  cases d with
  | postgres | cockroachDb => exact neat_limitPieces limit offset
  | mySql =>
    match limit, offset with
    | none, some n => exact .bound (v := rowCount n) rfl
    | none, none => exact neat_limitPieces none none
    | some n, offset => exact neat_limitPieces (some n) offset
  | sqlite =>
    match limit, offset with
    | none, some n =>
      have front : Neat .sqlite false (Piece.keyword "LIMIT" ++ [.space, .text "-1"]) :=
        .append (.keyword rfl) (.space (.text false rfl .nil))
      exact front.append (.bound (v := rowCount n) rfl)
    | none, none => exact neat_limitPieces none none
    | some n, offset => exact neat_limitPieces (some n) offset
  | msSql => exact neat_msSqlPagination ordered limit offset

theorem neat_sortKey {key : List Piece} (neat : Neat d true key) (direction : Direction) (nulls : Nulls) :
    Neat d true (sortKey d key direction nulls) := by
  have word : Neat d false (Piece.keyword direction.keyword) := by
    cases direction <;> exact .keyword (by cases d <;> rfl)
  unfold sortKey
  split
  · have again : Neat d true (key ++ Piece.keyword direction.keyword) := neat.append word
    have after : ∀ test, d.moves false false 0 0 test = true →
        Neat d true (.text "CASE WHEN " :: (key ++ .text test :: .text ", " :: (key ++ Piece.keyword direction.keyword))) := by
      intro test level
      refine .text true (by cases d <;> rfl) (neat.append (.text false level ?_))
      exact .text true (by cases d <;> rfl) again
    cases nulls with
    | first => simpa [nullsIndicator] using after " IS NULL THEN 0 ELSE 1 END" (by cases d <;> rfl)
    | last | default => simpa [nullsIndicator] using after " IS NULL THEN 1 ELSE 0 END" (by cases d <;> rfl)
  · refine .append (.append neat word) ?_
    cases nulls with
    | default => exact .nil
    | first | last => exact .keyword (by cases d <;> rfl)

mutual
theorem neat_expr (e : Expr) (plain : e.Plain d) : Neat d true (expr d e) := by
  cases e with
  | column table column => exact neat_columnName table column
  | value v => exact .value .nil
  | binary left op right =>
    rw [Expr.Plain] at plain
    have first := (neat_expr left plain.1).grouped left.isWeak
    have second := (neat_expr right plain.2.2).grouped right.isWeak
    have word : Neat d false (Piece.keyword op.symbol) := .keyword (Dialect.moves_of_plain plain.2.1)
    simpa [expr] using (first.append word).append (.space second)
  | inList e list negated =>
    rw [Expr.Plain] at plain
    have first := (neat_expr e plain.1).grouped e.isWeak
    have word : Neat d false (Piece.keyword (if negated then "NOT IN" else "IN")) := by
      cases negated <;> exact .keyword (by cases d <;> rfl)
    have items : Neat d false (.text " (" :: members d ", " (fun _ => false) list ++ [.text ")"]) :=
      .bracket (by cases d <;> rfl) (neat_members ", " (fun _ => false) (by cases d <;> rfl) list plain.2)
    simpa [expr] using (first.append word).append items
  | isNull e negated =>
    rw [Expr.Plain] at plain
    have word : Neat d false (Piece.keyword (if negated then "IS NOT NULL" else "IS NULL")) := by
      cases negated <;> exact .keyword (by cases d <;> rfl)
    exact ((neat_expr e plain).grouped e.isWeak).append word
  | and parts => exact neat_members " AND " Expr.isOr (by cases d <;> rfl) parts plain
  | or parts => exact neat_members " OR " Expr.isAnd (by cases d <;> rfl) parts plain
  | not e => exact .bracket (by cases d <;> rfl) (neat_expr e plain)
  | notTrue e => exact neat_notTrue (neat_expr e plain)
  | func f args =>
    rw [Expr.Plain] at plain
    have items : Neat d false (.text "(" :: members d ", " (fun _ => false) args ++ [.text ")"]) :=
      .bracket (by cases d <;> rfl) (neat_members ", " (fun _ => false) (by cases d <;> rfl) args plain.2)
    exact .text false (Dialect.moves_of_plain plain.1) items
  | template text args =>
    rw [Expr.Plain] at plain
    exact neat_filled plain.1 plain.2.1 plain.2.2
  | existsIn query negated => cases negated <;> exact .bracket (by cases d <;> rfl) (neat_select query plain)
  | scalar query => exact .bracket (by cases d <;> rfl) (neat_select query plain)
  | constant b => cases b <;> exact .text false (by cases d <;> rfl) .nil

theorem neat_members (separator : String) (group : Expr → Bool) (level : d.moves false true 0 0 separator = true)
    (list : List Expr) (plain : Expr.AllPlain d list) : Neat d true (members d separator group list) := by
  match list with
  | [] => exact .nil
  | [e] => exact (neat_expr e plain.1).grouped (group e)
  | e :: next :: rest =>
    have later := neat_members separator group level (next :: rest) plain.2
    exact ((neat_expr e plain.1).grouped (group e)).append (.text true level later)

-- The texts and arguments in turn, from the text that is next.
theorem neat_filled {text : String} {texts : List String} {args : List Expr} (same : args.length = texts.length)
    (around : d.surrounds settled opened (text :: texts) = true) (plain : Expr.AllPlain d args) :
    Nested d settled opened 0 (.text text :: filled d texts args) := by
  rw [Dialect.surrounds, Bool.and_eq_true] at around
  obtain ⟨fits, walk⟩ := around
  split at walk
  · rename_i deeper found
    match texts, args, same, plain with
    | [], [], _, _ =>
      cases (beq_iff_eq.mp walk : deeper = 0)
      rcases Bool.or_eq_true_iff.mp fits with fits | empty
      · exact .text false (by simpa [Dialect.moves, found] using fits) .nil
      · cases (by simpa using empty : text = "")
        have silent : (Scan.of d "").finish = [] := by cases d <;> rfl
        rw [silent, openAfter, Option.some.injEq] at found
        exact found ▸ .empty .nil
    | next :: rest, e :: others, same, plain =>
      have later := neat_filled (Nat.succ.inj same) walk plain.2
      have here : d.moves settled true opened deeper text = true := by simpa [Dialect.moves, found] using fits
      exact .text true here (.append (neat_expr e plain.1).inside later)
  · cases walk

theorem neat_select (query : Select) (plain : query.Plain d) : Neat d true (select d query) := by
  match query with
  | ⟨table, binding, columns, joins, conditions, orders, limit, offset⟩ =>
    rw [Select.Plain] at plain
    obtain ⟨shown, joined, narrowed, sorted⟩ := plain
    have columns_neat : Neat d true (if columns.isEmpty then [name d binding, .text ".*"]
        else members d ", " (fun _ => false) columns) := by
      split
      · exact .name (.text false (by cases d <;> rfl) .nil)
      · exact neat_members ", " (fun _ => false) (by cases d <;> rfl) columns shown
    have conditions_neat : Neat d false (if conditions.isEmpty then [] else Piece.keyword "WHERE" ++ .space ::
        members d " AND " (fun e => 1 < conditions.length && e.isOr) conditions) := by
      split
      · exact .nil
      · exact .append (.keyword (by cases d <;> rfl))
          (.space (neat_members " AND " _ (by cases d <;> rfl) conditions narrowed))
    have orders_neat : Neat d false (if orders.isEmpty then [] else Piece.keyword "ORDER BY" ++ .space ::
        orderPieces d orders) := by
      split
      · exact .nil
      · exact .append (.keyword (by cases d <;> rfl)) (.space (neat_orderPieces orders sorted))
    have head : Neat d true (.text "SELECT" :: .space :: (if columns.isEmpty then [name d binding, .text ".*"]
        else members d ", " (fun _ => false) columns)) :=
      .text false (by cases d <;> rfl) (.space columns_neat)
    rw [select]
    exact ((((head.append (neat_fromPieces table binding)).append (neat_joinPieces joins joined)).append
      conditions_neat).append orders_neat).append (neat_pagination _ limit offset)

theorem neat_joinPieces (joins : List Join) (plain : Select.JoinsPlain d joins) : Neat d false (joinPieces d joins) := by
  match joins with
  | [] => exact .nil
  | ⟨kind, table, binding, condition⟩ :: rest =>
    have word : Neat d false (Piece.keyword (joinWord kind)) := by
      cases kind <;> exact .keyword (by cases d <;> rfl)
    have target : Neat d false (Piece.keyword (joinWord kind) ++ [.space, name d table]) := word.append (.space (.name .nil))
    have on : Neat d false (Piece.keyword "ON") := .keyword (by cases d <;> rfl)
    have tested : Neat d false (.space :: expr d condition) := .space (neat_expr condition plain.1)
    have whole := (((target.append (neat_asBinding binding)).append on).append tested).append (neat_joinPieces rest plain.2)
    simpa [joinPieces] using whole

theorem neat_orderPieces (orders : List SortKey) (plain : Select.OrdersPlain d orders) :
    Neat d true (orderPieces d orders) := by
  match orders with
  | [] => exact .nil
  | [⟨key, direction, nulls⟩] => exact neat_sortKey (neat_expr key plain.1) direction nulls
  | ⟨key, direction, nulls⟩ :: next :: rest =>
    have later := neat_orderPieces (next :: rest) plain.2
    exact (neat_sortKey (neat_expr key plain.1) direction nulls).append (.text true (by cases d <;> rfl) later)
end

end Render
end FilterQuery
