import FilterQuery.Query.Compiled
import FilterQuery.Proofs.TextLandmarks

namespace FilterQuery

def Dialect.links (d : Dialect) (text : String) : Bool := Sign.links (d.signs text)

def Dialect.leads (d : Dialect) (text : String) : Bool := Sign.leads (d.signs text)

def Dialect.closes (d : Dialect) (text : String) : Bool := Sign.closes (d.signs text)

-- The texts behind the arguments of a template.
def Dialect.weaves (d : Dialect) : List String → Bool
  | [] => true
  | [text] => d.closes text
  | text :: rest => d.links text && d.weaves rest

-- SQL Server pages from an offset, if it pages at all.
def Dialect.pageLandmarks (d : Dialect) (limit offset : Option Nat) : List Landmark :=
  match d with
  | .msSql => if limit.isNone && offset.isNone then [] else .offset :: if limit.isSome then [.limit] else []
  | _ => (if limit.isSome then [.limit] else []) ++ if offset.isSome then [.offset] else []

-- What a SELECT may list: the whole row, a one for each row, or the least or greatest value.
inductive Listed : List Expr → Prop
  | row : Listed []
  | one : Listed [.template ⟨"1", []⟩ []]
  | extreme (direction : Direction) (table : Option String) (name : String) :
    Listed [.func direction.aggregate [.column table name]]

-- What a direction makes of the key before it.
def Expr.keyLandmark : Expr → Landmark
  | .column _ _ => .fieldKey
  | _ => .relatedKey

mutual
def Expr.landmarks (d : Dialect) : Expr → List Landmark
  | .column _ _ => [.column]
  | .value _ => []
  | .binary left _ right => left.landmarks d ++ right.landmarks d
  | .inList e list _ => e.landmarks d ++ Expr.listLandmarks d list
  | .isNull e _ => e.landmarks d
  | .and members => Expr.listLandmarks d members
  | .or members => Expr.listLandmarks d members
  | .not e => e.landmarks d
  | .notTrue e => e.landmarks d
  | .func f args => Sign.landmarks .other (d.signs f ++ [.opening]) ++ Expr.listLandmarks d args
  | .template _ args => Expr.listLandmarks d args
  | .existsIn query _ => query.landmarks d
  | .scalar query => query.landmarks d
  | .constant _ => []

def Expr.listLandmarks (d : Dialect) : List Expr → List Landmark
  | [] => []
  | e :: rest => e.landmarks d ++ Expr.listLandmarks d rest

def Select.landmarks (d : Dialect) : Select → List Landmark
  | ⟨_, _, columns, joins, conditions, orders, limit, offset⟩ =>
    Expr.listLandmarks d columns ++ ([.source] ++ Select.joinLandmarks d joins ++ Expr.listLandmarks d conditions ++
      Select.orderLandmarks d orders ++ d.pageLandmarks limit offset)

def Select.joinLandmarks (d : Dialect) : List Join → List Landmark
  | [] => []
  | ⟨_, _, _, condition⟩ :: rest => .joined :: (condition.landmarks d ++ Select.joinLandmarks d rest)

-- A key that has its nulls placed by another one is written in both.
def Select.orderLandmarks (d : Dialect) : List SortKey → List Landmark
  | [] => []
  | ⟨key, _, nulls⟩ :: rest =>
    (if nulls ≠ .default ∧ !d.placesNulls then key.landmarks d ++ [.nullsKey] else []) ++
      (key.landmarks d ++ key.keyLandmark :: Select.orderLandmarks d rest)
end

mutual
-- Operators and templates show nothing of their own, and keys to sort by are columns or subqueries.
def Expr.Calm (d : Dialect) : Expr → Prop
  | .column _ _ => True
  | .value _ => True
  | .binary left op right => left.Calm d ∧ d.links op.symbol = true ∧ right.Calm d
  | .inList e list _ => e.Calm d ∧ Expr.AllCalm d list
  | .isNull e _ => e.Calm d
  | .and members => Expr.AllCalm d members
  | .or members => Expr.AllCalm d members
  | .not e => e.Calm d
  | .notTrue e => e.Calm d
  | .func _ args => Expr.AllCalm d args
  | .template text args =>
    args.length = text.rest.length ∧ d.leads text.lead = true ∧ d.weaves text.rest = true ∧ Expr.AllCalm d args
  | .existsIn query _ => query.Calm d
  | .scalar query => query.Calm d
  | .constant _ => True

def Expr.AllCalm (d : Dialect) : List Expr → Prop
  | [] => True
  | e :: rest => e.Calm d ∧ Expr.AllCalm d rest

def Select.Calm (d : Dialect) : Select → Prop
  | ⟨_, _, columns, joins, conditions, orders, _, _⟩ =>
    Listed columns ∧ Select.JoinsCalm d joins ∧ Expr.AllCalm d conditions ∧ Select.OrdersCalm d orders

def Select.JoinsCalm (d : Dialect) : List Join → Prop
  | [] => True
  | ⟨_, _, _, condition⟩ :: rest => condition.Calm d ∧ Select.JoinsCalm d rest

def Select.OrdersCalm (d : Dialect) : List SortKey → Prop
  | [] => True
  | ⟨key, _, _⟩ :: rest => key.KeyCalm d ∧ Select.OrdersCalm d rest

def Expr.KeyCalm (d : Dialect) : Expr → Prop
  | .column _ _ => True
  | .scalar query => query.Calm d
  | _ => False
end

-- Punctuation is a token of its own.
theorem Dialect.signs_opening (d : Dialect) : d.signs "(" = [.opening] := by cases d <;> rfl

theorem Dialect.signs_closing (d : Dialect) : d.signs ")" = [.closing] := by cases d <;> rfl

theorem Dialect.signs_dot (d : Dialect) : d.signs "." = [.dot] := by cases d <;> rfl

theorem Dialect.signs_as (d : Dialect) : d.signs "AS" = [.asWord] := by cases d <;> rfl

theorem Dialect.links_comma (d : Dialect) : d.links ", " = true := by cases d <;> rfl

namespace Render
open Piece Sign

variable {d : Dialect}

theorem shows_columnName (table : Option String) (column : String) :
    Shows (signs d (columnName d table column)) [.column] := by
  cases table with
  | none =>
    rw [columnName, signs_name, signs_nil]
    exact .columnAlone
  | some t =>
    rw [columnName, signs_name, signs_text, signs_name, signs_nil, d.signs_dot]
    exact .column

theorem shows_value (v : Value) : Shows (signs d [.value v]) [] := by
  rw [signs_value, signs_nil]
  exact .of_leads (by cases v.isNull <;> rfl)

theorem shows_bracket {first : String} {pieces : List Piece} (opens : d.leads first = true)
    (shown : Shows (signs d pieces) found) : Shows (signs d (.text first :: pieces ++ [.text ")"])) found := by
  rw [List.cons_append, signs_text, signs_append, signs_text, signs_nil, d.signs_closing]
  exact .lead opens (shown.close rfl)

theorem shows_grouped {pieces : List Piece} (shown : Shows (signs d pieces) found) (weak : Bool) :
    Shows (signs d (grouped weak pieces)) found := by
  cases weak with
  | false => exact shown
  | true => exact shows_bracket (by cases d <;> rfl) shown

theorem shows_notTrue {pieces : List Piece} (shown : Shows (signs d pieces) found) :
    Shows (signs d (notTrue d pieces)) found := by
  unfold notTrue
  split
  · rw [List.cons_append, signs_text, signs_append, signs_text, signs_nil, List.append_nil]
    exact .lead (by cases d <;> rfl) (shown.close (by cases d <;> rfl))
  · rw [List.cons_append, signs_text, signs_append, signs_text, signs_nil, List.append_nil]
    exact .lead (by cases d <;> rfl) (shown.close (by cases d <;> rfl))

theorem trails_keyword {word : String} {pieces : List Piece} (links : d.links word = true)
    (shown : Shows (signs d pieces) found) : Trails (signs d (Piece.keyword word ++ .space :: pieces)) found := by
  rw [signs_append, signs_keyword, signs_space]
  exact .of_links links shown

theorem trails_from (d : Dialect) (table binding : String) :
    Trails (signs d (fromPieces d table binding)) [.source] := by
  have word : d.signs "FROM" = [.fromWord] := by cases d <;> rfl
  intro z open_ rest free
  rw [fromPieces, signs_append, signs_append, signs_keyword, word, signs_space, signs_name, signs_nil]
  have unmarked : z.landmark? .fromWord = none := landmark_free open_ rfl
  split
  · simp only [signs_nil, List.append_nil, List.cons_append, List.nil_append, Sign.landmarks, unmarked]
    exact congrArg (_ :: ·) (free .name (by decide))
  · rw [asBinding, signs_append, signs_keyword, d.signs_as, signs_space, signs_name, signs_nil]
    simp only [List.cons_append, List.nil_append, Sign.landmarks, unmarked]
    exact congrArg (_ :: ·) (free .name (by decide))

theorem signs_rowCount (n : Nat) (rest : List Piece) : signs d (.value (rowCount n) :: rest) = .value :: signs d rest :=
  signs_value ..

theorem trails_bound {word : String} (kind : Sign) (apart : d.closes word = true)
    (last : (d.signs word).getLast? = some kind) (n : Nat) :
    Trails (signs d (Piece.bound word (rowCount n))) (kind.landmark? .value).toList := by
  intro z open_ rest free
  have unmarked : z.landmarks (d.signs word) = [] := by
    have front := landmarks_closes apart open_ free_nil
    rwa [List.append_nil] at front
  rw [Piece.bound, signs_append, signs_keyword, signs_space, signs_rowCount, signs_nil, List.append_assoc,
    landmarks_append, unmarked, List.nil_append, List.getLastD_eq_getLast?, last]
  exact congrArg (_ ++ ·) (free .value (by decide))

theorem trails_word {word : String} (apart : d.closes word = true) : Trails (signs d (Piece.keyword word)) [] := by
  rw [signs_keyword]
  exact .of_closes apart

theorem trails_limitPieces (limit offset : Option Nat) : Trails (signs d (Dialect.limitPieces limit offset))
    ((if limit.isSome then [.limit] else []) ++ if offset.isSome then [.offset] else []) := by
  unfold Dialect.limitPieces
  rw [signs_append]
  refine .append ?_ ?_
  · cases limit with
    | none => exact .nil
    | some n => exact trails_bound .limitWord (by cases d <;> rfl) (by cases d <;> rfl) n
  · cases offset with
    | none => exact .nil
    | some n => exact trails_bound .offsetWord (by cases d <;> rfl) (by cases d <;> rfl) n

theorem trails_msSqlPagination (ordered : Bool) (limit offset : Option Nat) :
    Trails (signs .msSql (Dialect.msSqlPagination ordered limit offset))
      (Dialect.msSql.pageLandmarks limit offset) := by
  unfold Dialect.msSqlPagination Dialect.pageLandmarks
  split
  · exact .nil
  · rw [List.append_assoc, List.append_assoc, signs_append, signs_append, signs_append]
    have standIn : Trails (signs .msSql (if ordered then [] else Piece.keyword "ORDER BY (SELECT NULL)")) [] := by
      cases ordered with
      | true => exact .nil
      | false => exact trails_word rfl
    have rows : Trails (signs .msSql (Piece.keyword "ROWS")) [] := trails_word rfl
    refine standIn.append ((trails_bound .offsetWord rfl rfl _).append (rows.append ?_))
    cases limit with
    | none => exact .nil
    | some n =>
      rw [signs_append]
      exact (trails_bound .limitWord rfl rfl n).append (trails_word rfl)

theorem trails_pagination (d : Dialect) (ordered : Bool) (limit offset : Option Nat) :
    Trails (signs d (d.pagination ordered limit offset)) (d.pageLandmarks limit offset) := by
  cases d with
  | postgres | cockroachDb => exact trails_limitPieces limit offset
  | msSql => exact trails_msSqlPagination ordered limit offset
  | mySql =>
    match limit, offset with
    | none, some n => exact trails_bound .offsetWord rfl rfl n
    | none, none => exact trails_limitPieces none none
    | some n, offset => exact trails_limitPieces (some n) offset
  | sqlite =>
    match limit, offset with
    | none, some n =>
      have unlimited : Trails (signs .sqlite (Piece.keyword "LIMIT" ++ [.space, .text "-1"])) [] := .of_closes rfl
      have counted : Trails (signs .sqlite (Piece.bound "OFFSET" (rowCount n))) [.offset] :=
        trails_bound .offsetWord rfl rfl n
      have whole := unlimited.append counted
      rwa [← signs_append] at whole
    | none, none => exact trails_limitPieces none none
    | some n, offset => exact trails_limitPieces (some n) offset

theorem shows_members {separator : String} (links : d.links separator = true) (group : Expr → Bool) (list : List Expr)
    (each : ∀ e ∈ list, Shows (signs d (expr d e)) (e.landmarks d)) :
    Shows (signs d (members d separator group list)) (Expr.listLandmarks d list) := by
  match list with
  | [] => exact .of_leads rfl
  | [e] =>
    rw [members, Expr.listLandmarks, Expr.listLandmarks, List.append_nil]
    exact shows_grouped (each e (by simp)) (group e)
  | e :: next :: rest =>
    rw [List.forall_mem_cons] at each
    have later := shows_members links group (next :: rest) each.2
    rw [members_cons, signs_append, signs_text, Expr.listLandmarks]
    exact (shows_grouped each.1 (group e)).followed (.of_links links later)

-- The texts behind the arguments, each with its argument before it.
theorem shows_filled (texts : List String) (args : List Expr) (same : args.length = texts.length)
    (weaves : d.weaves texts = true) (each : ∀ e ∈ args, Shows (signs d (expr d e)) (e.landmarks d)) :
    Shows (signs d (filled d texts args)) (Expr.listLandmarks d args) := by
  match texts, args with
  | [], [] => exact .of_leads rfl
  | [t], [e] =>
    rw [filled, filled, signs_append, signs_text, signs_nil, List.append_nil, Expr.listLandmarks, Expr.listLandmarks,
      List.append_nil]
    exact (each e (by simp)).close weaves
  | t :: next :: texts, e :: more :: args =>
    have both : (d.links t && d.weaves (next :: texts)) = true := weaves
    rw [Bool.and_eq_true] at both
    rw [List.forall_mem_cons] at each
    have later := shows_filled (next :: texts) (more :: args) (Nat.succ.inj same) both.2 each.2
    rw [filled, signs_append, signs_text, Expr.listLandmarks]
    exact each.1.followed (.of_links both.1 later)

-- A key and its direction.
theorem landmarks_key {key : Expr} (calm : key.KeyCalm d)
    (within : ∀ query, key = .scalar query → Shows (signs d (select d query)) (query.landmarks d)) {z : Sign}
    (silent : z.quiet = true) (rest : List Sign) :
    z.landmarks (signs d (expr d key) ++ .directionWord :: rest) =
      key.landmarks d ++ key.keyLandmark :: Sign.landmarks .directionWord rest := by
  rw [landmarks_quiet silent]
  cases key with
  | column table name =>
    cases table <;> simp only [expr, columnName, signs_name, signs_text, signs_nil, d.signs_dot] <;> rfl
  | scalar query =>
    have inner := within query rfl .opening rfl (.closing :: .directionWord :: rest) (free_cons rfl _)
    rw [expr, List.cons_append, signs_text, signs_append, signs_text, signs_nil, d.signs_opening, d.signs_closing,
      List.append_nil, List.append_assoc, List.append_assoc]
    exact inner
  | _ => exact calm.elim

theorem signs_nullsIndicator (unplaced : d.placesNulls = false) (nulls : Nulls) (key : List Piece) :
    signs d (nullsIndicator nulls key) =
      [.other, .other] ++ (signs d key ++ [.other, .other, .other, .other, .other, .other, .endWord, .comma]) := by
  have front : d.signs "CASE WHEN " = [.other, .other] := by cases d <;> rfl
  have comma : d.signs ", " = [.comma] := by cases d <;> rfl
  have back : ∀ test ∈ [" IS NULL THEN 0 ELSE 1 END", " IS NULL THEN 1 ELSE 0 END"],
      d.signs test = [.other, .other, .other, .other, .other, .other, .endWord] := by
    simp only [List.forall_mem_cons, List.not_mem_nil, false_implies, implies_true, and_true]
    cases d <;> first | exact ⟨rfl, rfl⟩ | cases unplaced
  have whole : ∀ test ∈ [" IS NULL THEN 0 ELSE 1 END", " IS NULL THEN 1 ELSE 0 END"],
      signs d (.text "CASE WHEN " :: key ++ [.text test, .text ", "]) =
        [.other, .other] ++ (signs d key ++ [.other, .other, .other, .other, .other, .other, .endWord, .comma]) := by
    intro test member
    rw [List.cons_append, signs_text, signs_append, signs_text, signs_text, signs_nil, front, comma, back test member]
    rfl
  cases nulls with
  | first => exact whole _ (by simp)
  | last | default => exact whole _ (by simp)

theorem shows_sortKey {key : Expr} (calm : key.KeyCalm d) (direction : Direction) (nulls : Nulls)
    (within : ∀ query, key = .scalar query → Shows (signs d (select d query)) (query.landmarks d))
    (shown : Shows (signs d (expr d key)) (key.landmarks d)) :
    Shows (signs d (sortKey d (expr d key) direction nulls)) (Select.orderLandmarks d [⟨key, direction, nulls⟩]) := by
  have word : d.signs direction.keyword = [.directionWord] := by cases direction <;> cases d <;> rfl
  unfold sortKey
  rw [Select.orderLandmarks, Select.orderLandmarks]
  intro z silent rest free
  split
  case isTrue placed =>
    obtain ⟨-, unplaced⟩ := placed
    rw [Bool.not_eq_true'] at unplaced
    rw [signs_append, signs_append, signs_keyword, word, signs_nullsIndicator unplaced, landmarks_quiet silent]
    have behind : Free ([.other, .other, .other, .other, .other, .other, .endWord, .comma] ++
        (signs d (expr d key) ++ .directionWord :: rest)) := free_cons rfl _
    have again := landmarks_key calm within (z := .comma) rfl rest
    have first := shown .other rfl _ behind
    simp only [List.append_assoc, List.cons_append, List.nil_append] at first ⊢
    rw [Sign.landmarks, Sign.landmarks]
    simp [Sign.landmarks, Sign.landmark?, first, again, free .directionWord (by decide)]
  case isFalse =>
    have words : closes (signs d (nullsWord nulls)) = true := by cases nulls <;> cases d <;> rfl
    rw [signs_append, signs_append, signs_keyword, word, List.append_assoc, List.append_assoc, List.singleton_append,
      landmarks_key calm within silent, landmarks_closes words (by decide) free]
    simp

theorem shows_func {f : String} {pieces : List Piece} (shown : Shows (signs d pieces) found) :
    Shows (signs d (.text f :: .text "(" :: pieces ++ [.text ")"]))
      (Sign.landmarks .other (d.signs f ++ [.opening]) ++ found) := by
  have inner : Shows (signs d pieces ++ [.closing]) found := shown.close rfl
  intro z silent rest free
  rw [List.cons_append, List.cons_append, signs_text, signs_text, signs_append, signs_text, signs_nil, d.signs_opening,
    d.signs_closing, List.append_nil, landmarks_quiet silent, ← List.append_assoc, List.append_assoc, landmarks_append,
    List.getLastD_concat, inner .opening rfl rest free, List.append_assoc]

theorem trails_join {condition : Expr} {joins : List Join} (kind : JoinKind) (table binding : String)
    (shown : Shows (signs d (expr d condition)) (condition.landmarks d))
    (later : Trails (signs d (joinPieces d joins)) (Select.joinLandmarks d joins)) :
    Trails (signs d (joinPieces d (⟨kind, table, binding, condition⟩ :: joins)))
      (Select.joinLandmarks d (⟨kind, table, binding, condition⟩ :: joins)) := by
  have word : d.signs (joinWord kind) = [.other, .joinWord] := by cases kind <;> cases d <;> rfl
  have on : d.signs "ON" = [.other] := by cases d <;> rfl
  intro z open_ rest free
  have inside := shown.followed later .other rfl rest free
  simp only [joinPieces, asBinding, signs_append, signs_keyword, signs_space, signs_name, word, d.signs_as, on,
    List.append_assoc, List.cons_append, List.nil_append, Select.joinLandmarks] at inside ⊢
  simp only [Sign.landmarks, landmark_free open_ (s := .other) rfl, inside]
  rfl

theorem shows_columns (d : Dialect) {columns : List Expr} (listed : Listed columns) (binding : String) :
    Shows (signs d (.text "SELECT" :: .space ::
      if columns.isEmpty then [name d binding, .text ".*"] else members d ", " (fun _ => false) columns))
      (Expr.listLandmarks d columns) := by
  have word : d.signs "SELECT" = [.selectWord] := by cases d <;> rfl
  rw [signs_text, signs_space, word]
  cases listed with
  | row =>
    have all : d.signs ".*" = [.dot, .other] := by cases d <;> rfl
    rw [List.isEmpty_nil, if_pos rfl, signs_name, signs_text, signs_nil, all]
    exact .of_leads rfl
  | one =>
    have one : d.signs "1" = [.other] := by cases d <;> rfl
    simp only [List.isEmpty_cons, Bool.false_eq_true, if_false, members, grouped, expr, filled, signs_text, signs_nil,
      one]
    exact .of_leads rfl
  | extreme direction table name =>
    have extreme : d.signs direction.aggregate = [.aggregateWord] := by cases direction <;> cases d <;> rfl
    have column : Shows (signs d (columnName d table name) ++ [.closing]) [.column] :=
      (shows_columnName table name).close rfl
    intro z silent rest free
    have inner := column .opening rfl rest free
    simp only [List.isEmpty_cons, Bool.false_eq_true, if_false, members, grouped, expr, signs_text, signs_append,
      signs_nil, List.cons_append, List.append_assoc, List.append_nil, List.nil_append, d.signs_opening,
      d.signs_closing, extreme, Expr.landmarks, Expr.listLandmarks] at inner ⊢
    rw [Sign.landmarks, Sign.landmarks, Sign.landmarks, inner, landmark_quiet silent]
    rfl

mutual
theorem shows_expr (e : Expr) (calm : e.Calm d) : Shows (signs d (expr d e)) (e.landmarks d) := by
  cases e with
  | column table column => exact shows_columnName table column
  | value v => exact shows_value v
  | binary left op right =>
    rw [Expr.Calm] at calm
    have first := shows_grouped (shows_expr left calm.1) left.isWeak
    have second := shows_grouped (shows_expr right calm.2.2) right.isWeak
    have whole := first.followed (trails_keyword calm.2.1 second)
    rw [← signs_append] at whole
    simpa only [expr, Expr.landmarks, List.append_assoc, List.singleton_append] using whole
  | inList e list negated =>
    rw [Expr.Calm] at calm
    have first := shows_grouped (shows_expr e calm.1) e.isWeak
    have word : links (d.signs (if negated then "NOT IN" else "IN") ++ d.signs " (") = true := by
      cases negated <;> cases d <;> rfl
    have items : Shows (signs d (members d ", " (fun _ => false) list) ++ [.closing]) (Expr.listLandmarks d list) :=
      (shows_members d.links_comma (fun _ => false) list (shows_all list calm.2)).close rfl
    have whole := first.followed (.of_links word items)
    simpa only [expr, Expr.landmarks, signs_append, signs_keyword, signs_text, signs_nil, d.signs_closing,
      List.append_assoc, List.cons_append, List.append_nil] using whole
  | isNull e negated =>
    rw [expr, signs_append, signs_keyword]
    exact (shows_grouped (shows_expr e calm) e.isWeak).close (by cases negated <;> cases d <;> rfl)
  | and parts => exact shows_members (by cases d <;> rfl) Expr.isOr parts (shows_all parts calm)
  | or parts => exact shows_members (by cases d <;> rfl) Expr.isAnd parts (shows_all parts calm)
  | not e => exact shows_bracket (by cases d <;> rfl) (shows_expr e calm)
  | notTrue e => exact shows_notTrue (shows_expr e calm)
  | func f args => exact shows_func (shows_members (by cases d <;> rfl) (fun _ => false) args (shows_all args calm))
  | template text args =>
    rw [Expr.Calm] at calm
    obtain ⟨same, leads, weaves, inner⟩ := calm
    rw [expr, signs_text]
    exact .lead leads (shows_filled text.rest args same weaves (shows_all args inner))
  | existsIn query negated => cases negated <;> exact shows_bracket (by cases d <;> rfl) (shows_select query calm)
  | scalar query => exact shows_bracket (by cases d <;> rfl) (shows_select query calm)
  | constant b => cases b <;> (rw [expr, signs_text]; exact .of_leads (by cases d <;> rfl))

theorem shows_all (list : List Expr) (calm : Expr.AllCalm d list) :
    ∀ e ∈ list, Shows (signs d (expr d e)) (e.landmarks d) := by
  match list with
  | [] => exact fun e member => nomatch member
  | e :: rest => exact List.forall_mem_cons.mpr ⟨shows_expr e calm.1, shows_all rest calm.2⟩

theorem shows_select (query : Select) (calm : query.Calm d) : Shows (signs d (select d query)) (query.landmarks d) := by
  match query with
  | ⟨table, binding, columns, joins, conditions, orders, limit, offset⟩ =>
    rw [Select.Calm] at calm
    obtain ⟨listed, joined, narrowed, sorted⟩ := calm
    have where_ : Trails (signs d (if conditions.isEmpty then [] else Piece.keyword "WHERE" ++ .space ::
        members d " AND " (fun e => 1 < conditions.length && e.isOr) conditions))
      (Expr.listLandmarks d conditions) := by
      cases conditions with
      | nil => exact .nil
      | cons e rest =>
        exact trails_keyword (by cases d <;> rfl) (shows_members (by cases d <;> rfl) _ _ (shows_all _ narrowed))
    have order : Trails (signs d (if orders.isEmpty then [] else Piece.keyword "ORDER BY" ++ .space ::
        orderPieces d orders)) (Select.orderLandmarks d orders) := by
      cases orders with
      | nil => exact .nil
      | cons key rest => exact trails_keyword (by cases d <;> rfl) (shows_orders _ sorted)
    have behind := (((trails_from d table binding).append (trails_joins joins joined)).append where_).append order
    have whole :=
      (shows_columns d listed binding).followed (behind.append (trails_pagination d (!orders.isEmpty) limit offset))
    simpa only [select, Select.landmarks, signs_append, List.append_assoc] using whole

theorem trails_joins (joins : List Join) (calm : Select.JoinsCalm d joins) :
    Trails (signs d (joinPieces d joins)) (Select.joinLandmarks d joins) := by
  match joins with
  | [] => exact .nil
  | ⟨kind, table, binding, condition⟩ :: rest =>
    exact trails_join kind table binding (shows_expr condition calm.1) (trails_joins rest calm.2)

theorem shows_orders (orders : List SortKey) (calm : Select.OrdersCalm d orders) :
    Shows (signs d (orderPieces d orders)) (Select.orderLandmarks d orders) := by
  match orders with
  | [] => exact .of_leads rfl
  | [⟨key, direction, nulls⟩] => exact shows_key key calm.1 direction nulls
  | ⟨key, direction, nulls⟩ :: next :: rest =>
    have first := shows_key key calm.1 direction nulls
    have whole := first.followed (.of_links d.links_comma (shows_orders (next :: rest) calm.2))
    rw [← signs_text, ← signs_append] at whole
    simpa [orderPieces, Select.orderLandmarks] using whole

theorem shows_key (key : Expr) (calm : key.KeyCalm d) (direction : Direction) (nulls : Nulls) :
    Shows (signs d (sortKey d (expr d key) direction nulls)) (Select.orderLandmarks d [⟨key, direction, nulls⟩]) := by
  cases key with
  | column table column =>
    exact shows_sortKey calm direction nulls (fun query same => nomatch same) (shows_columnName table column)
  | scalar query =>
    have inner := shows_select query calm
    refine shows_sortKey calm direction nulls ?_ (shows_bracket (by cases d <;> rfl) inner)
    intro query' same
    cases same
    exact inner
  | _ => exact calm.elim
end

end Render

-- The text shows the landmarks of the statement, in order.
theorem Select.landmarks_shown {d : Dialect} {s : Select} (plain : s.Plain d) (calm : s.Calm d) :
    d.landmarks (s.build d).sql = s.landmarks d := by
  have shown := Render.shows_select s calm .other rfl [] Sign.free_nil
  rwa [List.append_nil, ← landmarks_build plain, Sign.landmarks, List.append_nil] at shown

end FilterQuery
