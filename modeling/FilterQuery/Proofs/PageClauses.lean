import FilterQuery.Number.Reader
import FilterQuery.Proofs.LegibleSql

namespace FilterQuery

-- Some first rows passed over, and so many kept of the others.
structure Page where
  skipped : Nat
  kept : Option Nat

def Page.of (page : Page) (rows : List α) : List α :=
  match page.kept with
  | some n => (rows.drop page.skipped).take n
  | none => rows.drop page.skipped

-- The rows that are asked for.
def Select.page (s : Select) : Page := ⟨s.offset.getD 0, s.limit⟩

inductive PagePart where
  | limit (count : Int)
  | offset (count : Int)
  -- An order that orders nothing.
  | unordered
  | offsetRows (count : Int)
  | fetchRows (count : Int)

-- An integer, as a parameter or written out.
def Token.count? : Token → Option Int
  | .value (.int i) => some i.toInt
  | .word text => readIntIn? leastInt64 greatestWord64 text.toList
  | _ => none

def pageParts? : List Token → Option (List PagePart)
  | [] => some []
  | .word "LIMIT" :: t :: rest => do
    let n ← t.count?
    (pageParts? rest).map (.limit n :: ·)
  | .word "OFFSET" :: t :: .word "ROWS" :: rest => do
    let n ← t.count?
    (pageParts? rest).map (.offsetRows n :: ·)
  | .word "OFFSET" :: t :: rest => do
    let n ← t.count?
    (pageParts? rest).map (.offset n :: ·)
  | .word "FETCH" :: .word "NEXT" :: t :: .word "ROWS" :: .word "ONLY" :: rest => do
    let n ← t.count?
    (pageParts? rest).map (.fetchRows n :: ·)
  | .word "ORDER" :: .word "BY" :: .opening :: .word "SELECT" :: .word "NULL" :: .closing :: rest =>
    (pageParts? rest).map (.unordered :: ·)
  | _ => none

namespace Dialect

def largestCount : Dialect → Int
  | mySql => greatestWord64
  | _ => greatestInt64

def rows? (d : Dialect) (least n : Int) : Option Nat := if least ≤ n ∧ n ≤ d.largestCount then some n.toNat else none

-- The limit first, if there is one.
def limitPage? (d : Dialect) : List PagePart → Option Page
  | [] => some ⟨0, none⟩
  | [.limit n] => (d.rows? 0 n).map fun n => ⟨0, some n⟩
  | [.limit n, .offset m] => do
    let n ← d.rows? 0 n
    let m ← d.rows? 0 m
    pure ⟨m, some n⟩
  | _ => none

-- A limit below zero is none, and an offset below zero passes over nothing.
def sqlitePage? : List PagePart → Option Page
  | [] => some ⟨0, none⟩
  | [.limit n] => (sqlite.rows? leastInt64 n).map fun rows => ⟨0, if n < 0 then none else some rows⟩
  | [.limit n, .offset m] => do
    let rows ← sqlite.rows? leastInt64 n
    let m ← sqlite.rows? leastInt64 m
    pure ⟨m, if n < 0 then none else some rows⟩
  | _ => none

-- SQL Server fetches one row at least.
def msSqlPage? : List PagePart → Option Page
  | [] => some ⟨0, none⟩
  | [.offsetRows m] => (msSql.rows? 0 m).map fun m => ⟨m, none⟩
  | [.offsetRows m, .fetchRows n] => do
    let m ← msSql.rows? 0 m
    let n ← msSql.rows? 1 n
    pure ⟨m, some n⟩
  | _ => none

-- The page of a clause, where an order stands before it or not.
def pageOf? (d : Dialect) (ordered : Bool) (parts : List PagePart) : Option Page :=
  match d with
  | postgres | cockroachDb =>
    match parts with
    | [.offset m] => (d.rows? 0 m).map fun m => ⟨m, none⟩
    | [.offset m, .limit n] => d.limitPage? [.limit n, .offset m]
    | parts => d.limitPage? parts
  | mySql => mySql.limitPage? parts
  | sqlite => sqlitePage? parts
  | msSql =>
    match ordered, parts with
    | false, .unordered :: rest => msSqlPage? rest
    | false, _ :: _ => none
    | _, parts => msSqlPage? parts

def page? (d : Dialect) (ordered : Bool) (ts : List Token) : Option Page := (pageParts? ts).bind (d.pageOf? ordered)

end Dialect

example : Dialect.sqlite.page? true [.word "LIMIT", .word "-1", .word "OFFSET", .value (.int 5)] = some ⟨5, none⟩ := by
  rfl

-- A count beyond what any result has may be told by the greatest one.
theorem Page.of_clamped {limit offset : Option Nat} {rows : List α} {most : Nat} (few : rows.length ≤ most) :
    Page.of ⟨min (offset.getD 0) most, limit.map (min · most)⟩ rows = Page.of ⟨offset.getD 0, limit⟩ rows := by
  have dropped : rows.drop (min (offset.getD 0) most) = rows.drop (offset.getD 0) := by
    rcases Nat.le_total (offset.getD 0) most with within | beyond
    · rw [Nat.min_eq_left within]
    · rw [Nat.min_eq_right beyond, List.drop_eq_nil_of_le few, List.drop_eq_nil_of_le (Nat.le_trans few beyond)]
  cases limit with
  | none => exact dropped
  | some n =>
    have short : (rows.drop (offset.getD 0)).length ≤ most := by
      rw [List.length_drop]
      exact Nat.le_trans (Nat.sub_le ..) few
    show (rows.drop (min (offset.getD 0) most)).take (min n most) = (rows.drop (offset.getD 0)).take n
    rw [dropped]
    rcases Nat.le_total n most with within | beyond
    · rw [Nat.min_eq_left within]
    · rw [Nat.min_eq_right beyond, List.take_of_length_le short, List.take_of_length_le (Nat.le_trans short beyond)]

-- What a clause says of a count.
def clamped (n : Nat) : Nat := min n greatestInt64.toNat

@[simp] theorem clamped_zero : clamped 0 = 0 := rfl

theorem count_rowCount (n : Nat) : (Token.value (rowCount n)).count? = some (clamped n : Int) := by
  have small : clamped n < 2 ^ 63 := Nat.lt_of_le_of_lt (Nat.min_le_right ..) (by decide)
  exact congrArg some (Int64.toInt_ofNat_of_lt small)

namespace Dialect

variable {d : Dialect}

theorem rows_clamped (d : Dialect) (n : Nat) {least : Int} (enough : least ≤ (clamped n : Int)) :
    d.rows? least (clamped n) = some (clamped n) := by
  have within : (clamped n : Int) ≤ greatestInt64 := by
    have bound : clamped n ≤ greatestInt64.toNat := Nat.min_le_right ..
    have whole : ((greatestInt64.toNat : Nat) : Int) = greatestInt64 := rfl
    omega
  have wide : greatestInt64 ≤ d.largestCount := by cases d <;> decide
  rw [rows?, if_pos ⟨enough, Int.le_trans within wide⟩, Int.toNat_natCast]

end Dialect

namespace Piece

theorem spelled_bound (d : Dialect) (word : String) (n : Nat) (rest : List Piece) :
    spelled d (bound word (rowCount n) ++ rest) = (Scan.of d word).finish ++ .value (rowCount n) :: spelled d rest := by
  simp [bound, keyword, spelled, tokens, rowCount, Value.isNull]

theorem spelled_keyword (d : Dialect) (word : String) (rest : List Piece) :
    spelled d (keyword word ++ rest) = (Scan.of d word).finish ++ spelled d rest := by
  simp [keyword]

end Piece

namespace Dialect

open Piece

theorem parts_limitPieces (d : Dialect) (limit offset : Option Nat) :
    pageParts? (spelled d (limitPieces limit offset)) =
      some ((limit.map fun n => .limit (clamped n)).toList ++ (offset.map fun n => .offset (clamped n)).toList) := by
  have words : (Scan.of d "LIMIT").finish = [.word "LIMIT"] ∧ (Scan.of d "OFFSET").finish = [.word "OFFSET"] := by
    cases d <;> exact ⟨rfl, rfl⟩
  have offset_part : pageParts? (spelled d (limitPieces none offset)) =
      some (offset.map fun n => PagePart.offset (clamped n)).toList := by
    cases offset with
    | none => rfl
    | some m =>
      have spelt := spelled_bound d "OFFSET" m []
      rw [List.append_nil, words.2] at spelt
      rw [limitPieces, List.nil_append, spelt]
      simp [pageParts?, count_rowCount]
  cases limit with
  | none => exact offset_part
  | some n =>
    have spelt := spelled_bound d "LIMIT" n (limitPieces none offset)
    rw [words.1] at spelt
    show pageParts? (spelled d (bound "LIMIT" (rowCount n) ++ limitPieces none offset)) = _
    rw [spelt]
    simp [pageParts?, count_rowCount, offset_part]

def fetchPieces : Option Nat → List Piece
  | some n => bound "FETCH NEXT" (rowCount n) ++ keyword "ROWS ONLY"
  | none => []

theorem msSqlPagination_paged (ordered : Bool) {limit offset : Option Nat} (paged : (limit.isNone && offset.isNone) = false) :
    msSqlPagination ordered limit offset = (if ordered then [] else keyword "ORDER BY (SELECT NULL)") ++
      (bound "OFFSET" (rowCount (offset.getD 0)) ++ (keyword "ROWS" ++ fetchPieces limit)) := by
  unfold msSqlPagination
  rw [paged]
  simp only [Bool.false_eq_true, if_false, List.append_assoc]
  cases limit <;> rfl

theorem parts_fetchPieces (limit : Option Nat) :
    pageParts? (spelled msSql (fetchPieces limit)) = some (limit.map fun n => PagePart.fetchRows (clamped n)).toList := by
  cases limit with
  | none => rfl
  | some n =>
    have words : (Scan.of msSql "FETCH NEXT").finish = [.word "FETCH", .word "NEXT"] ∧
        spelled msSql (keyword "ROWS ONLY") = [.word "ROWS", .word "ONLY"] := ⟨rfl, rfl⟩
    rw [fetchPieces, spelled_bound, words.1, words.2]
    simp [pageParts?, count_rowCount]

theorem parts_msSqlPagination (ordered : Bool) {limit offset : Option Nat} (paged : (limit.isNone && offset.isNone) = false) :
    pageParts? (spelled msSql (msSqlPagination ordered limit offset)) =
      some ((if ordered then [] else [.unordered]) ++ .offsetRows (clamped (offset.getD 0)) ::
        (limit.map fun n => .fetchRows (clamped n)).toList) := by
  have skipped : pageParts? (spelled msSql (bound "OFFSET" (rowCount (offset.getD 0)) ++
      (keyword "ROWS" ++ fetchPieces limit))) =
        some (.offsetRows (clamped (offset.getD 0)) :: (limit.map fun n => PagePart.fetchRows (clamped n)).toList) := by
    have words : (Scan.of msSql "OFFSET").finish = [.word "OFFSET"] ∧
        (Scan.of msSql "ROWS").finish = [.word "ROWS"] := ⟨rfl, rfl⟩
    rw [spelled_bound, spelled_keyword, words.1, words.2]
    simp [pageParts?, count_rowCount, parts_fetchPieces]
  rw [msSqlPagination_paged ordered paged]
  cases ordered with
  | true => exact skipped
  | false =>
    have words : (Scan.of msSql "ORDER BY (SELECT NULL)").finish =
        [.word "ORDER", .word "BY", .opening, .word "SELECT", .word "NULL", .closing] := rfl
    rw [if_neg Bool.false_ne_true, spelled_keyword, words]
    simp only [List.cons_append, List.nil_append, pageParts?, skipped]
    rfl

-- The page is right on every result that a backend can count.
def Denotes (found : Option Page) (wanted : Page) : Prop :=
  ∃ page, found = some page ∧
    ∀ {α : Type} (rows : List α), rows.length ≤ greatestInt64.toNat → page.of rows = wanted.of rows

theorem denotes_clamped (limit offset : Option Nat) :
    Denotes (some ⟨clamped (offset.getD 0), limit.map clamped⟩) ⟨offset.getD 0, limit⟩ :=
  ⟨_, rfl, fun _ few => Page.of_clamped few⟩

theorem rows_natural (d : Dialect) (n : Nat) : d.rows? 0 (clamped n) = some (clamped n) := d.rows_clamped n (by omega)

theorem rows_signed (d : Dialect) (n : Nat) : d.rows? leastInt64 (clamped n) = some (clamped n) :=
  d.rows_clamped n (Int.le_trans (by decide) (Int.natCast_nonneg _))

theorem page_placed {d : Dialect} (placed : d.placesNulls = true) (ordered : Bool) (limit offset : Option Nat) :
    Denotes (d.page? ordered (spelled d (d.pagination ordered limit offset))) ⟨offset.getD 0, limit⟩ := by
  have same : d.pageOf? ordered ((limit.map fun n => PagePart.limit (clamped n)).toList ++
      (offset.map fun n => PagePart.offset (clamped n)).toList) = some ⟨clamped (offset.getD 0), limit.map clamped⟩ := by
    cases d <;> cases placed <;> cases limit <;> cases offset <;> simp [pageOf?, limitPage?, rows_natural]
  have written : d.pagination ordered limit offset = limitPieces limit offset := by
    cases d <;> cases placed <;> rfl
  rw [written, page?, parts_limitPieces, Option.bind_some, same]
  exact denotes_clamped limit offset

theorem page_mySql (ordered : Bool) (limit offset : Option Nat) :
    Denotes (mySql.page? ordered (spelled mySql (mySqlPagination limit offset))) ⟨offset.getD 0, limit⟩ := by
  match limit, offset with
  | none, some m =>
    have words : (Scan.of mySql "LIMIT 18446744073709551615 OFFSET").finish =
        [.word "LIMIT", .word "18446744073709551615", .word "OFFSET"] := rfl
    have all : Token.count? (.word "18446744073709551615") = some greatestWord64 := rfl
    have spelt := spelled_bound mySql "LIMIT 18446744073709551615 OFFSET" m []
    rw [List.append_nil, words] at spelt
    refine ⟨⟨clamped m, some greatestWord64⟩, ?_, ?_⟩
    · have every : mySql.rows? 0 greatestWord64 = some greatestWord64 := rfl
      rw [mySqlPagination, spelt]
      simp [page?, pageParts?, all, count_rowCount, pageOf?, limitPage?, rows_natural, every]
    · intro α rows few
      have short : (rows.drop (clamped m)).length ≤ greatestWord64 := by
        rw [List.length_drop]
        exact Nat.le_trans (Nat.sub_le ..) (Nat.le_trans few (by decide))
      show (rows.drop (clamped m)).take greatestWord64 = rows.drop m
      rw [List.take_of_length_le short]
      exact @Page.of_clamped α none (some m) rows _ few
  | none, none => exact denotes_clamped none none
  | some n, offset =>
    have same : mySql.pageOf? ordered ([.limit (clamped n)] ++ (offset.map fun n => PagePart.offset (clamped n)).toList) =
        some ⟨clamped (offset.getD 0), some (clamped n)⟩ := by
      cases offset <;> simp [pageOf?, limitPage?, rows_natural]
    have parts := parts_limitPieces mySql (some n) offset
    rw [mySqlPagination, page?, parts, Option.bind_some]
    · exact same ▸ denotes_clamped (some n) offset
    · simp

theorem page_sqlite (ordered : Bool) (limit offset : Option Nat) :
    Denotes (sqlite.page? ordered (spelled sqlite (sqlitePagination limit offset))) ⟨offset.getD 0, limit⟩ := by
  match limit, offset with
  | none, some m =>
    have words : spelled sqlite (keyword "LIMIT" ++ [.space, .text "-1"]) = [.word "LIMIT", .word "-1"] ∧
        (Scan.of sqlite "OFFSET").finish = [.word "OFFSET"] := ⟨rfl, rfl⟩
    have none_ : Token.count? (.word "-1") = some (-1) := rfl
    have all : sqlite.rows? leastInt64 (-1) = some 0 := rfl
    have spelt := spelled_bound sqlite "OFFSET" m []
    rw [List.append_nil, words.2] at spelt
    have read : sqlite.page? ordered (spelled sqlite (sqlitePagination none (some m))) = some ⟨clamped m, none⟩ := by
      rw [sqlitePagination, spelled_append, words.1, spelt]
      simp [page?, pageParts?, none_, all, count_rowCount, pageOf?, sqlitePage?, rows_signed]
    exact read ▸ denotes_clamped none (some m)
  | none, none => exact denotes_clamped none none
  | some n, offset =>
    have signed : ¬((clamped n : Int) < 0) := by omega
    have same : sqlite.pageOf? ordered ([.limit (clamped n)] ++ (offset.map fun n => PagePart.offset (clamped n)).toList) =
        some ⟨clamped (offset.getD 0), some (clamped n)⟩ := by
      cases offset <;> simp [pageOf?, sqlitePage?, rows_signed, signed]
    have parts := parts_limitPieces sqlite (some n) offset
    rw [sqlitePagination, page?, parts, Option.bind_some]
    · exact same ▸ denotes_clamped (some n) offset
    · simp

-- SQL Server cannot be told to fetch nothing.
theorem page_msSql (ordered : Bool) (limit offset : Option Nat) :
    Denotes (msSql.page? ordered (spelled msSql (msSqlPagination ordered limit offset))) ⟨offset.getD 0, limit⟩ ↔
      limit ≠ some 0 := by
  cases paged : limit.isNone && offset.isNone with
  | true =>
    obtain ⟨rfl, rfl⟩ : limit = none ∧ offset = none := by simpa using paged
    cases ordered <;> exact iff_of_true (denotes_clamped none none) (by simp)
  | false =>
    have read : msSql.page? ordered (spelled msSql (msSqlPagination ordered limit offset)) =
        msSqlPage? (.offsetRows (clamped (offset.getD 0)) :: (limit.map fun n => PagePart.fetchRows (clamped n)).toList) := by
      rw [page?, parts_msSqlPagination ordered paged, Option.bind_some]
      cases ordered <;> rfl
    rw [read]
    match limit with
    | none =>
      have same : msSqlPage? [.offsetRows (clamped (offset.getD 0))] = some ⟨clamped (offset.getD 0), none⟩ := by
        simp [msSqlPage?, rows_natural]
      exact iff_of_true (same ▸ denotes_clamped none offset) (by simp)
    | some 0 =>
      have refused : msSql.rows? 1 (clamped 0) = none := rfl
      have same : msSqlPage? [.offsetRows (clamped (offset.getD 0)), .fetchRows (clamped 0)] = none := by
        simp only [msSqlPage?, rows_natural, refused]
        rfl
      refine iff_of_false ?_ (by simp)
      intro denotes
      obtain ⟨page, found, _⟩ := denotes
      cases same.symm.trans found
    | some (n + 1) =>
      have enough : (1 : Int) ≤ clamped (n + 1) := by
        have least : 1 ≤ clamped (n + 1) := Nat.le_min.mpr ⟨Nat.succ_pos n, by decide⟩
        omega
      have same : msSqlPage? [.offsetRows (clamped (offset.getD 0)), .fetchRows (clamped (n + 1))] =
          some ⟨clamped (offset.getD 0), some (clamped (n + 1))⟩ := by
        simp [msSqlPage?, rows_natural, msSql.rows_clamped (n + 1) enough]
      exact iff_of_true (same ▸ denotes_clamped (some (n + 1)) offset) (by simp)

theorem page_pagination (d : Dialect) (ordered : Bool) (limit offset : Option Nat) :
    Denotes (d.page? ordered (spelled d (d.pagination ordered limit offset))) ⟨offset.getD 0, limit⟩ ↔
      ¬(d = .msSql ∧ limit = some 0) := by
  cases d with
  | postgres | cockroachDb => exact iff_of_true (page_placed rfl ordered limit offset) (by simp)
  | mySql => exact iff_of_true (page_mySql ordered limit offset) (by simp)
  | sqlite => exact iff_of_true (page_sqlite ordered limit offset) (by simp)
  | msSql => exact (page_msSql ordered limit offset).trans (by simp)

end Dialect

-- The statement without its page.
def Select.unpaged (s : Select) : Select := { s with limit := none, offset := none }

theorem Render.select_page (d : Dialect) (s : Select) :
    select d s = select d s.unpaged ++ d.pagination (!s.orders.isEmpty) s.limit s.offset := by
  obtain ⟨table, binding, columns, joins, conditions, orders, limit, offset⟩ := s
  simp only [Select.unpaged, select, Dialect.pagination_none, List.append_nil, List.cons_append]

-- A clause behind a statement is a text of its own.
theorem Legible.behind {d : Dialect} {pieces : List Piece} (legible : Legible d false pieces) (front : Writer) :
    ∃ clause values, front.putAll d.placeholder pieces = ⟨front.sql ++ clause, front.values ++ values⟩ ∧
      ∀ later, d.tokens? front.values.length (front.values ++ values ++ later) clause =
        some (Piece.spelled d pieces) := by
  have settled : Legible d true pieces := by
    intro params base w text ts reads _ known
    exact legible params base w text ts reads (by simp) known
  exact settled.reads front

theorem Select.clause_read (d : Dialect) (s : Select) : ∃ clause values,
    s.build d = ⟨(s.unpaged.build d).sql ++ clause, (s.unpaged.build d).values ++ values⟩ ∧
    d.tokens? (s.unpaged.build d).values.length (s.build d).values clause =
      some (Piece.spelled d (d.pagination (!s.orders.isEmpty) s.limit s.offset)) := by
  have legible := (Render.neat_pagination (d := d) (!s.orders.isEmpty) s.limit s.offset).legible
  obtain ⟨clause, values, written, read⟩ := legible.behind (s.unpaged.build d)
  have whole : s.build d = ⟨(s.unpaged.build d).sql ++ clause, (s.unpaged.build d).values ++ values⟩ := by
    rw [← written, Select.build, Render.select_page, Writer.putAll_append]
    rfl
  have read := read []
  rw [List.append_nil] at read
  exact ⟨clause, values, whole, by rw [whole]; exact read⟩

-- A clause is written behind every statement, and reads as the page that was asked for; only SQL Server does not
-- take it where no row is wanted.
theorem Select.page_written (d : Dialect) (s : Select) : ∃ clause values ts,
    s.build d = ⟨(s.unpaged.build d).sql ++ clause, (s.unpaged.build d).values ++ values⟩ ∧
    d.tokens? (s.unpaged.build d).values.length (s.build d).values clause = some ts ∧
    (Dialect.Denotes (d.page? (!s.orders.isEmpty) ts) s.page ↔ ¬(d = .msSql ∧ s.limit = some 0)) := by
  obtain ⟨clause, values, whole, read⟩ := s.clause_read d
  exact ⟨clause, values, _, whole, read, d.page_pagination _ s.limit s.offset⟩

theorem no_rows_refused : ¬∀ (d : Dialect) (s : Select) (clause : String) (values : List Value) (ts : List Token),
    s.build d = ⟨(s.unpaged.build d).sql ++ clause, (s.unpaged.build d).values ++ values⟩ →
    d.tokens? (s.unpaged.build d).values.length (s.build d).values clause = some ts →
      Dialect.Denotes (d.page? (!s.orders.isEmpty) ts) s.page := by
  intro claimed
  let s : Select := { Select.new "users" with limit := some 0 }
  obtain ⟨clause, values, whole, read⟩ := s.clause_read .msSql
  exact (Dialect.page_msSql false (some 0) none).mp (claimed .msSql s clause values _ whole read) rfl

end FilterQuery
