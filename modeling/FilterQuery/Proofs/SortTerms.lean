import FilterQuery.Proofs.PageClauses
import FilterQuery.Proofs.WovenStatements

namespace FilterQuery

-- The tokens outside all brackets, a pair of brackets being told by the first; none if the brackets do not match.
def outer? : Nat → List Token → Option (List Token)
  | 0, [] => some []
  | _ + 1, [] => none
  | 0, t :: rest =>
    match t with
    | .closing => none
    | t => (outer? (depthAfter 0 t) rest).map (t :: ·)
  | depth + 1, t :: rest => outer? (depthAfter (depth + 1) t) rest

namespace Token

def isComma : Token → Bool
  | comma => true
  | _ => false

def isThen : Token → Bool
  | word text => text = "THEN"
  | _ => false

def endsSubject : Token → Bool
  | word text => text = "ASC" || text = "DESC" || text = "NULLS"
  | _ => false

-- What binds less than a test does, or starts something else.
def isLoose : Token → Bool
  | word text => text = "AND" || text = "OR" || text = "CASE"
  | _ => false

end Token

-- A NOT that belongs to no operator.
def negates : List Token → Bool
  | [] => false
  | .word "IS" :: .word "NOT" :: rest => negates rest
  | .word "NOT" :: .word text :: rest => !(text = "IN" || text = "LIKE" || text = "ILIKE") || negates rest
  | .word "NOT" :: _ => true
  | _ :: rest => negates rest

-- A test behind these tokens is a test of all of them.
def isOneOperand (ts : List Token) : Bool :=
  match outer? 0 ts with
  | none => false
  | some own =>
    !own.isEmpty && !negates own &&
      own.all fun t => !(t.isComma || t.isThen || t.endsSubject || t.isLoose)

def putBefore (ts : List Token) : List (List Token) → List (List Token)
  | [] => [ts]
  | part :: rest => (ts ++ part) :: rest

-- The parts between such tokens, those in brackets left alone.
def splitOuter (stop : Token → Bool) : Nat → List Token → List (List Token)
  | _, [] => [[]]
  | depth, t :: rest =>
    if depth = 0 ∧ stop t then [] :: splitOuter stop 0 rest
    else putBefore [t] (splitOuter stop (depthAfter depth t) rest)

inductive NullTest where
  | missing (tokens : List Token)
  | condition (reading : Reading)

inductive SortSubject where
  | operand (tokens : List Token)
  | indicator (test : NullTest) (yes no : Nat)

structure SortTerm where
  subject : SortSubject
  direction : Direction
  nulls : Nulls

-- What stands before IS NULL.
def beforeIsNull? (ts : List Token) : Option (List Token) :=
  match ts.reverse with
  | .word "NULL" :: .word "IS" :: rest => some rest.reverse
  | _ => none

def NullTest.ofTokens? (ts : List Token) : Option NullTest :=
  match (beforeIsNull? ts).filter isOneOperand with
  | some operand => some (.missing operand)
  | none => (Reading.ofTokens? ts).map .condition

namespace SortSubject

def indicator? (ts : List Token) : Option SortSubject := do
  let later ← after? ["CASE", "WHEN"] ts
  match splitOuter Token.isThen 0 later with
  | [test, [.word yes, .word "ELSE", .word no, .word "END"]] => do
    let test ← NullTest.ofTokens? test
    pure (.indicator test (← readDigits? yes.toList) (← readDigits? no.toList))
  | _ => none

def ofTokens? (ts : List Token) : Option SortSubject :=
  match outer? 0 ts with
  | none => none
  | some own => if own.isEmpty || own.any Token.endsSubject then none else some ((indicator? ts).getD (.operand ts))

end SortSubject

-- The words that place NULL are known to these; SQLite knows them only since version 3.30.
def Dialect.knowsPlacement : Dialect → Bool
  | postgres | cockroachDb => true
  | mySql | sqlite | msSql => false

def Dialect.splitNulls (d : Dialect) (ts : List Token) : List Token × Nulls :=
  match d.knowsPlacement, ts.reverse with
  | true, .word "FIRST" :: .word "NULLS" :: rest => (rest.reverse, .first)
  | true, .word "LAST" :: .word "NULLS" :: rest => (rest.reverse, .last)
  | _, _ => (ts, .default)

def splitDirection (ts : List Token) : List Token × Direction :=
  match ts.reverse with
  | .word "ASC" :: rest => (rest.reverse, .asc)
  | .word "DESC" :: rest => (rest.reverse, .desc)
  | _ => (ts, .asc)

namespace Dialect

def sortTerm? (d : Dialect) (ts : List Token) : Option SortTerm :=
  let placed := d.splitNulls ts
  let directed := splitDirection placed.1
  (SortSubject.ofTokens? directed.1).map (⟨·, directed.2, placed.2⟩)

-- The terms of a clause, or of none.
def sortTerms? (d : Dialect) (ts : List Token) : Option (List SortTerm) :=
  if ts.isEmpty then some []
  else do
    let items ← after? ["ORDER", "BY"] ts
    (splitOuter Token.isComma 0 items).mapM d.sortTerm?

end Dialect

section Splitting

variable {stop : Token → Bool} {depth : Nat} {ts own : List Token}

theorem putBefore_nil {parts : List (List Token)} (nonempty : parts ≠ []) : putBefore [] parts = parts := by
  cases parts with
  | nil => exact absurd rfl nonempty
  | cons part rest => rfl

theorem putBefore_append (ts us : List Token) (parts : List (List Token)) :
    putBefore (ts ++ us) parts = putBefore ts (putBefore us parts) := by
  cases parts with
  | nil => rfl
  | cons part rest => simp [putBefore]

theorem splitOuter_ne_nil (stop : Token → Bool) (depth : Nat) (ts : List Token) : splitOuter stop depth ts ≠ [] := by
  cases ts with
  | nil => simp [splitOuter]
  | cons t rest =>
    rw [splitOuter]
    split
    · simp
    · unfold putBefore
      split <;> simp

theorem outer_cons {t : Token} {rest : List Token} (walk : outer? 0 (t :: rest) = some own) :
    t ≠ .closing ∧ ∃ inner, outer? (depthAfter 0 t) rest = some inner ∧ own = t :: inner := by
  cases t with
  | closing => cases walk
  | _ =>
    obtain ⟨inner, within, rfl⟩ := Option.map_eq_some_iff.mp walk
    exact ⟨by simp, inner, within, rfl⟩

theorem outer_of_ne {t : Token} (other : t ≠ .closing) (rest : List Token) :
    outer? 0 (t :: rest) = (outer? (depthAfter 0 t) rest).map (t :: ·) := by
  cases t with
  | closing => exact absurd rfl other
  | _ => rfl

-- What is between two such tokens is a part, if none of them is outside its brackets.
theorem splitOuter_through (walk : outer? depth ts = some own) (free : ∀ t ∈ own, stop t = false) (rest : List Token) :
    splitOuter stop depth (ts ++ rest) = putBefore ts (splitOuter stop 0 rest) := by
  induction ts generalizing depth own with
  | nil =>
    cases depth with
    | zero => exact (putBefore_nil (splitOuter_ne_nil stop 0 rest)).symm
    | succ depth => cases walk
  | cons t later ih =>
    cases depth with
    | zero =>
      obtain ⟨_, inner, within, rfl⟩ := outer_cons walk
      rw [List.forall_mem_cons] at free
      rw [List.cons_append, splitOuter, if_neg (by simp [free.1]), ih within free.2]
      exact (putBefore_append [t] later _).symm
    | succ depth =>
      rw [List.cons_append, splitOuter, if_neg (by simp), ih walk free]
      exact (putBefore_append [t] later _).symm

theorem splitOuter_last (walk : outer? 0 ts = some own) (free : ∀ t ∈ own, stop t = false) :
    splitOuter stop 0 ts = [ts] := by
  have whole := splitOuter_through walk free []
  rwa [List.append_nil, splitOuter, putBefore, List.append_nil] at whole

theorem splitOuter_stop {t : Token} (walk : outer? 0 ts = some own) (free : ∀ t ∈ own, stop t = false)
    (stops : stop t = true) (rest : List Token) :
    splitOuter stop 0 (ts ++ t :: rest) = ts :: splitOuter stop 0 rest := by
  rw [splitOuter_through walk free, splitOuter, if_pos ⟨rfl, stops⟩, putBefore, List.append_nil]

theorem outer_append (walk : outer? depth ts = some own) (rest : List Token) :
    outer? depth (ts ++ rest) = (outer? 0 rest).map (own ++ ·) := by
  induction ts generalizing depth own with
  | nil =>
    cases depth with
    | zero =>
      cases walk
      simp
    | succ depth => cases walk
  | cons t later ih =>
    cases depth with
    | zero =>
      obtain ⟨other, inner, within, rfl⟩ := outer_cons walk
      rw [List.cons_append, outer_of_ne other, ih within, Option.map_map]
      rfl
    | succ depth => exact ih walk

-- Nothing of it divides a list.
def Item (ts : List Token) : Prop := ∃ own, outer? 0 ts = some own ∧ ∀ t ∈ own, t.isComma = false

theorem splitOuter_items {parts : List (List Token)} (nonempty : parts ≠ []) (items : ∀ part ∈ parts, Item part) :
    splitOuter Token.isComma 0 (listTokens parts) = parts := by
  match parts with
  | [] => exact absurd rfl nonempty
  | [part] =>
    obtain ⟨own, walk, free⟩ := items part (by simp)
    exact splitOuter_last walk free
  | part :: next :: rest =>
    rw [List.forall_mem_cons] at items
    obtain ⟨⟨own, walk, free⟩, others⟩ := items
    rw [listTokens, splitOuter_stop walk free rfl, splitOuter_items (by simp) others]
    simp

theorem listTokens_append {left right : List (List Token)} (nonempty : left ≠ []) (nonempty' : right ≠ []) :
    listTokens (left ++ right) = listTokens left ++ .comma :: listTokens right := by
  match left with
  | [] => exact absurd rfl nonempty
  | [part] =>
    cases right with
    | nil => exact absurd rfl nonempty'
    | cons next rest => rfl
  | part :: next :: rest =>
    have later := listTokens_append (List.cons_ne_nil next rest) nonempty'
    simp only [List.cons_append] at later ⊢
    simp only [listTokens, later, List.append_assoc, List.cons_append]

end Splitting

-- What the outer tokens of an operand are not.
theorem isOneOperand_iff {ts : List Token} : isOneOperand ts = true ↔
    ∃ own, outer? 0 ts = some own ∧ own ≠ [] ∧ negates own = false ∧
      ∀ t ∈ own, t.isComma = false ∧ t.isThen = false ∧ t.endsSubject = false ∧ t.isLoose = false := by
  unfold isOneOperand
  split
  · simp_all
  · rename_i own walk
    simp only [walk, Bool.and_eq_true, Bool.not_eq_true', List.isEmpty_eq_false_iff, List.all_eq_true,
      Bool.or_eq_false_iff, Option.some.injEq, exists_eq_left', and_assoc]

def Expr.spelt (d : Dialect) (e : Expr) : List Token := Piece.spelled d (Render.expr d e)

-- Legible, and a test behind it is a test of the whole.
structure Expr.Whole (d : Dialect) (e : Expr) : Prop where
  plain : e.Plain d
  operand : isOneOperand (e.spelt d) = true

def Nulls.words : Nulls → List String
  | first => ["NULLS", "FIRST"]
  | last => ["NULLS", "LAST"]
  | default => []

-- The numbers for a key that is NULL and for one that is not.
def Nulls.digits : Nulls → String × String
  | first => ("0", "1")
  | last | default => ("1", "0")

def Nulls.numbers : Nulls → Nat × Nat
  | first => (0, 1)
  | last | default => (1, 0)

def indicatorTokens (nulls : Nulls) (ts : List Token) : List Token :=
  ["CASE", "WHEN"].map .word ++
    (ts ++ ["IS", "NULL"].map .word ++ ["THEN", nulls.digits.1, "ELSE", nulls.digits.2, "END"].map .word)

namespace SortKey

def indicated (d : Dialect) (key : SortKey) : Bool := key.nulls ≠ .default && !d.placesNulls

-- The terms of a key as they are written and as they are read.
def items (d : Dialect) (key : SortKey) : List (List Token) :=
  let sorted (nulls : Nulls) := key.expr.spelt d ++ (key.direction.keyword :: nulls.words).map .word
  if key.indicated d then [indicatorTokens key.nulls (key.expr.spelt d), sorted .default] else [sorted key.nulls]

def terms (d : Dialect) (key : SortKey) : List SortTerm :=
  let sorted := SortTerm.mk (.operand (key.expr.spelt d)) key.direction
  if key.indicated d then
    [⟨.indicator (.missing (key.expr.spelt d)) key.nulls.numbers.1 key.nulls.numbers.2, .asc, .default⟩,
      sorted .default]
  else [sorted key.nulls]

theorem items_ne_nil (d : Dialect) (key : SortKey) : key.items d ≠ [] := by
  unfold items
  split <;> simp

end SortKey

namespace Render
open Piece

variable {d : Dialect}

theorem spelled_sortKey (key : SortKey) :
    spelled d (sortKey d (expr d key.expr) key.direction key.nulls) = listTokens (key.items d) := by
  have case : (Scan.of d "CASE WHEN ").finish = [.word "CASE", .word "WHEN"] := by cases d <;> rfl
  have missing : (Scan.of d " IS NULL THEN 0 ELSE 1 END").finish =
      ["IS", "NULL", "THEN", "0", "ELSE", "1", "END"].map .word := by cases d <;> rfl
  have present : (Scan.of d " IS NULL THEN 1 ELSE 0 END").finish =
      ["IS", "NULL", "THEN", "1", "ELSE", "0", "END"].map .word := by cases d <;> rfl
  have comma : (Scan.of d ", ").finish = [.comma] := by cases d <;> rfl
  have direction : (Scan.of d key.direction.keyword).finish = [.word key.direction.keyword] := by
    cases key.direction <;> cases d <;> rfl
  have words : ∀ nulls, spelled d (nullsWord nulls) = nulls.words.map .word := by
    intro nulls
    cases nulls <;> cases d <;> rfl
  unfold sortKey SortKey.items SortKey.indicated
  cases key.nulls <;> cases d.placesNulls <;>
    simp [nullsIndicator, indicatorTokens, Nulls.digits, Nulls.words, listTokens, Expr.spelt, Piece.keyword, case, missing, present, comma,
      direction, words]

theorem spelled_orderPieces (orders : List SortKey) :
    spelled d (orderPieces d orders) = listTokens (orders.flatMap (SortKey.items d)) := by
  have comma : (Scan.of d ", ").finish = [.comma] := by cases d <;> rfl
  induction orders with
  | nil => rfl
  | cons key rest ih =>
    obtain ⟨e, direction, nulls⟩ := key
    cases rest with
    | nil =>
      rw [List.flatMap_singleton]
      exact spelled_sortKey ⟨e, direction, nulls⟩
    | cons next rest =>
      have others : (next :: rest).flatMap (SortKey.items d) ≠ [] := by simp [SortKey.items_ne_nil]
      rw [List.flatMap_cons, listTokens_append (SortKey.items_ne_nil d _) others, ← ih, ← spelled_sortKey, orderPieces]
      · simp [comma]
      · simp

end Render

section Terms

variable {d : Dialect} {ts : List Token}

theorem outer_words (words : List String) : outer? 0 (words.map .word) = some (words.map .word) := by
  induction words with
  | nil => rfl
  | cons w rest ih =>
    rw [List.map_cons, outer_of_ne (by simp)]
    exact congrArg (Option.map _) ih

theorem splitDirection_keyword (ts : List Token) (direction : Direction) :
    splitDirection (ts ++ [.word direction.keyword]) = (ts, direction) := by
  cases direction <;> simp [splitDirection, Direction.keyword]

theorem splitNulls_words (ts : List Token) (direction : Direction) {nulls : Nulls}
    (known : d.placesNulls = true ∨ nulls = .default) :
    d.splitNulls (ts ++ (direction.keyword :: nulls.words).map .word) = (ts ++ [.word direction.keyword], nulls) := by
  cases d <;> cases nulls <;> cases direction <;>
    simp [Dialect.splitNulls, Dialect.knowsPlacement, Dialect.placesNulls, Nulls.words, Direction.keyword] at known ⊢

-- A term that is an operand alone.
theorem read_operand (one : isOneOperand ts = true) : SortSubject.ofTokens? ts = some (.operand ts) := by
  obtain ⟨own, walk, nonempty, _, free⟩ := isOneOperand_iff.mp one
  have unended : own.any Token.endsSubject = false := List.any_eq_false.mpr fun t member => by simp [free t member]
  have uncased : after? ["CASE", "WHEN"] ts = none := by
    cases ts with
    | nil => rfl
    | cons t rest =>
      obtain ⟨_, inner, _, rfl⟩ := outer_cons walk
      have tight := (free t (by simp)).2.2.2
      cases t with
      | word text =>
        rw [after?, if_neg]
        rintro rfl
        cases tight
      | _ => rfl
  simp [SortSubject.ofTokens?, SortSubject.indicator?, walk, nonempty, unended, uncased]

-- A key in its direction.
theorem read_sorted (one : isOneOperand ts = true) (direction : Direction) {nulls : Nulls}
    (known : d.placesNulls = true ∨ nulls = .default) :
    d.sortTerm? (ts ++ (direction.keyword :: nulls.words).map .word) = some ⟨.operand ts, direction, nulls⟩ := by
  simp only [Dialect.sortTerm?, splitNulls_words ts direction known, splitDirection_keyword, read_operand one,
    Option.map_some]

theorem read_missing (one : isOneOperand ts = true) :
    NullTest.ofTokens? (ts ++ [.word "IS", .word "NULL"]) = some (.missing ts) := by
  simp [NullTest.ofTokens?, beforeIsNull?, Option.filter, one]

theorem outer_indicator {own : List Token} (walk : outer? 0 ts = some own) (nulls : Nulls) :
    outer? 0 (indicatorTokens nulls ts) = some (indicatorTokens nulls own) := by
  have front := outer_append walk (["IS", "NULL"].map .word)
  rw [outer_words, Option.map_some] at front
  rw [indicatorTokens, outer_append (outer_words _), outer_append front, outer_words]
  rfl

-- A term that asks whether an operand is NULL.
theorem read_indicator (one : isOneOperand ts = true) (nulls : Nulls) :
    SortSubject.ofTokens? (indicatorTokens nulls ts) =
      some (.indicator (.missing ts) nulls.numbers.1 nulls.numbers.2) := by
  obtain ⟨own, walk, _, _, free⟩ := isOneOperand_iff.mp one
  have unended : (indicatorTokens nulls own).any Token.endsSubject = false := by
    have inner : own.any Token.endsSubject = false := List.any_eq_false.mpr fun t member => by simp [free t member]
    cases nulls <;> simp [indicatorTokens, Nulls.digits, inner, Token.endsSubject]
  have parts : splitOuter Token.isThen 0 (ts ++ ["IS", "NULL"].map .word ++
      ["THEN", nulls.digits.1, "ELSE", nulls.digits.2, "END"].map .word) =
        [ts ++ [.word "IS", .word "NULL"], ([nulls.digits.1, "ELSE", nulls.digits.2, "END"].map .word)] := by
    have test := outer_append walk (["IS", "NULL"].map .word)
    rw [outer_words, Option.map_some] at test
    have numbers : ∀ t ∈ [nulls.digits.1, "ELSE", nulls.digits.2, "END"].map Token.word, t.isThen = false := by
      cases nulls <;> decide
    have unthen : ∀ t ∈ own ++ ["IS", "NULL"].map Token.word, t.isThen = false :=
      List.forall_mem_append.mpr ⟨fun t member => (free t member).2.1, by decide⟩
    have whole := splitOuter_stop (t := .word "THEN") test unthen rfl
      ([nulls.digits.1, "ELSE", nulls.digits.2, "END"].map .word)
    rwa [splitOuter_last (outer_words _) numbers] at whole
  have read : SortSubject.indicator? (indicatorTokens nulls ts) =
      some (.indicator (.missing ts) nulls.numbers.1 nulls.numbers.2) := by
    have later : after? ["CASE", "WHEN"] (indicatorTokens nulls ts) = some (ts ++ ["IS", "NULL"].map .word ++
      ["THEN", nulls.digits.1, "ELSE", nulls.digits.2, "END"].map .word) := rfl
    simp only [SortSubject.indicator?, later, Option.bind_eq_bind, Option.bind_some]
    rw [parts]
    cases nulls <;> simp only [List.map_cons, List.map_nil, read_missing one] <;> rfl
  have filled : (indicatorTokens nulls own).isEmpty = false := rfl
  simp only [SortSubject.ofTokens?, outer_indicator walk nulls, filled, unended, Bool.or_self, Bool.false_eq_true,
    if_false, read, Option.getD_some]

theorem read_indicated (one : isOneOperand ts = true) (nulls : Nulls) :
    d.sortTerm? (indicatorTokens nulls ts) =
      some ⟨.indicator (.missing ts) nulls.numbers.1 nulls.numbers.2, .asc, .default⟩ := by
  have ends : ∃ front, indicatorTokens nulls ts = front ++ [.word "END"] :=
    ⟨["CASE", "WHEN"].map .word ++ (ts ++ ["IS", "NULL"].map .word ++
      ["THEN", nulls.digits.1, "ELSE", nulls.digits.2].map .word), by simp [indicatorTokens]⟩
  have read := read_indicator one nulls
  obtain ⟨front, shape⟩ := ends
  rw [shape] at read ⊢
  have unplaced : d.splitNulls (front ++ [.word "END"]) = (front ++ [.word "END"], .default) := by
    cases d <;> simp [Dialect.splitNulls]
  have undirected : splitDirection (front ++ [.word "END"]) = (front ++ [.word "END"], .asc) := by
    simp [splitDirection]
  simp [Dialect.sortTerm?, unplaced, undirected, read]

end Terms

namespace SortKey

variable {d : Dialect} {key : SortKey}

theorem items_whole (whole : key.expr.Whole d) : ∀ item ∈ key.items d, Item item := by
  obtain ⟨own, walk, _, _, free⟩ := isOneOperand_iff.mp whole.operand
  have apart : ∀ t ∈ own, t.isComma = false := fun t member => (free t member).1
  have words : ∀ (words : List String), ∀ t ∈ words.map Token.word, t.isComma = false := by
    intro words t member
    obtain ⟨w, _, rfl⟩ := List.mem_map.mp member
    rfl
  have sorted : ∀ more : List String, Item (key.expr.spelt d ++ more.map .word) := by
    intro more
    refine ⟨own ++ more.map .word, ?_, ?_⟩
    · rw [outer_append walk, outer_words]
      rfl
    · exact List.forall_mem_append.mpr ⟨apart, words more⟩
  unfold items
  split
  · rw [List.forall_mem_cons, List.forall_mem_singleton]
    refine ⟨⟨_, outer_indicator walk key.nulls, ?_⟩, sorted _⟩
    simp only [indicatorTokens, List.forall_mem_append]
    exact ⟨words _, ⟨apart, words _⟩, words _⟩
  · rw [List.forall_mem_singleton]
    exact sorted _

theorem items_read (whole : key.expr.Whole d) : (key.items d).mapM d.sortTerm? = some (key.terms d) := by
  unfold items terms
  split
  · have sorted := read_sorted whole.operand key.direction (.inr rfl : d.placesNulls = true ∨ Nulls.default = .default)
    simp only [List.mapM_cons, List.mapM_nil, read_indicated whole.operand, sorted]
    rfl
  · rename_i told
    have known : d.placesNulls = true ∨ key.nulls = .default := by
      cases placed : d.placesNulls with
      | true => exact .inl rfl
      | false => exact .inr (by simpa [indicated, placed] using told)
    simp only [List.mapM_cons, List.mapM_nil, read_sorted whole.operand key.direction known]
    rfl

end SortKey

def Render.sortClause (d : Dialect) (orders : List SortKey) : List Piece :=
  if orders.isEmpty then [] else Piece.keyword "ORDER BY" ++ .space :: orderPieces d orders

section Clauses

variable {d : Dialect} {orders : List SortKey}

theorem Render.neat_sortClause (plain : ∀ key ∈ orders, key.expr.Plain d) : Neat d false (sortClause d orders) := by
  have each : Select.OrdersPlain d orders := by
    induction orders with
    | nil => trivial
    | cons key rest ih =>
      obtain ⟨e, direction, nulls⟩ := key
      rw [List.forall_mem_cons] at plain
      exact ⟨plain.1, ih plain.2⟩
  unfold sortClause
  split
  · exact .nil
  · exact .append (.keyword (by cases d <;> rfl)) (.space (neat_orderPieces orders each))

theorem SortKey.mapM_terms (whole : ∀ key ∈ orders, key.expr.Whole d) :
    (orders.flatMap (items d)).mapM d.sortTerm? = some (orders.flatMap (terms d)) := by
  induction orders with
  | nil => rfl
  | cons key rest ih =>
    rw [List.forall_mem_cons] at whole
    rw [List.flatMap_cons, List.mapM_append, items_read whole.1, ih whole.2]
    rfl

theorem clause_terms (whole : ∀ key ∈ orders, key.expr.Whole d) :
    d.sortTerms? (Piece.spelled d (Render.sortClause d orders)) = some (orders.flatMap (SortKey.terms d)) := by
  have words : (Scan.of d "ORDER BY").finish = [.word "ORDER", .word "BY"] := by cases d <;> rfl
  cases orders with
  | nil => rfl
  | cons key rest =>
    have nonempty : (key :: rest).flatMap (SortKey.items d) ≠ [] := by simp [SortKey.items_ne_nil]
    have items : ∀ item ∈ (key :: rest).flatMap (SortKey.items d), Item item := by
      intro item member
      obtain ⟨key, own, member⟩ := List.mem_flatMap.mp member
      exact SortKey.items_whole (whole key own) item member
    have shape : Piece.spelled d (Render.sortClause d (key :: rest)) =
        .word "ORDER" :: .word "BY" :: listTokens ((key :: rest).flatMap (SortKey.items d)) := by
      simp [Render.sortClause, Piece.keyword, words, Render.spelled_orderPieces]
    rw [shape, Dialect.sortTerms?, if_neg (by simp)]
    simp only [after?, if_true, Option.bind_eq_bind, Option.bind_some, splitOuter_items nonempty items]
    exact SortKey.mapM_terms whole

end Clauses

namespace Select

-- The statement before its keys and its page.
def unsorted (s : Select) : Select := { s.unpaged with orders := [] }

-- The clause that is written for the keys, with the page behind it, reads as the terms.
def SortsBy (s : Select) (d : Dialect) (terms : List SortTerm) : Prop :=
  ∃ clause page ts, (s.unpaged.build d).sql = (s.unsorted.build d).sql ++ clause ∧
    (s.build d).sql = (s.unpaged.build d).sql ++ page ∧
    d.tokens? (s.unsorted.build d).values.length (s.build d).values clause = some ts ∧ d.sortTerms? ts = some terms

variable {d : Dialect} {s : Select}

theorem select_sorted (d : Dialect) (s : Select) :
    Render.select d s.unpaged = Render.select d s.unsorted ++ Render.sortClause d s.orders := by
  obtain ⟨table, binding, columns, joins, conditions, orders, limit, offset⟩ := s
  simp only [unpaged, unsorted, Render.select, Render.sortClause, Dialect.pagination_none, List.append_nil,
    List.cons_append, List.isEmpty_nil, if_true]

theorem sortsBy_iff (plain : ∀ key ∈ s.orders, key.expr.Plain d) {terms : List SortTerm} :
    s.SortsBy d terms ↔ d.sortTerms? (Piece.spelled d (Render.sortClause d s.orders)) = some terms := by
  obtain ⟨clause, values, written, read⟩ := (Render.neat_sortClause plain).legible.behind (s.unsorted.build d)
  have sorted : s.unpaged.build d = ⟨(s.unsorted.build d).sql ++ clause, (s.unsorted.build d).values ++ values⟩ := by
    rw [← written, build, select_sorted, Writer.putAll_append]
    rfl
  obtain ⟨page, further, paged, _⟩ := s.clause_read d
  rw [sorted] at paged
  have known : (s.build d).values = (s.unsorted.build d).values ++ values ++ further := congrArg Writer.values paged
  have read := read further
  rw [← known] at read
  constructor
  · rintro ⟨clause', page', ts, own, _, found, terms⟩
    rw [sorted] at own
    have same : clause = clause' := String.append_right_inj _ |>.mp own
    cases same
    cases read.symm.trans found
    exact terms
  · intro terms
    exact ⟨clause, page, _, congrArg Writer.sql sorted, by rw [paged, sorted], read, terms⟩

end Select

end FilterQuery
