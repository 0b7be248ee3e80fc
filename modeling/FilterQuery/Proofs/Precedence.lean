import FilterQuery.Adapter.MsSql
import FilterQuery.Proofs.LegibleSql

namespace FilterQuery

-- The operator stands between its operands, and no word of it would end the comparison.
def Dialect.compares (d : Dialect) (symbol : String) : Bool :=
  d.plain symbol && (Scan.of d symbol).finish.all fun t => !t.endsAtom

def BinOp.Compares (d : Dialect) : BinOp → Prop
  | custom symbol => d.compares symbol = true
  | _ => True

theorem BinOp.compares_symbol {d : Dialect} {op : BinOp} (own : op.Compares d) : d.compares op.symbol = true := by
  cases op with
  | custom symbol => exact own
  | _ => cases d <;> rfl

namespace Expr

def isOperand : Expr → Bool
  | column _ _ | value _ => true
  | _ => false

def operandTokens : Expr → List Token
  | column (some table) name => [.name table, .dot, .name name]
  | column none name => [.name name]
  | value v => if v.isNull then [.word "NULL"] else [.value v]
  | _ => []

end Expr

def listTokens : List (List Token) → List Token
  | [] => []
  | [ts] => ts
  | ts :: rest => ts ++ .comma :: listTokens rest

namespace Expr

-- The tokens of a comparison or test; those of a subquery as its own statement has them.
def atomTokens (d : Dialect) : Expr → List Token
  | binary left op right => left.operandTokens ++ (Scan.of d op.symbol).finish ++ right.operandTokens
  | inList e list negated =>
    e.operandTokens ++ (if negated then ["NOT", "IN"] else ["IN"]).map .word ++
      .opening :: listTokens (list.map operandTokens) ++ [.closing]
  | isNull e negated => e.operandTokens ++ (if negated then ["IS", "NOT", "NULL"] else ["IS", "NULL"]).map .word
  | existsIn query _ =>
    .word "EXISTS" :: .opening :: (d.tokens? 0 (query.build d).values (query.build d).sql).getD [] ++ [.closing]
  | _ => []

mutual
-- The combination that an expression is.
def reading (d : Dialect) : Expr → Reading
  | and members => .and (readings d members)
  | or members => .or (readings d members)
  | not e => .not (e.reading d)
  | notTrue e => .notTrue (e.reading d)
  | constant b => .constant b
  | existsIn query true => .not (.atom (atomTokens d (existsIn query false)))
  | e => .atom (e.atomTokens d)

def readings (d : Dialect) : List Expr → List Reading
  | [] => []
  | e :: rest => e.reading d :: readings d rest
end

mutual
-- AND, OR, negations and constants over comparisons, IN, IS NULL and EXISTS.
def Formula (d : Dialect) : Expr → Prop
  | and members => members ≠ [] ∧ AllFormulas d members
  | or members => members ≠ [] ∧ AllFormulas d members
  | not e => e.Formula d
  | notTrue e => e.Formula d
  | constant _ => True
  | binary left op right => left.isOperand = true ∧ op.Compares d ∧ right.isOperand = true
  | inList e list _ => e.isOperand = true ∧ ∀ x ∈ list, x.isOperand = true
  | isNull e _ => e.isOperand = true
  | existsIn query _ => query.Plain d
  | _ => False

def AllFormulas (d : Dialect) : List Expr → Prop
  | [] => True
  | e :: rest => e.Formula d ∧ AllFormulas d rest
end

variable {d : Dialect}

theorem plain_of_operand {e : Expr} (operand : e.isOperand = true) : e.Plain d := by
  cases e with
  | column | value => trivial
  | _ => cases operand

theorem allPlain_of_operands {list : List Expr} (operands : ∀ x ∈ list, x.isOperand = true) : AllPlain d list := by
  induction list with
  | nil => trivial
  | cons e rest ih =>
    rw [List.forall_mem_cons] at operands
    exact ⟨plain_of_operand operands.1, ih operands.2⟩

theorem plain_of_compares {symbol : String} (compares : d.compares symbol = true) : d.plain symbol = true := by
  rw [Dialect.compares, Bool.and_eq_true] at compares
  exact compares.1

mutual
theorem Formula.plain (e : Expr) (formula : e.Formula d) : e.Plain d := by
  cases e with
  | and members => exact AllFormulas.plain members formula.2
  | or members => exact AllFormulas.plain members formula.2
  | not e => exact Formula.plain e formula
  | notTrue e => exact Formula.plain e formula
  | constant b => trivial
  | binary left op right =>
    obtain ⟨first, own, second⟩ := formula
    exact ⟨plain_of_operand first, plain_of_compares (BinOp.compares_symbol own), plain_of_operand second⟩
  | inList e list negated => exact ⟨plain_of_operand formula.1, allPlain_of_operands formula.2⟩
  | isNull e negated => exact plain_of_operand (e := e) formula
  | existsIn query negated => exact formula
  | _ => cases formula

theorem AllFormulas.plain (members : List Expr) (formulas : AllFormulas d members) : AllPlain d members := by
  cases members with
  | nil => trivial
  | cons e rest => exact ⟨Formula.plain e formulas.1, AllFormulas.plain rest formulas.2⟩
end

end Expr

namespace Render
open Piece

variable {d : Dialect}

theorem spelled_operand {e : Expr} (operand : e.isOperand = true) : spelled d (expr d e) = e.operandTokens := by
  have dot : (Scan.of d ".").finish = [.dot] := by cases d <;> rfl
  cases e with
  | column table name => cases table <;> simp [expr, columnName, Expr.operandTokens, dot]
  | value v => simp [expr, spelled, tokens, Expr.operandTokens]
  | _ => cases operand

theorem operand_not_weak {e : Expr} (operand : e.isOperand = true) : e.isWeak = false := by
  cases e with
  | column | value => rfl
  | _ => cases operand

theorem members_cons (d : Dialect) (separator : String) (group : Expr → Bool) (e next : Expr) (rest : List Expr) :
    members d separator group (e :: next :: rest) =
      grouped (group e) (expr d e) ++ .text separator :: members d separator group (next :: rest) := by
  rw [members]
  simp

theorem spelled_items {list : List Expr} (operands : ∀ x ∈ list, x.isOperand = true) :
    spelled d (members d ", " (fun _ => false) list) = listTokens (list.map Expr.operandTokens) := by
  have comma : (Scan.of d ", ").finish = [.comma] := by cases d <;> rfl
  match list with
  | [] => rfl
  | [e] => simpa [members, grouped, listTokens] using spelled_operand (operands e (by simp))
  | e :: next :: rest =>
    rw [List.forall_mem_cons] at operands
    have later := spelled_items operands.2
    rw [members_cons, spelled_append, spelled_text, comma, later, grouped, if_neg (by simp), spelled_operand operands.1]
    rfl

-- A subquery has the tokens of its own statement.
theorem spelled_select {query : Select} (plain : query.Plain d) :
    d.tokens? 0 (query.build d).values (query.build d).sql = some (spelled d (select d query)) := by
  obtain ⟨text, values, written, read⟩ := (neat_select query plain).legible.reads Writer.empty
  rw [Select.build, written]
  simpa [Writer.empty] using read []

theorem within_inner {ts : List Token} (inner : ∀ t ∈ ts, t.isLevel = true ∧ t.endsAtom = false) (depth : Nat) :
    Within depth ts := by
  refine .tokens fun t member => ⟨?_, fun _ => (inner t member).2⟩
  have level := (inner t member).1
  cases t <;> first | rfl | cases level

theorem operand_inner (e : Expr) : ∀ t ∈ e.operandTokens, t.isLevel = true ∧ t.endsAtom = false := by
  unfold Expr.operandTokens
  split
  · simp [Token.isLevel, Token.endsAtom]
  · simp [Token.isLevel, Token.endsAtom]
  · split <;> simp [Token.isLevel, Token.endsAtom]
  · simp

theorem compares_inner {symbol : String} (compares : d.compares symbol = true) :
    ∀ t ∈ (Scan.of d symbol).finish, t.isLevel = true ∧ t.endsAtom = false := by
  intro t member
  obtain ⟨_, w, rfl⟩ := Dialect.plain_words (Expr.plain_of_compares compares) t member
  simp only [Dialect.compares, Bool.and_eq_true, List.all_eq_true, Bool.not_eq_true'] at compares
  exact ⟨rfl, compares.2 _ member⟩

theorem items_level (items : List Expr) : (listTokens (items.map Expr.operandTokens)).all Token.isLevel = true := by
  have own : ∀ e : Expr, e.operandTokens.all Token.isLevel = true :=
    fun e => List.all_eq_true.mpr fun t member => (operand_inner e t member).1
  induction items with
  | nil => rfl
  | cons e rest ih =>
    cases rest with
    | nil => exact own e
    | cons next rest =>
      rw [List.map_cons] at ih
      simp only [List.map_cons, listTokens, List.all_append, List.all_cons, ih, own, Bool.and_true, Token.isLevel]

theorem operand_starts {e : Expr} (operand : e.isOperand = true) :
    ∃ t rest, e.operandTokens = t :: rest ∧ t.startsAtom = true ∧ t ≠ .word "1" := by
  cases e with
  | column table name => cases table <;> exact ⟨_, _, rfl, rfl, by simp⟩
  | value v =>
    rw [Expr.operandTokens]
    split
    · exact ⟨_, _, rfl, rfl, by simp⟩
    · exact ⟨_, _, rfl, rfl, by simp⟩
  | _ => cases operand

theorem ofAtom_other {t : Token} (other : t ≠ .word "1") (rest : List Token) :
    Reading.ofAtom (t :: rest) = .atom (t :: rest) := by
  unfold Reading.ofAtom
  split
  · rename_i same
    exact absurd (List.cons.inj same).1 other
  · rename_i same
    exact absurd (List.cons.inj same).1 other
  · rfl

-- An atom that starts with an operand is read whole.
theorem read_atom {e : Expr} (operand : e.isOperand = true) (within : Within 0 rest) :
    Reading.OfFactor (e.operandTokens ++ rest) (.atom (e.operandTokens ++ rest)) := by
  obtain ⟨t, later, shape, starts, other⟩ := operand_starts operand
  have whole : Within 0 (e.operandTokens ++ rest) := (within_inner (operand_inner e) 0).append within
  rw [shape, List.cons_append] at whole ⊢
  exact ⟨_, Reading.factor_atom starts whole, by rw [ofAtom_other other]⟩

theorem read_constant (b : Bool) : Reading.OfFactor (spelled d (expr d (.constant b))) (.constant b) := by
  have within : ∀ last, last = "1" ∨ last = "0" → Within 0 [.word "1", .word "=", .word last] := by
    rintro last (rfl | rfl) <;> exact within_inner (by simp [Token.isLevel, Token.endsAtom]) 0
  cases b with
  | true =>
    have shape : spelled d (expr d (.constant true)) = [.word "1", .word "=", .word "1"] := by cases d <;> rfl
    rw [shape]
    exact ⟨_, Reading.factor_atom rfl (within "1" (.inl rfl)), rfl⟩
  | false =>
    have shape : spelled d (expr d (.constant false)) = [.word "1", .word "=", .word "0"] := by cases d <;> rfl
    rw [shape]
    exact ⟨_, Reading.factor_atom rfl (within "0" (.inr rfl)), rfl⟩

theorem read_binary {left right : Expr} {op : BinOp} (formula : (Expr.binary left op right).Formula d) :
    Reading.OfFactor (spelled d (expr d (.binary left op right))) (.atom ((Expr.binary left op right).atomTokens d)) := by
  obtain ⟨first, own, second⟩ := formula
  have shape : spelled d (expr d (.binary left op right)) =
      left.operandTokens ++ ((Scan.of d op.symbol).finish ++ right.operandTokens) := by
    simp [expr, Piece.keyword, grouped, operand_not_weak first, operand_not_weak second, spelled_operand first,
      spelled_operand second]
  rw [shape, Expr.atomTokens, List.append_assoc]
  have symbol : Within 0 (Scan.of d op.symbol).finish := within_inner (compares_inner (BinOp.compares_symbol own)) 0
  exact read_atom first (symbol.append (within_inner (operand_inner right) 0))

theorem read_inList {e : Expr} {list : List Expr} {negated : Bool} (formula : (Expr.inList e list negated).Formula d) :
    Reading.OfFactor (spelled d (expr d (.inList e list negated))) (.atom ((Expr.inList e list negated).atomTokens d)) := by
  obtain ⟨first, items⟩ := formula
  let word : List Token := (if negated then ["NOT", "IN"] else ["IN"]).map .word
  have keyword : (Scan.of d (if negated then "NOT IN" else "IN")).finish = word := by
    cases negated <;> cases d <;> rfl
  have begins : (Scan.of d " (").finish = [.opening] := by cases d <;> rfl
  have ends : (Scan.of d ")").finish = [.closing] := by cases d <;> rfl
  have shape : spelled d (expr d (.inList e list negated)) =
      e.operandTokens ++ (word ++ (.opening :: listTokens (list.map Expr.operandTokens) ++ [.closing])) := by
    simp [expr, Piece.keyword, grouped, operand_not_weak first, spelled_operand first, spelled_items items, keyword, begins,
      ends]
  have inner : ∀ t ∈ word, t.isLevel = true ∧ t.endsAtom = false := by
    cases negated <;> simp [word, Token.isLevel, Token.endsAtom]
  have whole := read_atom first ((within_inner inner 0).append (Spans.group (within_level (items_level list) 0)))
  rw [shape, Expr.atomTokens]
  simpa [word] using whole

theorem read_isNull {e : Expr} {negated : Bool} (operand : e.isOperand = true) :
    Reading.OfFactor (spelled d (expr d (.isNull e negated))) (.atom ((Expr.isNull e negated).atomTokens d)) := by
  let word : List Token := (if negated then ["IS", "NOT", "NULL"] else ["IS", "NULL"]).map .word
  have keyword : (Scan.of d (if negated then "IS NOT NULL" else "IS NULL")).finish = word := by
    cases negated <;> cases d <;> rfl
  have shape : spelled d (expr d (.isNull e negated)) = e.operandTokens ++ word := by
    simp [expr, Piece.keyword, grouped, operand_not_weak operand, spelled_operand operand, keyword]
  have inner : ∀ t ∈ word, t.isLevel = true ∧ t.endsAtom = false := by
    cases negated <;> simp [word, Token.isLevel, Token.endsAtom]
  rw [shape, Expr.atomTokens]
  exact read_atom operand (within_inner inner 0)

-- NOT before EXISTS is a negation like any other.
theorem read_existsIn {query : Select} {negated : Bool} (plain : query.Plain d) :
    Reading.OfFactor (spelled d (expr d (.existsIn query negated))) ((Expr.existsIn query negated).reading d) := by
  have ends : (Scan.of d ")").finish = [.closing] := by cases d <;> rfl
  have own : Reading.OfFactor (.word "EXISTS" :: .opening :: spelled d (select d query) ++ [.closing])
      (.atom ((Expr.existsIn query false).atomTokens d)) := by
    have bracket := Spans.group ((neat_select query plain).spans 0)
    have word : Within 0 [.word "EXISTS"] := within_inner (by simp [Token.isLevel, Token.endsAtom]) 0
    rw [Expr.atomTokens, spelled_select plain, Option.getD_some]
    refine ⟨_, Reading.factor_atom (t := .word "EXISTS") rfl (word.append bracket), ?_⟩
    exact congrArg Reading.merged (ofAtom_other (by simp) _)
  cases negated with
  | false =>
    have begins : (Scan.of d "EXISTS (").finish = [.word "EXISTS", .opening] := by cases d <;> rfl
    simpa [expr, Expr.reading, begins, ends] using own
  | true =>
    have begins : (Scan.of d "NOT EXISTS (").finish = [.word "NOT", .word "EXISTS", .opening] := by cases d <;> rfl
    simpa [expr, Expr.reading, begins, ends] using own.not

-- The text of an expression: on its own or beside OR, and, unless it is a disjunction, beside AND.
def ReadBack (d : Dialect) (e : Expr) : Prop :=
  Reading.OfDisjunction (spelled d (expr d e)) (e.reading d) ∧
    (e.isOr = false → Reading.OfConjunction (spelled d (expr d e)) (e.reading d))

theorem ReadBack.of_factor {e : Expr} (factor : Reading.OfFactor (spelled d (expr d e)) (e.reading d)) : ReadBack d e :=
  ⟨factor.disjunction, fun _ => factor.conjunction⟩

theorem spelled_bracket (pieces : List Piece) :
    spelled d (.text "(" :: pieces ++ [.text ")"]) = .opening :: spelled d pieces ++ [.closing] := by
  have begins : (Scan.of d "(").finish = [.opening] := by cases d <;> rfl
  have ends : (Scan.of d ")").finish = [.closing] := by cases d <;> rfl
  simp [begins, ends]

-- Beside AND a disjunction is in parentheses, beside OR a conjunction.
theorem ReadBack.besideAnd {e : Expr} (read : ReadBack d e) :
    Reading.OfConjunction (spelled d (grouped e.isOr (expr d e))) (e.reading d) := by
  cases weak : e.isOr with
  | false => exact read.2 weak
  | true =>
    rw [grouped, if_pos rfl, spelled_bracket]
    exact read.1.grouped.conjunction

theorem ReadBack.besideOr {e : Expr} (read : ReadBack d e) (group : Bool) :
    Reading.OfDisjunction (spelled d (grouped group (expr d e))) (e.reading d) := by
  cases group with
  | false => exact read.1
  | true =>
    rw [grouped, if_pos rfl, spelled_bracket]
    exact read.1.grouped.disjunction

theorem read_not {e : Expr} (read : ReadBack d e) : ReadBack d (.not e) := by
  have begins : (Scan.of d "NOT (").finish = [.word "NOT", .opening] := by cases d <;> rfl
  have ends : (Scan.of d ")").finish = [.closing] := by cases d <;> rfl
  refine .of_factor ?_
  simpa [expr, Expr.reading, begins, ends] using read.1.grouped.not

theorem read_notTrue {e : Expr} (read : ReadBack d e) : ReadBack d (.notTrue e) := by
  refine .of_factor ?_
  rw [expr, notTrue, Expr.reading]
  split
  · have begins : (Scan.of d "(").finish = [.opening] := by cases d <;> rfl
    have ends : (Scan.of d ") IS NOT TRUE").finish = .closing :: ["IS", "NOT", "TRUE"].map .word := by cases d <;> rfl
    simpa [begins, ends] using read.1.notTrue
  · have begins : (Scan.of d "CASE WHEN ").finish = ["CASE", "WHEN"].map .word := by cases d <;> rfl
    have ends : (Scan.of d " THEN 1 ELSE 0 END = 0").finish =
        ["THEN", "1", "ELSE", "0", "END", "=", "0"].map .word := by
      cases d <;> rfl
    simpa [begins, ends] using read.1.cased

mutual
theorem read_expr (e : Expr) (formula : e.Formula d) : ReadBack d e := by
  cases e with
  | and parts =>
    obtain ⟨ms, chain, same⟩ := read_conjuncts parts formula.1 formula.2
    have read : Reading.OfConjunction (spelled d (expr d (.and parts))) ((Expr.and parts).reading d) := by
      refine ⟨ms, chain, ?_⟩
      rw [same, Expr.reading, Reading.merged, Reading.asAnd_conjoined]
    exact ⟨read.disjunction, fun _ => read⟩
  | or parts =>
    obtain ⟨ms, chain, same⟩ := read_disjuncts parts formula.1 formula.2
    refine ⟨⟨ms, chain, ?_⟩, fun notOr => by cases notOr⟩
    rw [same, Expr.reading, Reading.merged, Reading.asOr_disjoined]
  | not e => exact read_not (read_expr e formula)
  | notTrue e => exact read_notTrue (read_expr e formula)
  | constant b => exact .of_factor (read_constant b)
  | binary left op right => exact .of_factor (read_binary formula)
  | inList e list negated => exact .of_factor (read_inList formula)
  | isNull e negated => exact .of_factor (read_isNull (e := e) formula)
  | existsIn query negated => exact .of_factor (read_existsIn formula)
  | _ => cases formula

theorem read_conjuncts (parts : List Expr) (nonempty : parts ≠ []) (formulas : Expr.AllFormulas d parts) :
    ∃ ms, Reading.Conjuncts (spelled d (members d " AND " Expr.isOr parts)) ms ∧
      Reading.andParts ms = Reading.andParts (Expr.readings d parts) := by
  match parts with
  | [] => exact absurd rfl nonempty
  | [e] =>
    obtain ⟨ms, chain, same⟩ := (read_expr e formulas.1).besideAnd
    exact ⟨ms, chain, by rw [same, Expr.readings, Expr.readings, Reading.andParts, Reading.andParts, List.append_nil]⟩
  | e :: next :: rest =>
    have word : (Scan.of d " AND ").finish = [.word "AND"] := by cases d <;> rfl
    obtain ⟨ms, chain, same⟩ := (read_expr e formulas.1).besideAnd
    obtain ⟨others, later, same'⟩ := read_conjuncts (next :: rest) (by simp) formulas.2
    rw [members_cons, spelled_append, spelled_text, word]
    refine ⟨ms ++ others, chain.append later, ?_⟩
    rw [Reading.andParts_append, same, same']
    rfl

theorem read_disjuncts (parts : List Expr) (nonempty : parts ≠ []) (formulas : Expr.AllFormulas d parts) :
    ∃ ms, Reading.Disjuncts (spelled d (members d " OR " Expr.isAnd parts)) ms ∧
      Reading.orParts ms = Reading.orParts (Expr.readings d parts) := by
  match parts with
  | [] => exact absurd rfl nonempty
  | [e] =>
    obtain ⟨ms, chain, same⟩ := (read_expr e formulas.1).besideOr e.isAnd
    exact ⟨ms, chain, by rw [same, Expr.readings, Expr.readings, Reading.orParts, Reading.orParts, List.append_nil]⟩
  | e :: next :: rest =>
    have word : (Scan.of d " OR ").finish = [.word "OR"] := by cases d <;> rfl
    obtain ⟨ms, chain, same⟩ := (read_expr e formulas.1).besideOr e.isAnd
    obtain ⟨others, later, same'⟩ := read_disjuncts (next :: rest) (by simp) formulas.2
    rw [members_cons, spelled_append, spelled_text, word]
    refine ⟨ms ++ others, chain.append later, ?_⟩
    rw [Reading.orParts_append, same, same']
    rfl
end

-- The conditions of a statement, which a lone disjunction is without parentheses.
def conditions (d : Dialect) (s : Select) : List Piece :=
  members d " AND " (fun e => 1 < s.conditions.length && e.isOr) s.conditions

theorem read_conditions {s : Select} (nonempty : s.conditions ≠ []) (formulas : Expr.AllFormulas d s.conditions) :
    Reading.OfDisjunction (spelled d (conditions d s)) (.and (Expr.readings d s.conditions)) := by
  unfold conditions
  match s.conditions, nonempty, formulas with
  | [e], _, formulas =>
    obtain ⟨ms, chain, same⟩ := (read_expr e formulas.1).1
    refine ⟨ms, chain, ?_⟩
    rw [same, Reading.merged, Expr.readings, Expr.readings, Reading.andParts, Reading.andParts, List.append_nil,
      Reading.conjoined_asAnd]
  | e :: next :: rest, _, formulas =>
    obtain ⟨ms, chain, same⟩ := read_conjuncts (e :: next :: rest) (by simp) formulas
    have several : decide (1 < (e :: next :: rest).length) = true := by simp
    have read : Reading.OfConjunction (spelled d (members d " AND " Expr.isOr (e :: next :: rest)))
        (.and (Expr.readings d (e :: next :: rest))) :=
      ⟨ms, chain, by rw [same, Reading.merged, Reading.asAnd_conjoined]⟩
    simpa only [several, Bool.true_and] using read.disjunction

end Render

-- The statement up to its conditions.
def Select.unfiltered (s : Select) : Select := { s with conditions := [], orders := [], limit := none, offset := none }

theorem Render.select_conditions (d : Dialect) {s : Select} (nonempty : s.conditions ≠ []) :
    ∃ back, select d s = select d s.unfiltered ++ (Piece.keyword "WHERE" ++ .space :: conditions d s) ++ back := by
  match s, nonempty with
  | ⟨table, binding, columns, joins, conditions, orders, limit, offset⟩, nonempty =>
    refine ⟨(if orders.isEmpty then [] else Piece.keyword "ORDER BY" ++ .space :: orderPieces d orders) ++
      d.pagination (!orders.isEmpty) limit offset, ?_⟩
    simp only [Select.unfiltered, select, Render.conditions, List.isEmpty_nil, if_true, Dialect.pagination_none, List.append_nil,
      List.isEmpty_eq_false_iff.mpr nonempty, Bool.false_eq_true, if_false, List.append_assoc]

theorem Writer.putAll_keyword (placeholder : Nat → String) (word : String) (rest : List Piece) (w : Writer) :
    w.putAll placeholder (Piece.keyword word ++ .space :: rest) = (w.keyword word).space.putAll placeholder rest :=
  rfl

theorem Render.read_written {d : Dialect} {pieces : List Piece} {t : Reading} (neat : Neat d true pieces)
    (read : Reading.OfDisjunction (Piece.spelled d pieces) t) (w : Writer) : ∃ text values,
      w.putAll d.placeholder pieces = ⟨w.sql ++ text, w.values ++ values⟩ ∧
        ∀ later, ∃ whole, d.read? w.values.length (w.values ++ values ++ later) text = some whole ∧
          whole.merged = t.merged := by
  obtain ⟨text, values, written, tokens⟩ := neat.legible.reads w
  obtain ⟨whole, found, same⟩ := read.ofTokens
  refine ⟨text, values, written, ?_⟩
  intro later
  exact ⟨whole, by rw [Dialect.read?, tokens, Option.bind_some, found], same⟩

-- By the precedence of SQL the text of an expression is read as the expression, and the conditions of a statement
-- as their conjunction, wherever in a statement the text is written.
theorem Render.text_read (d : Dialect) :
    (∀ e : Expr, e.Formula d → ∀ w : Writer, ∃ text values,
      w.putAll d.placeholder (expr d e) = ⟨w.sql ++ text, w.values ++ values⟩ ∧
        ∀ later, ∃ t, d.read? w.values.length (w.values ++ values ++ later) text = some t ∧
          t.merged = (e.reading d).merged) ∧
    ∀ s : Select, s.conditions ≠ [] → Expr.AllFormulas d s.conditions →
      let front := ((s.unfiltered.build d).keyword "WHERE").space
      ∃ text values back t,
        front.putAll d.placeholder (conditions d s) = ⟨front.sql ++ text, front.values ++ values⟩ ∧
        s.build d = Writer.putAll d.placeholder back ⟨front.sql ++ text, front.values ++ values⟩ ∧
        d.read? front.values.length (s.build d).values text = some t ∧
        t.merged = (Reading.and (Expr.readings d s.conditions)).merged := by
  refine ⟨?_, ?_⟩
  · intro e formula w
    exact read_written (neat_expr e formula.plain) (read_expr e formula).1 w
  · intro s nonempty formulas front
    have neat : Neat d true (conditions d s) :=
      neat_members " AND " _ (by cases d <;> rfl) s.conditions formulas.plain
    obtain ⟨text, values, written, read⟩ := read_written neat (read_conditions nonempty formulas) front
    obtain ⟨back, shape⟩ := select_conditions d nonempty
    have whole : s.build d = Writer.putAll d.placeholder back ⟨front.sql ++ text, front.values ++ values⟩ := by
      rw [← written, Select.build, shape, Writer.putAll_append, Writer.putAll_append, Writer.putAll_keyword]
      rfl
    obtain ⟨later, all⟩ := Writer.values_putAll d.placeholder back ⟨front.sql ++ text, front.values ++ values⟩
    obtain ⟨t, found, same⟩ := read later
    refine ⟨text, values, back, t, written, whole, ?_, same⟩
    rw [whole, ← all]
    exact found

-- The orders of this account that came late.
def placed : Select :=
  { Select.new "orders" with
    columns := [.template ⟨"1", []⟩ []]
    conditions := [
      .binary (.column (some "orders") "account_id") .eq (.column (some "accounts") "id"),
      MsSql.hasKey (.column (some "orders") "tags") "late"] }

def idleOrOverdrawn : Expr :=
  .or [
    .and [
      .binary (.column none "balance") .lt (.value (.int 0)),
      .or [
        .isNull (.column none "limit") false,
        .inList (.column none "kind") [.value (.string "a"), .value .null] true]],
    .notTrue (.or [.not (.binary (.column none "open") .eq (.value (.bool true))), .constant false]),
    .existsIn placed true]

def idleAccounts : Select := { Select.new "accounts" with conditions := [idleOrOverdrawn], limit := some 5 }

theorem idleOrOverdrawn_formula : idleOrOverdrawn.Formula .msSql := by
  have plain : placed.Plain .msSql := by
    simp [placed, MsSql.hasKey, Select.new, Select.Plain, Select.JoinsPlain, Select.OrdersPlain, Expr.AllPlain,
      Expr.Plain]
    decide
  simp [idleOrOverdrawn, Expr.Formula, Expr.AllFormulas, BinOp.Compares, Expr.isOperand, plain]

def idleReading : Reading :=
  .or [
    .and [
      .atom [.name "balance", .word "<", .value (.int 0)],
      .or [
        .atom [.name "limit", .word "IS", .word "NULL"],
        .atom [.name "kind", .word "NOT", .word "IN", .opening, .value (.string "a"), .comma, .word "NULL", .closing]]],
    .notTrue (.or [.not (.atom [.name "open", .word "=", .value (.bool true)]), .constant false]),
    .not (.atom ((Expr.existsIn placed false).atomTokens .msSql))]

-- On its own, and as the only condition of a statement.
theorem idleAccounts_read :
    idleOrOverdrawn.Formula .msSql ∧ idleAccounts.conditions ≠ [] ∧ Expr.AllFormulas .msSql idleAccounts.conditions ∧
    (∃ text values t,
      Writer.empty.putAll Dialect.msSql.placeholder (Render.expr .msSql idleOrOverdrawn) = ⟨text, values⟩ ∧
      Dialect.msSql.read? 0 values text = some t ∧ t.merged = idleReading) ∧
    ∃ front text t, front = ((idleAccounts.unfiltered.build .msSql).keyword "WHERE").space ∧
      (front.putAll Dialect.msSql.placeholder (Render.conditions .msSql idleAccounts)).sql = front.sql ++ text ∧
      Dialect.msSql.read? front.values.length (idleAccounts.build .msSql).values text = some t ∧
      t.merged = idleReading := by
  obtain ⟨expressions, statements⟩ := Render.text_read .msSql
  have nonempty : idleAccounts.conditions ≠ [] := by simp [idleAccounts]
  have formulas : Expr.AllFormulas .msSql idleAccounts.conditions := ⟨idleOrOverdrawn_formula, trivial⟩
  refine ⟨idleOrOverdrawn_formula, nonempty, formulas, ?_, ?_⟩
  · obtain ⟨text, values, written, read⟩ := expressions idleOrOverdrawn idleOrOverdrawn_formula Writer.empty
    obtain ⟨t, found, same⟩ := read []
    simp only [Writer.empty, String.empty_append, List.nil_append, List.append_nil] at written found
    exact ⟨text, values, t, written, found, same⟩
  · obtain ⟨text, values, back, t, written, _, found, same⟩ := statements idleAccounts nonempty formulas
    exact ⟨_, text, t, rfl, congrArg Writer.sql written, found, same⟩

end FilterQuery
