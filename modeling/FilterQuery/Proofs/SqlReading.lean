import FilterQuery.Proofs.SqlTokens

namespace FilterQuery

-- A predicate as it is read, down to the tokens of its comparisons and tests.
inductive Reading where
  | atom (tokens : List Token)
  | constant (value : Bool)
  | not (inner : Reading)
  | notTrue (inner : Reading)
  | and (members : List Reading)
  | or (members : List Reading)

namespace Reading

def asAnd : Reading → List Reading
  | and members => members
  | t => [t]

def asOr : Reading → List Reading
  | or members => members
  | t => [t]

def conjoined : List Reading → Reading
  | [t] => t
  | members => and members

def disjoined : List Reading → Reading
  | [t] => t
  | members => or members

mutual
-- AND in AND and OR in OR are one, and a connective of one member is the member.
def merged : Reading → Reading
  | atom tokens => atom tokens
  | constant b => constant b
  | not inner => not inner.merged
  | notTrue inner => notTrue inner.merged
  | and members => conjoined (andParts members)
  | or members => disjoined (orParts members)

def andParts : List Reading → List Reading
  | [] => []
  | t :: rest => t.merged.asAnd ++ andParts rest

def orParts : List Reading → List Reading
  | [] => []
  | t :: rest => t.merged.asOr ++ orParts rest
end

theorem andParts_append (left right : List Reading) : andParts (left ++ right) = andParts left ++ andParts right := by
  induction left with
  | nil => rfl
  | cons t rest ih => rw [List.cons_append, andParts, andParts, ih, List.append_assoc]

theorem orParts_append (left right : List Reading) : orParts (left ++ right) = orParts left ++ orParts right := by
  induction left with
  | nil => rfl
  | cons t rest ih => rw [List.cons_append, orParts, orParts, ih, List.append_assoc]

-- No connective has one of its own kind below it, or one member alone.
inductive Tidy : Reading → Prop
  | atom : Tidy (.atom tokens)
  | constant : Tidy (.constant b)
  | not : Tidy (.not t)
  | notTrue : Tidy (.notTrue t)
  | and (inner : ∀ t ∈ members, t.Tidy) (apart : ∀ t ∈ members, t.asAnd = [t]) (several : members.length ≠ 1) :
      Tidy (.and members)
  | or (inner : ∀ t ∈ members, t.Tidy) (apart : ∀ t ∈ members, t.asOr = [t]) (several : members.length ≠ 1) :
      Tidy (.or members)

theorem Tidy.asAnd_parts {t : Reading} (tidy : t.Tidy) : ∀ part ∈ t.asAnd, part.Tidy ∧ part.asAnd = [part] := by
  cases tidy with
  | and inner apart _ => exact fun part member => ⟨inner part member, apart part member⟩
  | atom => simp [asAnd, Tidy.atom]
  | constant => simp [asAnd, Tidy.constant]
  | not => simp [asAnd, Tidy.not]
  | notTrue => simp [asAnd, Tidy.notTrue]
  | or inner apart several => simp [asAnd, Tidy.or inner apart several]

theorem Tidy.asOr_parts {t : Reading} (tidy : t.Tidy) : ∀ part ∈ t.asOr, part.Tidy ∧ part.asOr = [part] := by
  cases tidy with
  | or inner apart _ => exact fun part member => ⟨inner part member, apart part member⟩
  | atom => simp [asOr, Tidy.atom]
  | constant => simp [asOr, Tidy.constant]
  | not => simp [asOr, Tidy.not]
  | notTrue => simp [asOr, Tidy.notTrue]
  | and inner apart several => simp [asOr, Tidy.and inner apart several]

theorem conjoined_tidy {parts : List Reading} (each : ∀ part ∈ parts, part.Tidy ∧ part.asAnd = [part]) :
    (conjoined parts).Tidy := by
  unfold conjoined
  split
  · exact (each _ (List.mem_singleton.mpr rfl)).1
  · rename_i several
    refine .and (fun t member => (each t member).1) (fun t member => (each t member).2) ?_
    intro one
    obtain ⟨t, rfl⟩ := List.length_eq_one_iff.mp one
    exact several t rfl

theorem disjoined_tidy {parts : List Reading} (each : ∀ part ∈ parts, part.Tidy ∧ part.asOr = [part]) :
    (disjoined parts).Tidy := by
  unfold disjoined
  split
  · exact (each _ (List.mem_singleton.mpr rfl)).1
  · rename_i several
    refine .or (fun t member => (each t member).1) (fun t member => (each t member).2) ?_
    intro one
    obtain ⟨t, rfl⟩ := List.length_eq_one_iff.mp one
    exact several t rfl

mutual
theorem merged_tidy (t : Reading) : t.merged.Tidy := by
  cases t with
  | atom tokens => exact .atom
  | constant b => exact .constant
  | not inner => exact .not
  | notTrue inner => exact .notTrue
  | and members => exact conjoined_tidy (andParts_tidy members)
  | or members => exact disjoined_tidy (orParts_tidy members)

theorem andParts_tidy (members : List Reading) : ∀ part ∈ andParts members, part.Tidy ∧ part.asAnd = [part] := by
  cases members with
  | nil => simp [andParts]
  | cons t rest =>
    rw [andParts, List.forall_mem_append]
    exact ⟨(merged_tidy t).asAnd_parts, andParts_tidy rest⟩

theorem orParts_tidy (members : List Reading) : ∀ part ∈ orParts members, part.Tidy ∧ part.asOr = [part] := by
  cases members with
  | nil => simp [orParts]
  | cons t rest =>
    rw [orParts, List.forall_mem_append]
    exact ⟨(merged_tidy t).asOr_parts, orParts_tidy rest⟩
end

theorem asAnd_conjoined (members : List Reading) : (conjoined (andParts members)).asAnd = andParts members := by
  have each := andParts_tidy members
  generalize andParts members = parts at each
  unfold conjoined
  split
  · exact (each _ (List.mem_singleton.mpr rfl)).2
  · rfl

theorem asOr_disjoined (members : List Reading) : (disjoined (orParts members)).asOr = orParts members := by
  have each := orParts_tidy members
  generalize orParts members = parts at each
  unfold disjoined
  split
  · exact (each _ (List.mem_singleton.mpr rfl)).2
  · rfl

theorem conjoined_asAnd (t : Reading) : conjoined t.merged.asAnd = t.merged := by
  have tidy := t.merged_tidy
  generalize t.merged = u at tidy
  cases tidy with
  | @and members _ _ several =>
    match members with
    | [] => rfl
    | [t] => exact absurd rfl several
    | _ :: _ :: _ => rfl
  | _ => rfl

theorem disjoined_asOr (t : Reading) : disjoined t.merged.asOr = t.merged := by
  have tidy := t.merged_tidy
  generalize t.merged = u at tidy
  cases tidy with
  | @or members _ _ several =>
    match members with
    | [] => rfl
    | [t] => exact absurd rfl several
    | _ :: _ :: _ => rfl
  | _ => rfl

end Reading

-- What follows the words, if they stand first.
def after? : List String → List Token → Option (List Token)
  | [], ts => some ts
  | w :: words, .word text :: rest => if text = w then after? words rest else none
  | _ :: _, _ => none

def afterOpening? : List Token → Option (List Token)
  | .opening :: rest => some rest
  | _ => none

def afterClosing? : List Token → Option (List Token)
  | .closing :: rest => some rest
  | _ => none

def Token.endsAtom : Token → Bool
  | .closing => true
  | .word text => text = "AND" || text = "OR" || text = "THEN"
  | _ => false

def depthAfter (depth : Nat) : Token → Nat
  | .opening => depth + 1
  | .closing => depth - 1
  | _ => depth

-- The tokens of an atom and those after it. Whatever stands in parentheses belongs to it.
def spanAtom : Nat → List Token → List Token × List Token
  | _, [] => ([], [])
  | depth, t :: rest =>
    if depth = 0 ∧ t.endsAtom then ([], t :: rest)
    else (t :: (spanAtom (depthAfter depth t) rest).1, (spanAtom (depthAfter depth t) rest).2)

def Reading.ofAtom : List Token → Reading
  | [.word "1", .word "=", .word "1"] => .constant true
  | [.word "1", .word "=", .word "0"] => .constant false
  | tokens => .atom tokens

namespace Reading

mutual
-- The first argument bounds the nesting; so many levels as four for each token are enough.
def disjuncts? : Nat → List Token → Option (List Reading × List Token)
  | 0, _ => none
  | fuel + 1, ts => do
    let (members, rest) ← conjuncts? fuel ts
    match after? ["OR"] rest with
    | none => pure ([and members], rest)
    | some later => do
      let (others, rest) ← disjuncts? fuel later
      pure (and members :: others, rest)

def conjuncts? : Nat → List Token → Option (List Reading × List Token)
  | 0, _ => none
  | fuel + 1, ts => do
    let (first, rest) ← factor? fuel ts
    match after? ["AND"] rest with
    | none => pure ([first], rest)
    | some later => do
      let (others, rest) ← conjuncts? fuel later
      pure (first :: others, rest)

def factor? : Nat → List Token → Option (Reading × List Token)
  | 0, _ => none
  | fuel + 1, ts =>
    match after? ["NOT"] ts with
    | some later => do
      let (inner, rest) ← factor? fuel later
      pure (not inner, rest)
    | none =>
    match after? ["CASE", "WHEN"] ts with
    | some later => do
      let (inner, rest) ← disjuncts? fuel later
      let rest ← after? ["THEN", "1", "ELSE", "0", "END", "=", "0"] rest
      pure (notTrue (or inner), rest)
    | none =>
    match afterOpening? ts with
    | some later => do
      let (inner, rest) ← disjuncts? fuel later
      let rest ← afterClosing? rest
      match after? ["IS", "NOT", "TRUE"] rest with
      | some rest => pure (notTrue (or inner), rest)
      | none => pure (or inner, rest)
    | none =>
      let (own, rest) := spanAtom 0 ts
      if own.isEmpty then none else pure (ofAtom own, rest)
end

-- All tokens as one predicate.
def ofTokens? (ts : List Token) : Option Reading := do
  let (members, rest) ← disjuncts? (4 * ts.length + 3) ts
  if rest.isEmpty then pure (or members) else none

end Reading

-- The text of a predicate, with so many marks before it in the statement.
def Dialect.read? (d : Dialect) (taken : Nat) (params : List Value) (text : String) : Option Reading :=
  (d.tokens? taken params text).bind Reading.ofTokens?

-- The second mark stands for the second parameter, and the name of the last column has a quote in it.
example : Dialect.mySql.read? 0 [.null, .bool true]
      "NOT \x60a\x60 = ? AND (\x60b\x60 = ?) IS NOT TRUE OR \x60c\x60\x60d\x60 IS NULL" =
    some (.or [
      .and [
        .not (.atom [.name "a", .word "=", .value .null]),
        .notTrue (.or [.and [.atom [.name "b", .word "=", .value (.bool true)]]])],
      .and [.atom [.name "c\x60d", .word "IS", .word "NULL"]]]) :=
  rfl

-- Nothing of an atom stands first.
def Ends : List Token → Prop
  | [] => True
  | t :: _ => t.endsAtom = true

theorem after_of_ends {w : String} {words : List String} {rest : List Token} (ends : Ends rest)
    (other : w ≠ "AND" ∧ w ≠ "OR" ∧ w ≠ "THEN") : after? (w :: words) rest = none := by
  cases rest with
  | nil => rfl
  | cons t rest =>
    cases t with
    | word text =>
      rw [after?, if_neg]
      rintro rfl
      simp [Ends, Token.endsAtom, other] at ends
    | _ => rfl

namespace Reading

-- Read as one factor, whatever comes after it.
def Factor (ts : List Token) (t : Reading) : Prop :=
  ∀ rest fuel, Ends rest → 4 * (ts ++ rest).length + 1 ≤ fuel → factor? fuel (ts ++ rest) = some (t, rest)

-- Factors with AND between them.
inductive Conjuncts : List Token → List Reading → Prop
  | one (factor : Factor ts t) : Conjuncts ts [t]
  | more (factor : Factor ts t) (later : Conjuncts us others) : Conjuncts (ts ++ .word "AND" :: us) (t :: others)

-- Conjunctions with OR between them.
inductive Disjuncts : List Token → List Reading → Prop
  | one (first : Conjuncts ts members) : Disjuncts ts [and members]
  | more (first : Conjuncts ts members) (later : Disjuncts us others) :
      Disjuncts (ts ++ .word "OR" :: us) (and members :: others)

variable {ts us rest : List Token} {t : Reading} {members others : List Reading}

theorem Conjuncts.append (first : Conjuncts ts members) (later : Conjuncts us others) :
    Conjuncts (ts ++ .word "AND" :: us) (members ++ others) := by
  induction first with
  | one factor => exact .more factor later
  | more factor _ ih =>
    rw [List.append_assoc]
    exact .more factor ih

theorem Disjuncts.append (first : Disjuncts ts members) (later : Disjuncts us others) :
    Disjuncts (ts ++ .word "OR" :: us) (members ++ others) := by
  induction first with
  | one conjuncts => exact .more conjuncts later
  | more conjuncts _ ih =>
    rw [List.append_assoc]
    exact .more conjuncts ih

theorem Conjuncts.read (chain : Conjuncts ts members) (rest : List Token) (fuel : Nat) (ends : Ends rest)
    (last : after? ["AND"] rest = none) (enough : 4 * (ts ++ rest).length + 2 ≤ fuel) :
    conjuncts? fuel (ts ++ rest) = some (members, rest) := by
  induction chain generalizing fuel with
  | one factor =>
    obtain ⟨fuel, rfl⟩ := Nat.exists_eq_add_of_lt (Nat.lt_of_lt_of_le (Nat.succ_pos _) enough)
    simp only [Nat.zero_add] at enough ⊢
    rw [conjuncts?, factor rest fuel ends (by omega)]
    simp [last]
  | @more ts t us others factor later ih =>
    obtain ⟨fuel, rfl⟩ := Nat.exists_eq_add_of_lt (Nat.lt_of_lt_of_le (Nat.succ_pos _) enough)
    simp only [Nat.zero_add, List.append_assoc, List.cons_append, List.length_append, List.length_cons] at enough ⊢
    have read := factor (.word "AND" :: (us ++ rest)) fuel rfl (by simp; omega)
    have further := ih fuel (by simp; omega)
    rw [conjuncts?, read]
    simp [after?, further]

theorem Disjuncts.read (chain : Disjuncts ts members) (rest : List Token) (fuel : Nat) (ends : Ends rest)
    (last : after? ["AND"] rest = none) (last' : after? ["OR"] rest = none)
    (enough : 4 * (ts ++ rest).length + 3 ≤ fuel) :
    disjuncts? fuel (ts ++ rest) = some (members, rest) := by
  induction chain generalizing fuel with
  | one conjuncts =>
    obtain ⟨fuel, rfl⟩ := Nat.exists_eq_add_of_lt (Nat.lt_of_lt_of_le (Nat.succ_pos _) enough)
    simp only [Nat.zero_add] at enough ⊢
    rw [disjuncts?, conjuncts.read rest fuel ends last (by omega)]
    simp [last']
  | @more ts members us others conjuncts later ih =>
    obtain ⟨fuel, rfl⟩ := Nat.exists_eq_add_of_lt (Nat.lt_of_lt_of_le (Nat.succ_pos _) enough)
    simp only [Nat.zero_add, List.append_assoc, List.cons_append, List.length_append, List.length_cons] at enough ⊢
    have read := conjuncts.read (.word "OR" :: (us ++ rest)) fuel rfl rfl (by simp; omega)
    have further := ih fuel (by simp; omega)
    rw [disjuncts?, read]
    simp [after?, further]

theorem Disjuncts.ofTokens (chain : Disjuncts ts members) : ofTokens? ts = some (or members) := by
  have read := chain.read [] (4 * ts.length + 3) trivial rfl rfl (by simp)
  rw [List.append_nil] at read
  simp [ofTokens?, read]

theorem Factor.not (inner : Factor ts t) : Factor (.word "NOT" :: ts) (.not t) := by
  intro rest fuel ends enough
  obtain ⟨fuel, rfl⟩ := Nat.exists_eq_add_of_lt (Nat.lt_of_lt_of_le (Nat.succ_pos _) enough)
  simp only [Nat.zero_add, List.cons_append, List.length_cons] at enough ⊢
  have read := inner rest fuel ends (by omega)
  rw [factor?]
  simp [after?, read]

-- In parentheses a whole predicate is a factor.
theorem Disjuncts.grouped (inner : Disjuncts ts members) : Factor (.opening :: ts ++ [.closing]) (.or members) := by
  intro rest fuel ends enough
  obtain ⟨fuel, rfl⟩ := Nat.exists_eq_add_of_lt (Nat.lt_of_lt_of_le (Nat.succ_pos _) enough)
  simp only [Nat.zero_add, List.cons_append, List.length_cons, List.append_assoc, List.nil_append] at enough ⊢
  have read := inner.read (.closing :: rest) fuel rfl rfl rfl (by omega)
  have plain : after? ["IS", "NOT", "TRUE"] rest = none := after_of_ends ends (by decide)
  rw [factor?]
  simp [after?, afterOpening?, afterClosing?, read, plain]

theorem Disjuncts.notTrue (inner : Disjuncts ts members) :
    Factor (.opening :: ts ++ .closing :: ["IS", "NOT", "TRUE"].map .word) (.notTrue (.or members)) := by
  intro rest fuel ends enough
  obtain ⟨fuel, rfl⟩ := Nat.exists_eq_add_of_lt (Nat.lt_of_lt_of_le (Nat.succ_pos _) enough)
  simp only [Nat.zero_add, List.cons_append, List.length_cons, List.append_assoc] at enough ⊢
  have read := inner.read (.closing :: (["IS", "NOT", "TRUE"].map .word ++ rest)) fuel rfl rfl rfl
    (by omega)
  rw [factor?]
  simp at read
  simp [after?, afterOpening?, afterClosing?, read]

theorem Disjuncts.cased (inner : Disjuncts ts members) :
    Factor (["CASE", "WHEN"].map .word ++ ts ++ ["THEN", "1", "ELSE", "0", "END", "=", "0"].map .word)
      (.notTrue (.or members)) := by
  intro rest fuel ends enough
  obtain ⟨fuel, rfl⟩ := Nat.exists_eq_add_of_lt (Nat.lt_of_lt_of_le (Nat.succ_pos _) enough)
  have read := inner.read (["THEN", "1", "ELSE", "0", "END", "=", "0"].map Token.word ++ rest) fuel
    rfl rfl rfl (by simp at enough ⊢; omega)
  rw [Nat.zero_add, factor?]
  simp at read
  simp [after?, read]

end Reading

-- These tokens belong to the atom, and lead from one depth of parentheses to another.
def Spans (depth later : Nat) (ts : List Token) : Prop :=
  ∀ rest, spanAtom depth (ts ++ rest) = (ts ++ (spanAtom later rest).1, (spanAtom later rest).2)

abbrev Within (depth : Nat) (ts : List Token) : Prop := Spans depth depth ts

namespace Spans

variable {ts us : List Token} {depth mid later : Nat}

theorem nil (depth : Nat) : Within depth [] := fun _ => rfl

theorem append (first : Spans depth mid ts) (second : Spans mid later us) : Spans depth later (ts ++ us) := by
  intro rest
  rw [List.append_assoc, first, second]
  simp

theorem token (t : Token) (inner : depth = 0 → t.endsAtom = false) : Spans depth (depthAfter depth t) [t] := by
  intro rest
  have stays : ¬(depth = 0 ∧ t.endsAtom = true) := by
    rintro ⟨outer, ends⟩
    rw [inner outer] at ends
    cases ends
  simp [spanAtom, stays]

theorem tokens (level : ∀ t ∈ ts, depthAfter depth t = depth ∧ (depth = 0 → t.endsAtom = false)) : Within depth ts := by
  induction ts with
  | nil => exact nil depth
  | cons t rest ih =>
    rw [List.forall_mem_cons] at level
    have first := token t level.1.2
    rw [level.1.1] at first
    exact append first (ih level.2)

theorem opening (depth : Nat) : Spans depth (depth + 1) [.opening] := token .opening fun _ => rfl

theorem closing (depth : Nat) : Spans (depth + 1) depth [.closing] := token .closing (by simp)

theorem group (inner : Within (depth + 1) ts) : Within depth (.opening :: ts ++ [.closing]) :=
  ((opening depth).append inner).append (closing depth)

end Spans

-- What an atom starts with: an operand or a word of its own.
def Token.startsAtom : Token → Bool
  | .word text => text ≠ "NOT" && text ≠ "CASE"
  | .name _ | .value _ => true
  | _ => false

theorem Reading.factor_atom {t : Token} {ts : List Token} (starts : t.startsAtom = true) (within : Within 0 (t :: ts)) :
    Factor (t :: ts) (ofAtom (t :: ts)) := by
  intro rest fuel ends enough
  obtain ⟨fuel, rfl⟩ := Nat.exists_eq_add_of_lt (Nat.lt_of_lt_of_le (Nat.succ_pos _) enough)
  have stops : spanAtom 0 rest = ([], rest) := by
    cases rest with
    | nil => rfl
    | cons next rest => rw [spanAtom, if_pos ⟨rfl, ends⟩]
  have span := within rest
  rw [stops, List.append_nil] at span
  have others : after? ["NOT"] (t :: ts ++ rest) = none ∧ after? ["CASE", "WHEN"] (t :: ts ++ rest) = none ∧
      afterOpening? (t :: ts ++ rest) = none := by
    cases t with
    | word text =>
      simp only [Token.startsAtom, Bool.and_eq_true, decide_eq_true_eq] at starts
      simp [after?, afterOpening?, starts]
    | name ident => exact ⟨rfl, rfl, rfl⟩
    | value v => exact ⟨rfl, rfl, rfl⟩
    | _ => cases starts
  rw [Nat.zero_add, factor?, others.1, others.2.1, others.2.2]
  simp only [span]
  rfl

namespace Reading

variable {ts us : List Token} {t u : Reading}

-- Tokens of a predicate where NOT, AND or OR may stand beside it, by what they may be read as.
def OfFactor (ts : List Token) (t : Reading) : Prop := ∃ own, Factor ts own ∧ own.merged = t.merged

def OfConjunction (ts : List Token) (t : Reading) : Prop :=
  ∃ members, Conjuncts ts members ∧ andParts members = t.merged.asAnd

def OfDisjunction (ts : List Token) (t : Reading) : Prop :=
  ∃ members, Disjuncts ts members ∧ orParts members = t.merged.asOr

theorem merged_and_of_parts {members : List Reading} (parts : andParts members = t.merged.asAnd) :
    (and members).merged = t.merged := by
  rw [merged, parts, conjoined_asAnd]

theorem merged_or_of_parts {members : List Reading} (parts : orParts members = t.merged.asOr) :
    (or members).merged = t.merged := by
  rw [merged, parts, disjoined_asOr]

theorem OfFactor.conjunction (read : OfFactor ts t) : OfConjunction ts t := by
  obtain ⟨own, factor, same⟩ := read
  exact ⟨[own], .one factor, by rw [andParts, andParts, List.append_nil, same]⟩

theorem OfConjunction.disjunction (read : OfConjunction ts t) : OfDisjunction ts t := by
  obtain ⟨members, chain, parts⟩ := read
  exact ⟨[and members], .one chain, by rw [orParts, orParts, List.append_nil, merged_and_of_parts parts]⟩

theorem OfFactor.disjunction (read : OfFactor ts t) : OfDisjunction ts t := read.conjunction.disjunction

theorem OfDisjunction.grouped (read : OfDisjunction ts t) : OfFactor (.opening :: ts ++ [.closing]) t := by
  obtain ⟨members, chain, parts⟩ := read
  exact ⟨or members, chain.grouped, merged_or_of_parts parts⟩

theorem OfDisjunction.notTrue (read : OfDisjunction ts t) :
    OfFactor (.opening :: ts ++ .closing :: ["IS", "NOT", "TRUE"].map .word) (.notTrue t) := by
  obtain ⟨members, chain, parts⟩ := read
  exact ⟨_, chain.notTrue, congrArg Reading.notTrue (merged_or_of_parts parts)⟩

theorem OfDisjunction.cased (read : OfDisjunction ts t) :
    OfFactor (["CASE", "WHEN"].map .word ++ ts ++ ["THEN", "1", "ELSE", "0", "END", "=", "0"].map .word) (.notTrue t) := by
  obtain ⟨members, chain, parts⟩ := read
  exact ⟨_, chain.cased, congrArg Reading.notTrue (merged_or_of_parts parts)⟩

theorem OfFactor.not (read : OfFactor ts t) : OfFactor (.word "NOT" :: ts) (.not t) := by
  obtain ⟨own, factor, same⟩ := read
  exact ⟨_, factor.not, congrArg Reading.not same⟩

theorem OfDisjunction.ofTokens (read : OfDisjunction ts t) :
    ∃ whole, ofTokens? ts = some whole ∧ whole.merged = t.merged := by
  obtain ⟨members, chain, parts⟩ := read
  exact ⟨or members, chain.ofTokens, merged_or_of_parts parts⟩

end Reading
end FilterQuery
