import FilterQuery.Proofs.OperandGrammar

namespace FilterQuery.Grammar

variable {g : Grammar} {ts later rest : List Token} {joint : Joint} {least most after : Nat}

-- Nothing that follows binds so tight.
def Stops (g : Grammar) (least : Nat) (rest : List Token) : Prop :=
  ∀ joint later, g.joint? rest = some (joint, later) → joint.rank g < least

-- What follows is of no atom, and binds no tighter.
structure Follows (g : Grammar) (after : Nat) (rest : List Token) : Prop where
  apart : ∀ t ∈ rest.head?, g.ends t = true
  stops : g.Stops (after + 1) rest

theorem Stops.mono (stops : g.Stops least rest) (le : least ≤ most) : g.Stops most rest :=
  fun joint later found => Nat.lt_of_lt_of_le (stops joint later found) le

theorem Follows.nil (g : Grammar) (after : Nat) : g.Follows after [] := ⟨nofun, nofun⟩

theorem Stops.closing (g : Grammar) (least : Nat) (rest : List Token) : g.Stops least (.closing :: rest) := by
  intro joint later found
  cases found

theorem Follows.closing (g : Grammar) (after : Nat) (rest : List Token) : g.Follows after (.closing :: rest) := by
  refine ⟨?_, .closing g _ rest⟩
  intro t same
  cases same
  rfl

theorem Follows.words (g : Grammar) (after : Nat) (rest : List Token) : g.Follows after (.word "THEN" :: rest) := by
  refine ⟨fun t same => by cases same; rfl, ?_⟩
  intro joint later found
  rw [joint_fixed (operator_connective (by decide) (by decide) rest)] at found
  cases found

theorem joint_front (admits : g.Admits joint later) : ∃ t more, joint.tokens = t :: more ∧ g.ends t = true := by
  cases joint with
  | between joint =>
    cases joint with
    | compare words =>
      obtain ⟨w, more, rfl, ends⟩ := knows_words admits.1
      exact ⟨_, _, rfl, ends⟩
    | _ => exact ⟨_, _, rfl, rfl⟩
  | behind test =>
    cases test with
    | null negated | nothing negated => cases negated <;> exact ⟨_, _, rfl, rfl⟩
    | untrue => exact ⟨_, _, rfl, rfl⟩
  | among negated => cases negated <;> exact ⟨_, _, rfl, rfl⟩

theorem Follows.of_joint (admits : g.Admits joint later) (loose : joint.rank g ≤ after) :
    g.Follows after (joint.tokens ++ later) := by
  constructor
  · obtain ⟨t, more, shape, ends⟩ := joint_front admits
    rw [shape]
    intro t' same
    cases same
    exact ends
  · intro joint' later' found
    rw [joint_tokens admits] at found
    cases found
    exact Nat.lt_succ_of_le loose

theorem more_stops (stops : g.Stops least rest) (fuel : Nat) (t : Phrase) :
    g.more? (fuel + 1) least t rest = some (t, rest) := by
  rw [more?]
  split
  · rfl
  · rename_i joint later found
    exact if_pos (stops joint later found)

theorem isAtom_iff : g.isAtom ts = true ↔
    ∃ own, outer? 0 ts = some own ∧ own ≠ [] ∧ (∀ t ∈ own, g.ends t = false) ∧ isGroup ts own = false := by
  unfold isAtom
  split
  · rename_i own walk
    simp [walk, and_assoc]
  · rename_i walk
    simp [walk]

theorem isAtom_flat (nonempty : ts ≠ []) (flat : outer? 0 ts = some ts) (free : ∀ t ∈ ts, g.ends t = false)
    (other : isGroup ts ts = false) : g.isAtom ts = true :=
  isAtom_iff.mpr ⟨ts, flat, nonempty, free, other⟩

theorem ends_constant {w : String} (constant : w ∈ constantWords) : g.ends (.word w) = false := by
  have other : ∀ w ∈ constantWords, connectives.contains w = false := by decide
  rw [ends, g.unsymbolic (List.mem_append_right _ constant), Bool.or_false]
  exact other w constant

theorem isAtom_constant {w : String} (constant : w ∈ constantWords) : g.isAtom [.word w] = true :=
  isAtom_flat (by simp) rfl (List.forall_mem_singleton.mpr (ends_constant constant)) rfl

theorem splitOuter_rest (apart : ∀ t ∈ rest.head?, g.ends t = true) :
    ∃ parts, splitOuter g.ends 0 rest = [] :: parts := by
  cases rest with
  | nil => exact ⟨[], rfl⟩
  | cons t rest => exact ⟨_, if_pos ⟨rfl, apart t rfl⟩⟩

theorem span_outer {own : List Token} (walk : outer? 0 ts = some own) (free : ∀ t ∈ own, g.ends t = false)
    (apart : ∀ t ∈ rest.head?, g.ends t = true) : (splitOuter g.ends 0 (ts ++ rest)).headD [] = ts := by
  obtain ⟨parts, shape⟩ := splitOuter_rest apart
  rw [splitOuter_through walk free, shape]
  simp [putBefore]

-- What a condition begins with.
def starts (g : Grammar) : Token → Bool
  | .closing | .comma => false
  | .word text => !g.isSymbol text && text ≠ "SELECT"
  | _ => true

theorem starts_of_ends {t : Token} (free : g.ends t = false) : g.starts t = true := by
  cases t with
  | closing | comma => cases free
  | word text =>
    simp only [ends, Bool.or_eq_false_iff, List.contains_eq_mem, decide_eq_false_iff_not] at free
    have other : text ≠ "SELECT" := by
      intro same
      exact free.1 (same ▸ by decide)
    simp [starts, free.2, other]
  | _ => rfl

theorem unsymbolic_of_starts {t : Token} (starts : g.starts t = true) (rest : List Token) :
    g.Unsymbolic (t :: rest) := by
  cases t with
  | word text =>
    simp only [Grammar.starts, Bool.and_eq_true, Bool.not_eq_true'] at starts
    rw [Unsymbolic, symbolRun, if_neg (by simp [starts.1])]
  | _ => rfl

theorem correct_starts {t : Phrase} (correct : t.Correct g least after) :
    ∃ first more, t.tokens = first :: more ∧ g.starts first = true := by
  induction t generalizing least after with
  | atom ts =>
    obtain ⟨own, walk, nonempty, free, -⟩ := isAtom_iff.mp correct
    cases ts with
    | nil =>
      cases walk
      exact absurd rfl nonempty
    | cons t rest =>
      obtain ⟨-, inner, -, rfl⟩ := outer_cons walk
      exact ⟨t, rest, rfl, starts_of_ends (free t (List.mem_cons_self ..))⟩
  | group inner => exact ⟨_, _, rfl, rfl⟩
  | not inner => exact ⟨_, _, rfl, by simp [Grammar.starts, g.unsymbolic (w := "NOT") (by decide)]⟩
  | flag test => exact ⟨_, _, rfl, by simp [Grammar.starts, g.unsymbolic (w := "CASE") (by decide)]⟩
  | between left joint right ih =>
    obtain ⟨first, more, shape, starts⟩ := ih correct.2.2.2.1
    exact ⟨first, more ++ joint.tokens ++ right.tokens, by simp [Phrase.tokens, shape], starts⟩
  | behind subject test ih =>
    obtain ⟨first, more, shape, starts⟩ := ih correct.2
    exact ⟨first, more ++ test.tokens, by simp [Phrase.tokens, shape], starts⟩
  | among subject negated items ih =>
    obtain ⟨first, more, shape, starts⟩ := ih correct.2.1
    rw [Phrase.tokens, shape]
    exact ⟨first, _, rfl, starts⟩

theorem depthAfter_add {t : Token} {depth : Nat} (opened : t = .closing → 0 < depth) (around : Nat) :
    depthAfter (depth + around) t = depthAfter depth t + around := by
  cases t with
  | opening => exact Nat.add_right_comm depth around 1
  | closing => exact Nat.sub_add_comm (opened rfl)
  | _ => rfl

-- Tokens whose brackets match may stand inside others.
theorem outer_inside {depth : Nat} {own : List Token} (walk : outer? depth ts = some own) (around : Nat)
    (rest : List Token) : outer? (depth + (around + 1)) (ts ++ rest) = outer? (around + 1) rest := by
  induction ts generalizing depth own with
  | nil =>
    cases depth with
    | zero => rw [Nat.zero_add, List.nil_append]
    | succ depth => cases walk
  | cons t later ih =>
    have enter : outer? (depth + (around + 1)) (t :: later ++ rest) =
        outer? (depthAfter (depth + (around + 1)) t) (later ++ rest) := rfl
    rw [enter]
    cases depth with
    | zero =>
      obtain ⟨other, inner, within, -⟩ := outer_cons walk
      rw [depthAfter_add fun same => absurd same other]
      exact ih within
    | succ depth =>
      rw [depthAfter_add fun _ => Nat.succ_pos depth]
      exact ih walk

-- Whoever counts the open brackets comes out where one who passes over them does.
theorem outer_of_openAfter {opened left : Nat} (walk : openAfter opened ts = some left) (around : Nat)
    (rest : List Token) :
    outer? (opened + (around + 1)) (ts ++ rest) = outer? (left + (around + 1)) rest := by
  fun_induction openAfter opened ts with
  | case1 opened =>
    cases walk
    rfl
  | case2 opened later ih =>
    rw [← ih walk, Nat.add_right_comm opened 1]
    rfl
  | case3 later => cases walk
  | case4 opened later ih =>
    rw [← ih walk, Nat.add_right_comm opened 1]
    rfl
  | case5 opened t later notOpening notClosing notClosing' ih =>
    rw [← ih walk]
    cases t with
    | opening => exact absurd rfl notOpening
    | closing =>
      cases opened with
      | zero => exact absurd rfl (notClosing rfl)
      | succ opened => exact absurd rfl (notClosing' opened rfl)
    | _ => rfl

-- Inside of a bracket they are passed over.
def Closed (ts : List Token) : Prop := ∀ around rest, outer? (around + 1) (ts ++ rest) = outer? (around + 1) rest

namespace Closed

variable {us : List Token}

theorem of_outer {own : List Token} (walk : outer? 0 ts = some own) : Closed ts := by
  intro around rest
  have inside := outer_inside walk around rest
  rwa [Nat.zero_add] at inside

theorem append (first : Closed ts) (second : Closed us) : Closed (ts ++ us) := by
  intro around rest
  rw [List.append_assoc, first, second]

theorem words (words : List String) : Closed (words.map .word) := of_outer (outer_words words)

theorem bracket (inner : Closed ts) : Closed (.opening :: ts ++ [.closing]) := by
  intro around rest
  rw [List.append_assoc]
  exact inner (around + 1) (.closing :: rest)

theorem outer_bracket (inner : Closed ts) : outer? 0 (.opening :: ts ++ [.closing]) = some [.opening] := by
  have matched := inner 0 [.closing]
  exact congrArg (Option.map (Token.opening :: ·)) matched

end Closed

theorem isAtom_select (closed : Closed (.word "SELECT" :: ts)) :
    g.isAtom (.opening :: (.word "SELECT" :: ts) ++ [.closing]) = true :=
  isAtom_iff.mpr ⟨[.opening], closed.outer_bracket, by simp, by simp [ends], by simp [isGroup, after?]⟩

theorem isAtom_exists (closed : Closed ts) : g.isAtom (.word "EXISTS" :: (.opening :: ts ++ [.closing])) = true := by
  have walk : outer? 0 (.word "EXISTS" :: (.opening :: ts ++ [.closing])) = some [.word "EXISTS", .opening] := by
    rw [outer_of_ne (by simp)]
    exact congrArg (Option.map (Token.word "EXISTS" :: ·)) closed.outer_bracket
  have word : g.ends (.word "EXISTS") = false := ends_constant (by decide)
  refine isAtom_iff.mpr ⟨_, walk, by simp, ?_, rfl⟩
  exact List.forall_mem_cons.mpr ⟨word, List.forall_mem_singleton.mpr rfl⟩

theorem correct_closed {t : Phrase} (correct : t.Correct g least after) : Closed t.tokens := by
  induction t generalizing least after with
  | atom ts =>
    obtain ⟨own, walk, -⟩ := isAtom_iff.mp correct
    exact .of_outer walk
  | group inner ih => exact (ih correct).bracket
  | not inner ih => exact (Closed.words ["NOT"]).append (ih correct.2.2)
  | flag test ih => exact ((Closed.words _).append (ih correct)).append (.words _)
  | between left joint right first second =>
    have own : Closed joint.tokens := by
      cases joint with
      | comma => exact .of_outer rfl
      | or => exact .words ["OR"]
      | and => exact .words ["AND"]
      | compare words => exact .words words
    exact ((first correct.2.2.2.1).append own).append (second correct.2.2.2.2)
  | behind subject test ih =>
    have own : Closed test.tokens := by
      cases test with
      | null negated | nothing negated => cases negated <;> exact .of_outer rfl
      | untrue => exact .of_outer rfl
    exact (ih correct.2).append own
  | among subject negated items first second =>
    have own : Closed (inWords negated) := .words _
    have whole := ((first correct.2.1).append own).append (second correct.2.2).bracket
    simpa [Phrase.tokens] using whole

-- Read up to the end of the tree, whatever follows.
def Leads (g : Grammar) (least after : Nat) (t : Phrase) : Prop :=
  ∀ rest fuel, g.Follows after rest → 2 * (t.tokens ++ rest).length + 2 ≤ fuel →
    ∃ left, 2 * rest.length + 1 ≤ left ∧ g.expr? fuel least (t.tokens ++ rest) = g.more? left least t rest

theorem Leads.reads {t : Phrase} (leads : g.Leads least after t) (follows : g.Follows after rest)
    (stops : g.Stops least rest) {fuel : Nat} (enough : 2 * (t.tokens ++ rest).length + 2 ≤ fuel) :
    g.expr? fuel least (t.tokens ++ rest) = some (t, rest) := by
  obtain ⟨left, room, read⟩ := leads rest fuel follows enough
  obtain ⟨left, rfl⟩ := Nat.exists_eq_add_of_lt (Nat.lt_of_lt_of_le (Nat.succ_pos _) room)
  rw [read, Nat.zero_add, more_stops stops]

theorem Leads.of_head {t : Phrase} (head : ∀ rest fuel, g.Follows after rest →
    2 * (t.tokens ++ rest).length + 1 ≤ fuel → g.head? fuel least (t.tokens ++ rest) = some (t, rest)) :
    g.Leads least after t := by
  intro rest fuel follows enough
  obtain ⟨fuel, rfl⟩ := Nat.exists_eq_add_of_lt (Nat.lt_of_lt_of_le (Nat.succ_pos _) enough)
  simp only [Nat.zero_add, List.length_append] at enough ⊢
  refine ⟨fuel, by omega, ?_⟩
  rw [expr?, head rest fuel follows (by simp; omega)]
  rfl

theorem head_other {t : Token} (starts : ∀ w, t = .word w → w ≠ "NOT" ∧ w ≠ "CASE") (fuel : Nat) (rest : List Token) :
    g.head? (fuel + 1) least (t :: rest) =
      if g.isAtom ((splitOuter g.ends 0 (t :: rest)).headD []) then
        some (.atom ((splitOuter g.ends 0 (t :: rest)).headD []),
          (t :: rest).drop ((splitOuter g.ends 0 (t :: rest)).headD []).length)
      else (do
        let later ← afterOpening? (t :: rest)
        let (inner, rest) ← g.expr? fuel 1 later
        let rest ← afterClosing? rest
        pure (.group inner, rest)) := by
  have plain : after? ["NOT"] (t :: rest) = none ∧ after? ["CASE", "WHEN"] (t :: rest) = none := by
    cases t with
    | word w => exact ⟨if_neg (starts w rfl).1, if_neg (starts w rfl).2⟩
    | _ => exact ⟨rfl, rfl⟩
  rw [head?, plain.1, plain.2]

theorem leads_atom (atom : g.isAtom ts = true) : g.Leads least after (.atom ts) := by
  refine .of_head fun rest fuel follows enough => ?_
  obtain ⟨fuel, rfl⟩ := Nat.exists_eq_add_of_lt (Nat.lt_of_lt_of_le (Nat.succ_pos _) enough)
  obtain ⟨own, walk, nonempty, free, -⟩ := isAtom_iff.mp atom
  have span : (splitOuter g.ends 0 (ts ++ rest)).headD [] = ts := span_outer walk free follows.apart
  cases ts with
  | nil =>
    cases walk
    exact absurd rfl nonempty
  | cons t ts =>
    obtain ⟨-, inner, -, rfl⟩ := outer_cons walk
    have starts : ∀ w, t = .word w → w ≠ "NOT" ∧ w ≠ "CASE" := by
      intro w same
      have own := free t (List.mem_cons_self ..)
      subst same
      constructor
      · rintro rfl
        cases own
      · rintro rfl
        cases own
    rw [List.cons_append] at span
    rw [Nat.zero_add, Phrase.tokens, List.cons_append, head_other starts, span, if_pos atom]
    simp

theorem leads_group {inner : Phrase} (correct : inner.Correct g 1 0) (leads : g.Leads 1 0 inner) :
    g.Leads least after (.group inner) := by
  refine .of_head fun rest fuel follows enough => ?_
  obtain ⟨fuel, rfl⟩ := Nat.exists_eq_add_of_lt (Nat.lt_of_lt_of_le (Nat.succ_pos _) enough)
  obtain ⟨first, more, shape, starts⟩ := correct_starts correct
  have bracket := (correct_closed correct).outer_bracket
  have span : (splitOuter g.ends 0 (.opening :: inner.tokens ++ [.closing] ++ rest)).headD [] =
      .opening :: inner.tokens ++ [.closing] :=
    span_outer bracket (List.forall_mem_singleton.mpr rfl) follows.apart
  -- What starts with SELECT would be an atom.
  have unselect : after? ["SELECT"] (inner.tokens ++ [.closing]) = none := by
    rw [shape]
    cases first with
    | word w =>
      simp only [Grammar.starts, Bool.and_eq_true, decide_eq_true_eq] at starts
      exact if_neg starts.2
    | _ => rfl
  have group : g.isAtom (.opening :: inner.tokens ++ [.closing]) = false := by
    simp only [isAtom, bracket]
    simp [isGroup, unselect]
  have read : g.expr? fuel 1 (inner.tokens ++ .closing :: rest) = some (inner, .closing :: rest) :=
    leads.reads (.closing g 0 rest) (.closing g 1 rest) (by simp [Phrase.tokens] at enough ⊢; omega)
  have plain : ∀ w, Token.opening = .word w → w ≠ "NOT" ∧ w ≠ "CASE" := by
    intro w same
    cases same
  simp only [List.cons_append, List.append_assoc, List.nil_append] at span group
  rw [Nat.zero_add]
  simp only [Phrase.tokens, List.cons_append, List.append_assoc, List.nil_append]
  rw [head_other plain, span, group]
  simp [afterOpening?, read, afterClosing?]

theorem leads_not {inner : Phrase} (free : least ≤ 3 ∨ g.negates = true) (loose : after < 3)
    (leads : g.Leads 3 after inner) : g.Leads least after (.not inner) := by
  refine .of_head fun rest fuel follows enough => ?_
  obtain ⟨fuel, rfl⟩ := Nat.exists_eq_add_of_lt (Nat.lt_of_lt_of_le (Nat.succ_pos _) enough)
  have read : g.expr? fuel 3 (inner.tokens ++ rest) = some (inner, rest) :=
    leads.reads follows (follows.stops.mono loose) (by simp [Phrase.tokens] at enough ⊢; omega)
  rw [Nat.zero_add, head?]
  simp [Phrase.tokens, after?, free, read]

theorem leads_flag {test : Phrase} (leads : g.Leads 1 0 test) : g.Leads least after (.flag test) := by
  refine .of_head fun rest fuel follows enough => ?_
  obtain ⟨fuel, rfl⟩ := Nat.exists_eq_add_of_lt (Nat.lt_of_lt_of_le (Nat.succ_pos _) enough)
  have follows : g.Follows 0 (.word "THEN" :: (["1", "ELSE", "0", "END"].map .word ++ rest)) := .words g 0 _
  have read : g.expr? fuel 1 (test.tokens ++ .word "THEN" :: (["1", "ELSE", "0", "END"].map .word ++ rest)) =
      some (test, .word "THEN" :: (["1", "ELSE", "0", "END"].map .word ++ rest)) :=
    leads.reads follows follows.stops (by simp [Phrase.tokens] at enough ⊢; omega)
  simp only [List.map_cons, List.map_nil, List.cons_append, List.nil_append] at read
  rw [Nat.zero_add, head?]
  simp [Phrase.tokens, after?, read]

section Behind

variable {left right items : Phrase} {fuel : Nat}

theorem more_behind {test : Behind} (tight : least ≤ test.rank g) :
    g.more? (fuel + 1) least left (test.tokens ++ rest) = g.more? fuel least (.behind left test) rest := by
  have found : g.joint? (test.tokens ++ rest) = some (.behind test, rest) :=
    joint_tokens (show g.Admits (.behind test) rest from trivial)
  rw [more?, found]
  exact if_neg (Nat.not_lt.mpr tight)

theorem more_between {joint : Between} (admits : g.Admits (.between joint) later) (tight : least ≤ joint.rank g)
    (read : g.expr? fuel (joint.rank g + 1) later = some (right, rest)) :
    g.more? (fuel + 1) least left (joint.tokens ++ later) = g.more? fuel least (.between left joint right) rest := by
  have found : g.joint? (joint.tokens ++ later) = some (.between joint, later) := joint_tokens admits
  rw [more?, found]
  refine (if_neg (Nat.not_lt.mpr tight)).trans ?_
  simp [read]

theorem more_among {negated : Bool} (admits : g.Admits (.among negated) later)
    (tight : least ≤ (Joint.among negated).rank g) (read : g.expr? fuel 0 later = some (items, .closing :: rest)) :
    g.more? (fuel + 1) least left ((Joint.among negated).tokens ++ later) =
      g.more? fuel least (.among left negated items) rest := by
  rw [more?, joint_tokens admits]
  refine (if_neg (Nat.not_lt.mpr tight)).trans ?_
  simp [read, afterClosing?]

-- From the end of the subject on.
theorem Leads.upto (leads : g.Leads least (joint.rank g) left) (admits : g.Admits joint later)
    (enough : 2 * (left.tokens ++ (joint.tokens ++ later)).length + 2 ≤ fuel) :
    ∃ less, 2 * later.length + 2 ≤ less ∧
      g.expr? fuel least (left.tokens ++ (joint.tokens ++ later)) =
        g.more? (less + 1) least left (joint.tokens ++ later) := by
  obtain ⟨fuel, room, read⟩ := leads _ fuel (.of_joint admits (Nat.le_refl _)) enough
  obtain ⟨t, more, shape, -⟩ := joint_front admits
  have length : 0 < joint.tokens.length := by
    rw [shape]
    exact Nat.succ_pos _
  rw [List.length_append] at room
  obtain ⟨less, rfl⟩ := Nat.exists_eq_add_of_lt (Nat.lt_of_lt_of_le (Nat.succ_pos _) room)
  rw [Nat.zero_add] at read
  exact ⟨less, by omega, read⟩

theorem leads_behind {test : Behind} (tight : least ≤ test.rank g) (leads : g.Leads least (test.rank g) left) :
    g.Leads least after (.behind left test) := by
  intro rest fuel follows enough
  rw [Phrase.tokens, List.append_assoc] at enough ⊢
  obtain ⟨less, room, read⟩ := leads.upto (show g.Admits (.behind test) rest from trivial) enough
  refine ⟨less, by omega, ?_⟩
  rw [← more_behind tight]
  exact read

theorem leads_between {joint : Between} (known : g.knows joint = true) (tight : least ≤ joint.rank g)
    (loose : after ≤ joint.rank g) (correct : right.Correct g (joint.rank g + 1) after)
    (before : g.Leads least (joint.rank g) left) (behind : g.Leads (joint.rank g + 1) after right) :
    g.Leads least after (.between left joint right) := by
  intro rest fuel follows enough
  obtain ⟨first, more, shape, starts⟩ := correct_starts correct
  have admits : g.Admits (.between joint) (right.tokens ++ rest) := by
    rw [shape]
    exact ⟨known, unsymbolic_of_starts starts _⟩
  rw [Phrase.tokens, List.append_assoc, List.append_assoc] at enough ⊢
  obtain ⟨less, room, read⟩ := before.upto admits enough
  have second : g.expr? less (joint.rank g + 1) (right.tokens ++ rest) = some (right, rest) :=
    behind.reads follows (follows.stops.mono (Nat.succ_le_succ loose)) room
  refine ⟨less, by rw [List.length_append] at room; omega, ?_⟩
  rw [← more_between admits tight second]
  exact read

theorem leads_among {negated : Bool} (tight : least ≤ (Joint.among negated).rank g) (correct : items.Correct g 0 0)
    (before : g.Leads least ((Joint.among negated).rank g) left) (inside : g.Leads 0 0 items) :
    g.Leads least after (.among left negated items) := by
  intro rest fuel follows enough
  obtain ⟨first, more, shape, starts⟩ := correct_starts correct
  have admits : g.Admits (.among negated) (items.tokens ++ .closing :: rest) := by
    rw [shape]
    intro same
    cases same
    cases starts
  have whole : (Phrase.among left negated items).tokens ++ rest =
      left.tokens ++ ((Joint.among negated).tokens ++ (items.tokens ++ .closing :: rest)) := by
    simp [Phrase.tokens, Joint.tokens]
  rw [whole] at enough ⊢
  obtain ⟨less, room, read⟩ := before.upto admits enough
  have second : g.expr? less 0 (items.tokens ++ .closing :: rest) = some (items, .closing :: rest) :=
    inside.reads (.closing g 0 rest) (.closing g 0 rest) room
  refine ⟨less, by simp at room; omega, ?_⟩
  rw [← more_among admits tight second]
  exact read

end Behind

-- A correct tree is read back from its own text.
theorem leads_of_correct {t : Phrase} (correct : t.Correct g least after) : g.Leads least after t := by
  induction t generalizing least after with
  | atom ts => exact leads_atom correct
  | group inner ih => exact leads_group correct (ih correct)
  | not inner ih => exact leads_not correct.1 correct.2.1 (ih correct.2.2)
  | flag test ih => exact leads_flag (ih correct)
  | between left joint right first second =>
    obtain ⟨known, tight, loose, before, behind⟩ := correct
    exact leads_between known tight loose behind (first before) (second behind)
  | behind subject test ih => exact leads_behind correct.1 (ih correct.2)
  | among subject negated items first second =>
    exact leads_among correct.1 correct.2.2 (first correct.2.1) (second correct.2.2)

-- How tight what follows binds; as loose as a list where nothing goes on.
def next (g : Grammar) (rest : List Token) : Nat :=
  match g.joint? rest with
  | some (joint, _) => joint.rank g
  | none => 0

-- What was read is a correct tree with the text it was read from.
def Faithful (g : Grammar) (least : Nat) (ts : List Token) (t : Phrase) (rest : List Token) : Prop :=
  ts = t.tokens ++ rest ∧ t.Correct g least (g.next rest)

theorem next_le (stops : g.Stops (most + 1) rest) : g.next rest ≤ most := by
  unfold next
  split
  · rename_i joint later found
    exact Nat.le_of_lt_succ (stops joint later found)
  · exact Nat.zero_le _

theorem next_then (g : Grammar) (rest : List Token) : g.next (.word "THEN" :: rest) = 0 :=
  Nat.le_zero.mp (next_le (Follows.words g 0 rest).stops)

theorem closing_sound (found : afterClosing? ts = some rest) : ts = .closing :: rest := by
  unfold afterClosing? at found
  split at found <;> cases found
  rfl

theorem opening_sound (found : afterOpening? ts = some rest) : ts = .opening :: rest := by
  unfold afterOpening? at found
  split at found <;> cases found
  rfl

theorem span_sound (stop : Token → Bool) (depth : Nat) (ts : List Token) :
    (splitOuter stop depth ts).headD [] ++ ts.drop ((splitOuter stop depth ts).headD []).length = ts := by
  induction ts generalizing depth with
  | nil => rfl
  | cons t rest ih =>
    rw [splitOuter]
    split
    · rfl
    · have inner := ih (depthAfter depth t)
      cases parts : splitOuter stop (depthAfter depth t) rest with
      | nil => exact absurd parts (splitOuter_ne_nil stop _ rest)
      | cons part parts' =>
        rw [parts] at inner
        exact congrArg (t :: ·) inner

-- Each of the three readers gives correct trees, if those before it do.
def Sound (g : Grammar) (fuel : Nat) : Prop :=
  (∀ least ts t rest, g.expr? fuel least ts = some (t, rest) → g.Faithful least ts t rest ∧ g.Stops least rest) ∧
  (∀ least ts t rest, g.head? fuel least ts = some (t, rest) → g.Faithful least ts t rest) ∧
  ∀ least left ts t rest, left.Correct g least (g.next ts) → g.more? fuel least left ts = some (t, rest) →
    g.Faithful least (left.tokens ++ ts) t rest ∧ g.Stops least rest

theorem head_sound {fuel : Nat} (sound : g.Sound fuel) {t : Phrase}
    (found : g.head? (fuel + 1) least ts = some (t, rest)) : g.Faithful least ts t rest := by
  obtain ⟨expr, -, -⟩ := sound
  rw [head?] at found
  split at found
  · rename_i later negated
    split at found
    · rename_i free
      obtain ⟨⟨inner, behind⟩, read, same⟩ := Option.bind_eq_some_iff.mp found
      cases same
      obtain ⟨⟨whole, correct⟩, stops⟩ := expr _ _ _ _ read
      refine ⟨?_, free, Nat.lt_succ_of_le (next_le stops), correct⟩
      rw [after_sound negated, whole]
      rfl
    · cases found
  · split at found
    · rename_i later cased
      obtain ⟨⟨test, behind⟩, read, found⟩ := Option.bind_eq_some_iff.mp found
      obtain ⟨last, chosen, same⟩ := Option.bind_eq_some_iff.mp found
      cases same
      obtain ⟨⟨whole, correct⟩, -⟩ := expr _ _ _ _ read
      rw [after_sound chosen] at whole correct
      refine ⟨?_, ?_⟩
      · rw [after_sound cased, whole]
        simp [Phrase.tokens]
      · rwa [List.map_cons, List.cons_append, next_then] at correct
    · dsimp only at found
      split at found
      · rename_i atom
        cases found
        exact ⟨(span_sound g.ends 0 ts).symm, atom⟩
      · obtain ⟨later, opened, found⟩ := Option.bind_eq_some_iff.mp found
        obtain ⟨⟨inner, behind⟩, read, found⟩ := Option.bind_eq_some_iff.mp found
        obtain ⟨last, closed, same⟩ := Option.bind_eq_some_iff.mp found
        cases same
        obtain ⟨⟨whole, correct⟩, -⟩ := expr _ _ _ _ read
        have shape : behind = .closing :: rest := closing_sound closed
        rw [shape] at whole correct
        refine ⟨?_, correct⟩
        rw [opening_sound opened, whole]
        simp [Phrase.tokens]

theorem more_sound {fuel : Nat} (sound : g.Sound fuel) {left t : Phrase} (correct : left.Correct g least (g.next ts))
    (found : g.more? (fuel + 1) least left ts = some (t, rest)) :
    g.Faithful least (left.tokens ++ ts) t rest ∧ g.Stops least rest := by
  obtain ⟨expr, -, more⟩ := sound
  rw [more?] at found
  split at found
  · rename_i ended
    cases found
    refine ⟨⟨rfl, correct⟩, ?_⟩
    intro joint later found
    rw [ended] at found
    cases found
  · rename_i joint later going
    have rank : g.next ts = joint.rank g := by rw [next, going]
    rw [rank] at correct
    obtain ⟨whole, known⟩ := joint_sound going
    split at found
    · rename_i loose
      cases found
      refine ⟨⟨rfl, rank ▸ correct⟩, ?_⟩
      intro joint' later' found
      rw [going] at found
      cases found
      exact loose
    · rename_i tight
      rw [Nat.not_lt] at tight
      cases joint with
      | behind test =>
        have extended : (Phrase.behind left test).Correct g least (g.next later) := ⟨tight, correct⟩
        have read := more _ _ _ _ _ extended found
        rw [whole]
        simpa [Phrase.tokens, Joint.tokens] using read
      | between joint =>
        obtain ⟨⟨right, behind⟩, read, found⟩ := Option.bind_eq_some_iff.mp found
        obtain ⟨⟨shape, second⟩, stops⟩ := expr _ _ _ _ read
        have extended : (Phrase.between left joint right).Correct g least (g.next behind) :=
          ⟨known joint rfl, tight, next_le stops, correct, second⟩
        have read := more _ _ _ _ _ extended found
        rw [whole, shape]
        simpa [Phrase.tokens, Joint.tokens] using read
      | among negated =>
        obtain ⟨⟨items, behind⟩, read, found⟩ := Option.bind_eq_some_iff.mp found
        obtain ⟨last, closed, found⟩ := Option.bind_eq_some_iff.mp found
        obtain ⟨⟨shape, inside⟩, -⟩ := expr _ _ _ _ read
        rw [closing_sound closed] at shape inside
        have extended : (Phrase.among left negated items).Correct g least (g.next last) := ⟨tight, correct, inside⟩
        have read := more _ _ _ _ _ extended found
        rw [whole, shape]
        simpa [Phrase.tokens, Joint.tokens] using read

theorem sound (g : Grammar) (fuel : Nat) : g.Sound fuel := by
  induction fuel with
  | zero => exact ⟨nofun, nofun, nofun⟩
  | succ fuel ih =>
    refine ⟨?_, fun _ _ _ _ found => head_sound ih found, fun _ _ _ _ _ correct found => more_sound ih correct found⟩
    intro least ts t rest found
    rw [expr?] at found
    obtain ⟨⟨first, later⟩, began, found⟩ := Option.bind_eq_some_iff.mp found
    obtain ⟨whole, correct⟩ := ih.2.1 _ _ _ _ began
    rw [whole]
    exact ih.2.2 _ _ _ _ _ correct found

-- The readers find just the correct tree of a text.
theorem read_iff {t : Phrase} : g.read? ts = some t ↔ t.tokens = ts ∧ t.Correct g 1 0 := by
  constructor
  · intro found
    obtain ⟨⟨whole, rest⟩, read, found⟩ := Option.bind_eq_some_iff.mp found
    obtain ⟨⟨shape, correct⟩, -⟩ := (g.sound _).1 _ _ _ _ read
    cases rest with
    | nil =>
      cases found
      refine ⟨?_, correct⟩
      rw [shape, List.append_nil]
    | cons first more => cases found
  · rintro ⟨rfl, correct⟩
    have follows : g.Follows 0 [] := .nil g 0
    have read := (leads_of_correct correct).reads follows follows.stops (Nat.le_refl _)
    rw [List.append_nil] at read
    rw [read?, read]
    rfl

end FilterQuery.Grammar
