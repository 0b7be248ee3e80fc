import FilterQuery.Proofs.ValueText

namespace FilterQuery.Json

mutual
-- What the text tells: a double that is not finite is written as null.
def settled : Json → Json
  | num (.double x) => double x
  | arr items => arr (settledItems items)
  | obj members => obj (settledMembers members)
  | j => j

def settledItems : List Json → List Json
  | [] => []
  | a :: rest => a.settled :: settledItems rest

def settledMembers : List (String × Json) → List (String × Json)
  | [] => []
  | (k, v) :: rest => (k, v.settled) :: settledMembers rest
end

theorem settledItems_eq (items : List Json) : settledItems items = items.map settled := by
  induction items with
  | nil => rfl
  | cons a rest ih => rw [settledItems, ih, List.map_cons]

theorem numberText_null {x : Float} (infinite : x.isFinite = false) : numberText (.double x) = "null" := by
  have field : x.toBits.toNat / Binary64.hiddenBit % 2048 = 2047 := by
    by_contra other
    rw [(isFinite_iff x).mpr other] at infinite
    cases infinite
  show NumberStyle.json.write x = "null"
  unfold NumberStyle.write Binary64.ofFloat
  dsimp only
  rw [if_pos field]
  by_cases zero : x.toBits.toNat % Binary64.hiddenBit = 0
  · rw [if_pos zero]
    generalize (x.toBits.toNat / Binary64.signWeight == 1) = negative
    cases negative <;> rfl
  · rw [if_neg zero]
    rfl

theorem double_chars (x : Float) : (double x).chars = (num (.double x)).chars := by
  unfold double
  split
  · rfl
  · rename_i infinite
    rw [chars, chars, numberText_null (by simpa using infinite)]

mutual
theorem settled_chars (j : Json) : j.settled.chars = j.chars := by
  cases j with
  | num n =>
    cases n with
    | int i => rfl
    | double x => exact double_chars x
  | arr items => rw [settled, chars, chars, settledItems_chars items]
  | obj members => rw [settled, chars, chars, settledMembers_chars members]
  | null | bool | str => rfl

theorem settledItems_chars (items : List Json) : itemChars (settledItems items) = itemChars items := by
  cases items with
  | nil => rfl
  | cons a rest =>
    have empty : settledItems rest = [] ↔ rest = [] := by cases rest <;> simp [settledItems]
    rw [settledItems, itemChars_cons, itemChars_cons, settled_chars a, settledItems_chars rest]
    simp only [empty]

theorem settledMembers_chars (members : List (String × Json)) :
    memberChars (settledMembers members) = memberChars members := by
  cases members with
  | nil => rfl
  | cons member rest =>
    obtain ⟨k, v⟩ := member
    have empty : settledMembers rest = [] ↔ rest = [] := by cases rest <;> simp [settledMembers]
    rw [settledMembers, memberChars_cons, memberChars_cons, settled_chars v, settledMembers_chars rest]
    simp only [empty]
end

mutual
theorem settled_real (j : Json) : j.settled.Real := by
  cases j with
  | num n =>
    cases n with
    | int i => trivial
    | double x => exact Value.double_real x
  | arr items => exact settledItems_real items
  | obj members => exact settledMembers_real members
  | null | bool | str => trivial

theorem settledItems_real (items : List Json) : RealItems (settledItems items) := by
  cases items with
  | nil => trivial
  | cons a rest => exact ⟨settled_real a, settledItems_real rest⟩

theorem settledMembers_real (members : List (String × Json)) : RealMembers (settledMembers members) := by
  cases members with
  | nil => trivial
  | cons member rest => exact ⟨settled_real member.2, settledMembers_real rest⟩
end

theorem text_settled {j j' : Json} (same : j.text = j'.text) : j.settled = j'.settled := by
  refine text_inj j.settled_real j'.settled_real ?_
  rw [text, text, settled_chars, settled_chars]
  exact same

-- How much of a blank, a brace, a quote and a q was read last; all four stay read.
def openingStep (n : Nat) (c : Char) : Nat :=
  if n = 4 then 4
  else if c = ' ' then 1
  else if n = 1 ∧ c = '\x7b' then 2
  else if n = 2 ∧ c = '"' then 3
  else if n = 3 ∧ c = 'q' then 4
  else 0

def openingRun (n : Nat) (cs : List Char) : Nat := cs.foldl openingStep n

theorem openingRun_append (n : Nat) (cs ds : List Char) : openingRun n (cs ++ ds) = openingRun (openingRun n cs) ds :=
  List.foldl_append ..

theorem openingRun_found (n : Nat) (rest : List Char) : openingRun n (' ' :: '\x7b' :: '"' :: 'q' :: rest) = 4 := by
  have kept : openingRun 4 rest = 4 := by
    induction rest with
    | nil => rfl
    | cons c rest ih => exact ih
  rw [← List.singleton_append, openingRun_append]
  show openingRun (openingStep (openingStep (openingStep (openingStep n ' ') '\x7b') '"') 'q') rest = 4
  by_cases found : n = 4
  · subst found
    exact kept
  · rw [show openingStep n ' ' = 1 by simp [openingStep, found]]
    exact kept

-- Read from a fresh start, at most a string that ends like an opening was read.
def Shut (cs : List Char) : Prop := openingRun 0 cs = 0 ∨ openingRun 0 cs = 3

theorem Shut.next {cs : List Char} (shut : Shut cs) {c : Char} (apart : c ≠ ' ' ∧ c ≠ 'q') (rest : List Char) :
    openingRun 0 (cs ++ c :: rest) = openingRun 0 rest := by
  have idle : openingStep 0 c = 0 ∧ openingStep 3 c = 0 := by simp [openingStep, apart.1, apart.2]
  rw [openingRun_append]
  show openingRun (openingStep (openingRun 0 cs) c) rest = _
  rcases shut with read | read <;> rw [read]
  · rw [idle.1]
  · rw [idle.2]

theorem openingRun_first {c : Char} (apart : c ≠ ' ') (rest : List Char) :
    openingRun 0 (c :: rest) = openingRun 0 rest := by
  show openingRun (openingStep 0 c) rest = _
  rw [show openingStep 0 c = 0 by simp [openingStep, apart]]

theorem openingRun_numeric {cs : List Char} (numeric : Numeric cs) : openingRun 0 cs = 0 := by
  induction cs with
  | nil => rfl
  | cons c rest ih =>
    have apart : c ≠ ' ' := by
      rintro rfl
      exact absurd (numeric _ List.mem_cons_self) (by decide)
    rw [openingRun_first apart]
    exact ih fun d member => numeric d (List.mem_cons_of_mem _ member)

theorem openingStep_inside {n : Nat} {c : Char} (inside : n ≤ 2) (plain : n ≤ 1 ∨ c ≠ '"') : openingStep n c ≤ 2 := by
  have quote : ¬ (n = 2 ∧ c = '"') := by
    rintro ⟨rfl, rfl⟩
    exact plain.elim (by decide) fun other => other rfl
  unfold openingStep
  rw [if_neg (show n ≠ 4 by omega), if_neg quote, if_neg (show ¬ (n = 3 ∧ c = 'q') by omega)]
  split
  · decide
  · split <;> decide

theorem openingStep_fresh (c : Char) : openingStep 0 c ≤ 1 := by
  unfold openingStep
  repeat' split
  all_goals omega

-- Inside a string no quote is read but behind a backslash.
theorem openingRun_escapeChar {n : Nat} (inside : n ≤ 2) (c : Char) : openingRun n (escapeChar c) ≤ 2 := by
  have slash : openingStep n '\\' = 0 := by
    have other : n ≠ 4 := by omega
    simp [openingStep, other]
  have pair : ∀ d, openingRun n ['\\', d] ≤ 2 := by
    intro d
    show openingStep (openingStep n '\\') d ≤ 2
    rw [slash]
    exact openingStep_inside (by decide) (.inl (by decide))
  have unit : ∀ a b, openingRun n ['\\', 'u', '0', '0', a, b] ≤ 2 := by
    intro a b
    show openingStep (openingStep (openingStep (openingStep (openingStep (openingStep n '\\') 'u') '0') '0') a) b ≤ 2
    rw [slash]
    exact openingStep_inside (Nat.le_succ_of_le (openingStep_fresh a)) (.inl (openingStep_fresh a))
  unfold escapeChar
  split
  · exact pair _
  · rename_i plain
    repeat' split
    all_goals first
      | exact pair _
      | exact unit _ _
      | exact openingStep_inside inside (.inr plain)

theorem quoted_shut (s : String) : Shut (quoted s) := by
  have within : ∀ (cs : List Char) (n : Nat), n ≤ 2 → openingRun n (cs.flatMap escapeChar) ≤ 2 := by
    intro cs
    induction cs with
    | nil => exact fun n small => small
    | cons c rest ih =>
      intro n small
      rw [List.flatMap_cons, openingRun_append]
      exact ih _ (openingRun_escapeChar small c)
  have body := within s.toList 0 (by decide)
  have closing : ∀ n, n ≤ 2 → openingStep n '"' = 0 ∨ openingStep n '"' = 3 := by decide
  rw [Shut, quoted, List.cons_append, openingRun_first (by decide), openingRun_append]
  exact closing _ body

mutual
theorem chars_shut (j : Json) (real : j.Real) : Shut j.chars := by
  cases j with
  | null => exact .inl rfl
  | bool b => cases b <;> exact .inl rfl
  | num n => exact .inl (openingRun_numeric (numberText_numeric real))
  | str s => exact quoted_shut s
  | arr items =>
    refine .inl ?_
    rw [chars, List.cons_append, openingRun_first (by decide)]
    exact itemChars_shut items real
  | obj members =>
    refine .inl ?_
    rw [chars, List.cons_append, openingRun_first (by decide)]
    exact memberChars_shut members real

theorem itemChars_shut (items : List Json) (real : RealItems items) : openingRun 0 (itemChars items ++ [']']) = 0 := by
  cases items with
  | nil => rfl
  | cons a rest =>
    have first := chars_shut a real.1
    have later := itemChars_shut rest real.2
    rw [itemChars_cons, List.append_assoc]
    split
    · exact first.next (by decide) []
    · rw [List.cons_append, first.next (by decide), later]

theorem memberChars_shut (members : List (String × Json)) (real : RealMembers members) :
    openingRun 0 (memberChars members ++ ['\x7d']) = 0 := by
  cases members with
  | nil => rfl
  | cons member rest =>
    obtain ⟨k, v⟩ := member
    have first := chars_shut v real.1
    have later := memberChars_shut rest real.2
    rw [memberChars_cons, List.append_assoc, List.cons_append, (quoted_shut k).next (by decide), List.append_assoc]
    split
    · exact first.next (by decide) []
    · rw [List.cons_append, first.next (by decide), later]
end

-- The text of a document is not opened anew behind a blank.
theorem not_opened (j : Json) (before rest : List Char) : j.chars ≠ before ++ ' ' :: '\x7b' :: '"' :: 'q' :: rest := by
  intro same
  have shut := chars_shut j.settled j.settled_real
  rw [Shut, settled_chars, same, openingRun_append, openingRun_found] at shut
  omega

end FilterQuery.Json
