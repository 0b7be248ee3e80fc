import FilterQuery.Proofs.TextPatterns

namespace FilterQuery

open PatternLanguage PatternPart

-- LIKE takes the meaning from the character behind a backslash. The translations keep it as an ordinary character,
-- so they mean the same by just the patterns that have none.
def escapedLike : PatternLanguage := .like (some '\\') .ordinary

-- The shortest text that LIKE matches, if the pattern is one at all.
def shortestMatch : List Char → Option (List Char)
  | [] => some []
  | ['\\'] => none
  | '\\' :: c :: rest => (shortestMatch rest).map (c :: ·)
  | '%' :: rest => shortestMatch rest
  | '_' :: rest => (shortestMatch rest).map ('a' :: ·)
  | c :: rest => (shortestMatch rest).map (c :: ·)

variable {c : Char} {p t : List Char}

theorem escapedLike_many : escapedLike.Writes ['%'] [.many] := writes_many escapedLike (by simp [escapedLike, like])

theorem escapedLike_one : escapedLike.Writes ['_'] [.anything] :=
  writes_one escapedLike (by simp [escapedLike, like]) (by decide)

theorem escapedLike_plain (escape : c ≠ '\\') (many : c ≠ '%') (one : c ≠ '_') :
    escapedLike.Writes [c] [.exactly c] :=
  writes_plain (fun same => escape (Option.some.inj same).symm) many one fun _ => rfl

theorem not_escape {rest : List Char} (alone : c = '\\' → rest = [] → False)
    (before : ∀ d more, c = '\\' → rest = d :: more → False) : c ≠ '\\' := by
  intro same
  cases rest with
  | nil => exact alone same rfl
  | cons d more => exact before d more same rfl

theorem shortestMatch_accepted (found : shortestMatch p = some t) :
    ∃ ps, escapedLike.Writes p ps ∧ accept ps t = true := by
  fun_induction shortestMatch p generalizing t with
  | case1 =>
    cases found
    exact ⟨[], .nil, rfl⟩
  | case2 => cases found
  | case3 c rest ih =>
    obtain ⟨t, inner, rfl⟩ := Option.map_eq_some_iff.mp found
    obtain ⟨ps, written, accepted⟩ := ih inner
    exact ⟨.exactly c :: ps, (writes_escaped rfl c).append written, by simp [exactly, accept, accepted]⟩
  | case4 rest ih =>
    obtain ⟨ps, written, accepted⟩ := ih found
    exact ⟨.many :: ps, escapedLike_many.append written, accept_many.mpr ⟨[], t, rfl, accepted⟩⟩
  | case5 rest ih =>
    obtain ⟨t, inner, rfl⟩ := Option.map_eq_some_iff.mp found
    obtain ⟨ps, written, accepted⟩ := ih inner
    exact ⟨.anything :: ps, escapedLike_one.append written, by simp [anything, accept, accepted]⟩
  | case6 c rest alone before many one ih =>
    obtain ⟨t, inner, rfl⟩ := Option.map_eq_some_iff.mp found
    obtain ⟨ps, written, accepted⟩ := ih inner
    have plain := escapedLike_plain (not_escape alone before) many one
    exact ⟨.exactly c :: ps, plain.append written, by simp [exactly, accept, accepted]⟩

theorem read_append_none {cs rest : List Char} {ps : List PatternPart} (written : escapedLike.Writes cs ps)
    (refused : escapedLike.read .outside false rest = none) : escapedLike.read .outside false (cs ++ rest) = none := by
  rw [written, refused, Option.map_none]

-- A backslash with nothing behind it.
theorem shortestMatch_none (refused : shortestMatch p = none) : escapedLike.read .outside false p = none := by
  fun_induction shortestMatch p with
  | case1 => cases refused
  | case2 => rfl
  | case3 c rest ih => exact read_append_none (writes_escaped rfl c) (ih (Option.map_eq_none_iff.mp refused))
  | case4 rest ih => exact read_append_none escapedLike_many (ih refused)
  | case5 rest ih => exact read_append_none escapedLike_one (ih (Option.map_eq_none_iff.mp refused))
  | case6 c rest alone before many one ih =>
    have plain := escapedLike_plain (not_escape alone before) many one
    exact read_append_none plain (ih (Option.map_eq_none_iff.mp refused))

-- Of two backslashes at least one is lost.
theorem shortestMatch_count (found : shortestMatch p = some t) :
    t.count '\\' ≤ p.count '\\' ∧ ('\\' ∈ p → t.count '\\' < p.count '\\') := by
  fun_induction shortestMatch p generalizing t with
  | case1 =>
    cases found
    simp
  | case2 => cases found
  | case3 c rest ih =>
    obtain ⟨t, inner, rfl⟩ := Option.map_eq_some_iff.mp found
    have fewer := (ih inner).1
    simp only [List.count_cons, beq_self_eq_true, if_true]
    omega
  | case4 rest ih => simpa using ih found
  | case5 rest ih =>
    obtain ⟨t, inner, rfl⟩ := Option.map_eq_some_iff.mp found
    simpa using ih inner
  | case6 c rest alone before many one ih =>
    obtain ⟨t, inner, rfl⟩ := Option.map_eq_some_iff.mp found
    have other := not_escape alone before
    simpa [other, other.symm] using ih inner

-- Where it is an ordinary character, each one has to be found.
theorem likePart_count (accepted : accept (p.map likePart) t = true) : p.count '\\' ≤ t.count '\\' := by
  induction p generalizing t with
  | nil => simp
  | cons c rest ih =>
    by_cases many : c = '%'
    · subst many
      obtain ⟨skipped, later, rfl, inner⟩ := accept_many.mp accepted
      have fewer := ih inner
      simp only [List.count_cons, List.count_append]
      simpa using Nat.le_add_left_of_le fewer
    · cases t with
      | nil => by_cases one : c = '_' <;> simp [likePart, many, one, anything, exactly, accept] at accepted
      | cons d later =>
        by_cases one : c = '_'
        · subst one
          have fewer := ih (t := later) (by simpa [likePart, anything, accept] using accepted)
          simp only [List.count_cons]
          simpa using Nat.le_add_right_of_le fewer
        · obtain ⟨rfl, inner⟩ : d = c ∧ accept (rest.map likePart) later = true := by
            simpa [likePart, many, one, exactly, accept] using accepted
          have fewer := ih inner
          simp only [List.count_cons]
          omega

-- Every pattern without an escape is found by itself.
theorem likePart_self (p : List Char) : accept (p.map likePart) p = true := by
  induction p with
  | nil => rfl
  | cons c rest ih =>
    by_cases many : c = '%'
    · subst many
      exact accept_many.mpr ⟨['%'], rest, rfl, ih⟩
    · by_cases one : c = '_' <;> simp [likePart, many, one, anything, exactly, accept, ih]

theorem escapedLike_unescaped (unescaped : '\\' ∉ p) : escapedLike.Writes p (p.map likePart) := by
  induction p with
  | nil => exact .nil
  | cons c rest ih =>
    rw [List.mem_cons, not_or] at unescaped
    have first : escapedLike.Writes [c] [likePart c] := by
      unfold likePart
      by_cases many : c = '%'
      · subst many
        exact escapedLike_many
      · by_cases one : c = '_'
        · subst one
          exact escapedLike_one
        · rw [if_neg many, if_neg one]
          exact escapedLike_plain (Ne.symm unescaped.1) many one
    exact first.append (ih unescaped.2)

theorem escape_matters (p : List Char) :
    (∀ t, escapedLike.accepts p t = (like none .ordinary).accepts p t) ↔ '\\' ∉ p := by
  have plain := fun t => (like_writes p).accepts t
  constructor
  · intro same escaped
    cases found : shortestMatch p with
    | none =>
      have nothing : escapedLike.accepts p p = false := by rw [accepts, shortestMatch_none found]; rfl
      rw [same, plain, likePart_self] at nothing
      cases nothing
    | some t =>
      obtain ⟨ps, written, accepted⟩ := shortestMatch_accepted found
      have literal : accept (p.map likePart) t = true := by rw [← plain, ← same, written.accepts, accepted]
      exact absurd (likePart_count literal) (Nat.not_le.mpr ((shortestMatch_count found).2 escaped))
  · intro unescaped t
    rw [(escapedLike_unescaped unescaped).accepts, plain]

namespace Adapter

variable {a : Adapter} {f : Field} {options : ApplyOptions} {op : Operator} {s : String} {holds other : List Char → Prop}

theorem Finds.unique (first : a.Finds f options op s holds) (second : a.Finds f options op s other) (t : List Char) :
    holds t ↔ other t := by
  obtain ⟨p, test, leaf, spoken, found⟩ := first
  obtain ⟨p', test', leaf', spoken', found'⟩ := second
  cases leaf.symm.trans leaf'
  cases spoken.symm.trans spoken'
  exact (found t).symm.trans (found' t)

theorem Finds.congr (finds : a.Finds f options op s holds) (same : ∀ t, holds t ↔ other t) :
    a.Finds f options op s other := by
  obtain ⟨p, test, leaf, spoken, found⟩ := finds
  exact ⟨p, test, leaf, spoken, fun t => (found t).trans (same t)⟩

theorem postgres_like (f : Field) (options : ApplyOptions) (s : String) :
    postgres.Finds f options .like s (fun t => escapedLike.accepts s.toList t = true) :=
  ⟨_, _, rfl, rfl, fun t => by rw [String.toList_ofList]; rfl⟩

-- A backend that has LIKE in translation agrees with one that has it if the translation never meets an escape.
theorem Finds.agrees_iff
    (translated : a.Finds f options .like s fun t => (PatternLanguage.like none .ordinary).accepts s.toList t = true) :
    a.Finds f options .like s (fun t => escapedLike.accepts s.toList t = true) ↔ '\\' ∉ s.toList := by
  rw [← escape_matters]
  constructor
  · intro own t
    rw [Bool.eq_iff_iff]
    exact own.unique translated t
  · intro same
    refine translated.congr fun t => ?_
    rw [same]

end Adapter

-- LIKE finds the same texts in PostgreSQL, in SQLite and in the search engine if and only if the pattern has no
-- backslash.
theorem like_agrees_iff (f : Field) (options : ApplyOptions) (s : String) :
    ∃ holds : List Char → Prop, Adapter.postgres.Finds f options .like s holds ∧
      (Adapter.sqlite.Finds f options .like s holds ↔ '\\' ∉ s.toList) ∧
      (Adapter.search.Finds f options .like s holds ↔ '\\' ∉ s.toList) := by
  obtain ⟨glob, wildcard⟩ := like_found f options s
  exact ⟨_, Adapter.postgres_like f options s, glob.agrees_iff, wildcard.agrees_iff⟩

-- A percent sign that is escaped to be found as it is.
example :
    escapedLike.accepts "100\\%".toList "100%".toList = true ∧
      glob.accepts (likeToGlob "100\\%".toList) "100%".toList = false ∧
      glob.accepts (likeToGlob "100\\%".toList) "100\\ or more".toList = true := by decide

theorem escaped_percent_differs :
    ¬∀ (f : Field) (options : ApplyOptions) (s : String) (holds : List Char → Prop),
      Adapter.postgres.Finds f options .like s holds →
        Adapter.sqlite.Finds f options .like s holds ∧ Adapter.search.Finds f options .like s holds := by
  intro claimed
  let f : Field := ⟨"discount", "discount", .scalar .string, false, none, some "text"⟩
  let options : ApplyOptions := ⟨none, none⟩
  have alike := claimed f options "100\\%" _ (Adapter.postgres_like f options "100\\%")
  have glob := (like_found f options "100\\%").1
  exact absurd (glob.agrees_iff.mp alike.1) (by decide)

end FilterQuery
