import FilterQuery.Adapter.Basic
import FilterQuery.Proofs.PatternLanguages

namespace FilterQuery

open PatternLanguage PatternPart

theorem likeEscape_writes (brackets : Brackets) (s : List Char) :
    (like (some '\\') brackets).Writes (likeEscape s) (s.map .exactly) := by
  refine .flatMap (fun c => ?_) s
  by_cases special : c = '\\' ∨ c = '%' ∨ c = '_' ∨ c = '['
  · rw [if_pos special]
    exact writes_escaped rfl c
  · rw [if_neg special]
    simp only [not_or] at special
    obtain ⟨escape, many, one, bracket⟩ := special
    exact writes_plain (fun same => escape (Option.some.inj same).symm) many one fun same => absurd same bracket

theorem globEscapeChar_writes (c : Char) : glob.Writes (globEscapeChar c) [.exactly c] := by
  unfold globEscapeChar
  by_cases special : c = '*' ∨ c = '?' ∨ c = '['
  · rw [if_pos special]
    apply glob_class
    · rcases special with rfl | rfl | rfl <;> decide
    · rcases special with rfl | rfl | rfl <;> decide
  · rw [if_neg special]
    simp only [not_or] at special
    obtain ⟨many, one, bracket⟩ := special
    exact writes_plain nofun many one fun same => absurd same bracket

theorem globEscape_writes (s : List Char) : glob.Writes (globEscape s) (s.map .exactly) :=
  .flatMap globEscapeChar_writes s

theorem wildcardEscapeChar_writes (c : Char) : wildcard.Writes (SearchEngine.wildcardEscapeChar c) [.exactly c] := by
  unfold SearchEngine.wildcardEscapeChar
  by_cases special : c = '\\' ∨ c = '*' ∨ c = '?'
  · rw [if_pos special]
    exact writes_escaped rfl c
  · rw [if_neg special]
    simp only [not_or] at special
    obtain ⟨escape, many, one⟩ := special
    exact writes_plain (fun same => escape (Option.some.inj same).symm) many one fun _ => rfl

theorem wildcardEscape_writes (s : List Char) :
    wildcard.Writes (SearchEngine.wildcardEscape s) (s.map .exactly) := .flatMap wildcardEscapeChar_writes s

-- What a character of a LIKE pattern means where none is escaped.
def likePart (c : Char) : PatternPart := if c = '%' then .many else if c = '_' then .anything else .exactly c

theorem like_writes (p : List Char) : (like none .ordinary).Writes p (p.map likePart) := by
  have each : ∀ c, (like none .ordinary).Writes [c] [likePart c] := by
    intro c
    unfold likePart
    by_cases many : c = '%'
    · subst many
      exact writes_many _ nofun
    · by_cases one : c = '_'
      · subst one
        exact writes_one _ nofun (by decide)
      · rw [if_neg many, if_neg one]
        exact writes_plain nofun many one fun _ => rfl
  have whole := Writes.flatMap each p
  rwa [List.flatMap_singleton'] at whole

-- A language with an asterisk and a question mark has a LIKE pattern too, if it has every other character.
theorem translated_writes {lang : PatternLanguage} {write : Char → List Char} (many : lang.Writes ['*'] [.many])
    (one : lang.Writes ['?'] [.anything]) (each : ∀ c, lang.Writes (write c) [.exactly c]) (p : List Char) :
    lang.Writes (p.flatMap fun c => if c = '%' then ['*'] else if c = '_' then ['?'] else write c)
      (p.map likePart) := by
  refine .flatMap (fun c => ?_) p
  unfold likePart
  by_cases percent : c = '%'
  · rw [if_pos percent, if_pos percent]
    exact many
  · by_cases underscore : c = '_'
    · rw [if_neg percent, if_pos underscore, if_neg percent, if_pos underscore]
      exact one
    · rw [if_neg percent, if_neg underscore, if_neg percent, if_neg underscore]
      exact each c

theorem likeToGlob_writes (p : List Char) : glob.Writes (likeToGlob p) (p.map likePart) := by
  have many : glob.Writes ['*'] [.many] := writes_many glob nofun
  have one : glob.Writes ['?'] [.anything] := writes_one glob nofun (by decide)
  exact translated_writes many one globEscapeChar_writes p

theorem likeToWildcard_writes (p : List Char) : wildcard.Writes (SearchEngine.likeToWildcard p) (p.map likePart) := by
  have many : wildcard.Writes ['*'] [.many] := writes_many wildcard (by decide)
  have one : wildcard.Writes ['?'] [.anything] := writes_one wildcard (by decide) (by decide)
  exact translated_writes many one wildcardEscapeChar_writes p

-- Both translations of a LIKE pattern match what it matches.
theorem translated_accepts (p t : List Char) :
    glob.accepts (likeToGlob p) t = (like none .ordinary).accepts p t ∧
      wildcard.accepts (SearchEngine.likeToWildcard p) t = (like none .ordinary).accepts p t := by
  have meant := (like_writes p).accepts t
  constructor
  · rw [(likeToGlob_writes p).accepts, meant]
  · rw [(likeToWildcard_writes p).accepts, meant]

example : glob.accepts (likeToGlob "[_]*%".toList) "[a]*".toList = true := by decide

-- The language of LIKE alone. SQLite's LIKE passes over letter case.
def Adapter.likeLanguage? : Adapter → Option PatternLanguage
  | postgres | cockroachDb | mySql => some (.like (some '\\') .ordinary)
  | msSql => some (.like none .classes)
  | sqlite | search => none

-- The language of the words between a column and its pattern. In a literal of MySQL the backslash would escape the
-- quote behind it.
def Adapter.wordedLanguage? (a : Adapter) (words : Template) : Option PatternLanguage :=
  if words = ⟨"", [" LIKE ", " ESCAPE '\\'"]⟩ then
    match a with
    | postgres | cockroachDb => some (.like (some '\\') .ordinary)
    | msSql => some (.like (some '\\') .classes)
    | mySql | sqlite | search => none
  else if words = ⟨"", [" GLOB ", ""]⟩ then
    match a with
    | sqlite => some .glob
    | postgres | cockroachDb | mySql | msSql | search => none
  else none

-- A prefix is taken as it is; letter case counts unless the query says otherwise.
def Clause.textTest? : Clause → Option (List Char → Bool)
  | .query (.obj [(kind, .obj [(_, .obj members)])]) =>
    match Json.lookup "value" members, (Json.lookup "case_insensitive" members).getD (.bool false) with
    | some (.str p), .bool false =>
      if kind = "prefix" then some p.toList.isPrefixOf
      else if kind = "wildcard" then some (PatternLanguage.wildcard.accepts p.toList)
      else none
    | _, _ => none
  | _ => none

-- Which texts of the column pass, for tests that compare all characters with a pattern.
def Adapter.textTest? (a : Adapter) : Predicate → Option (List Char → Bool)
  | .sql (.binary _ .like (.value (.string p))) => a.likeLanguage?.map (·.accepts p.toList)
  | .sql (.template words [_, .value (.string p)]) => (a.wordedLanguage? words).map (·.accepts p.toList)
  | .sql _ => none
  | .search clause => if a = .search then clause.textTest? else none

-- The operator gives a test of the column that just these texts pass.
def Adapter.Finds (a : Adapter) (f : Field) (options : ApplyOptions) (op : Operator) (s : String)
    (holds : List Char → Prop) : Prop :=
  ∃ p test, a.leaf f .string op (.pattern s) options = some p ∧ a.textTest? p = some test ∧
    ∀ t, test t = true ↔ holds t

-- Where LIKE itself will not do, its patterns are bound in translation.
theorem like_found (f : Field) (options : ApplyOptions) (s : String) :
    Adapter.sqlite.Finds f options .like s (fun t => (like none .ordinary).accepts s.toList t = true) ∧
      Adapter.search.Finds f options .like s (fun t => (like none .ordinary).accepts s.toList t = true) := by
  have meant := fun t => (like_writes s.toList).accepts t
  constructor
  · refine ⟨_, _, rfl, rfl, fun t => ?_⟩
    dsimp only
    rw [String.toList_ofList, (likeToGlob_writes s.toList).accepts, meant]
  · refine ⟨_, _, rfl, rfl, fun t => ?_⟩
    dsimp only
    rw [String.toList_ofList, (likeToWildcard_writes s.toList).accepts, meant]

-- The operators that look for a text, and where they look.
inductive Affix : Operator → (List Char → List Char → Prop) → Prop where
  | start : Affix .startsWith (· <+: ·)
  | last : Affix .endsWith (· <:+ ·)
  | within : Affix .includes (· <:+: ·)

variable {op : Operator} {holds : List Char → List Char → Prop} {s : List Char}

namespace Affix

theorem affixed_accepts {lang : PatternLanguage} {escaped any : List Char} (affix : Affix op holds)
    (written : lang.Writes escaped (s.map .exactly)) (many : lang.Writes any [.many]) :
    ∃ pattern, affixed escaped any op = some pattern ∧ ∀ t, lang.accepts pattern t = true ↔ holds s t := by
  cases affix with
  | start => exact ⟨_, rfl, fun t => by rw [(written.append many).accepts, accept_start]⟩
  | last => exact ⟨_, rfl, fun t => by rw [(many.append written).accepts, List.singleton_append, accept_end]⟩
  | within =>
    have around := (many.append written).append many
    exact ⟨_, rfl, fun t => by rw [around.accepts, List.singleton_append, accept_within]⟩

theorem matches_text (affix : Affix op holds) : isTextMatch op = true := by
  cases affix <;> rfl

theorem like_pattern (affix : Affix op holds) (brackets : Brackets) (s : List Char) {style : LikeStyle}
    (native : style ≠ .glob) :
    ∃ pattern, affixPattern op s style = some pattern ∧
      ∀ t, (like (some '\\') brackets).accepts pattern t = true ↔ holds s t := by
  have many : (like (some '\\') brackets).Writes ['%'] [.many] :=
    writes_many (like (some '\\') brackets) (by simp [like])
  have made := affix.affixed_accepts (likeEscape_writes brackets s) many
  cases style with
  | glob => exact absurd rfl native
  | native | lowered => exact made

theorem glob_pattern (affix : Affix op holds) (s : List Char) :
    ∃ pattern, affixPattern op s .glob = some pattern ∧ ∀ t, glob.accepts pattern t = true ↔ holds s t :=
  affix.affixed_accepts (globEscape_writes s) (writes_many glob nofun)

theorem built (affix : Affix op holds) (col : Expr) (s : String) {style : LikeStyle} {otherwise : Option Expr}
    (made : affixPattern op s.toList style = some pattern) :
    (if isTextMatch op then (Operand.pattern s).pattern?.bind fun p => textMatch col op p style
      else otherwise) = some (affixMatch col (textParam pattern) style) := by
  rw [if_pos affix.matches_text]
  show textMatch col op s style = _
  unfold textMatch
  rw [made]

-- What a backend of SQL binds is a pattern of its own language.
theorem finds_worded (affix : Affix op holds) {a : Adapter} {f : Field} {options : ApplyOptions} {s : String}
    {style : LikeStyle} {lang : PatternLanguage} {otherwise : Option Expr}
    (leaf : a.leaf f .string op (.pattern s) options =
      (if isTextMatch op then (Operand.pattern s).pattern?.bind fun p =>
        textMatch (options.column f) op p style else otherwise).map .sql)
    (spoken : ∀ pattern, a.textTest? (.sql (affixMatch (options.column f) (textParam pattern) style)) =
      some (lang.accepts (String.ofList pattern).toList))
    (found : ∃ pattern, affixPattern op s.toList style = some pattern ∧
      ∀ t, lang.accepts pattern t = true ↔ holds s.toList t) :
    a.Finds f options op s (holds s.toList) := by
  obtain ⟨pattern, made, accepted⟩ := found
  refine ⟨.sql (affixMatch (options.column f) (textParam pattern) style), _, ?_, spoken pattern, fun t => ?_⟩
  · rw [leaf, affix.built (options.column f) s made]
    rfl
  · rw [String.toList_ofList]
    exact accepted t

theorem finds_wildcard (affix : Affix op holds) {f : Field} {options : ApplyOptions} {s field : String}
    {pattern : List Char} (made : affixed (SearchEngine.wildcardEscape s.toList) ['*'] op = some pattern)
    (leaf : Adapter.search.leaf f .string op (.pattern s) options =
      some (.search (SearchEngine.wildcard field pattern false))) :
    Adapter.search.Finds f options op s (holds s.toList) := by
  have many : wildcard.Writes ['*'] [.many] := writes_many wildcard (by decide)
  obtain ⟨pattern', made', accepted⟩ := affix.affixed_accepts (wildcardEscape_writes s.toList) many
  obtain rfl : pattern' = pattern := Option.some.inj (made'.symm.trans made)
  refine ⟨_, _, leaf, rfl, fun t => ?_⟩
  rw [String.toList_ofList]
  exact accepted t

theorem finds (affix : Affix op holds) (a : Adapter) (f : Field) (options : ApplyOptions) (s : String) :
    a.Finds f options op s (holds s.toList) := by
  cases a with
  | postgres => exact affix.finds_worded rfl (fun _ => rfl) (affix.like_pattern .ordinary s.toList nofun)
  | cockroachDb => exact affix.finds_worded rfl (fun _ => rfl) (affix.like_pattern .ordinary s.toList nofun)
  | mySql => exact affix.finds_worded rfl (fun _ => rfl) (affix.like_pattern .ordinary s.toList nofun)
  | msSql => exact affix.finds_worded rfl (fun _ => rfl) (affix.like_pattern .classes s.toList nofun)
  | sqlite => exact affix.finds_worded rfl (fun _ => rfl) (affix.glob_pattern s.toList)
  | search =>
    cases affix with
    | start => exact ⟨_, _, rfl, rfl, fun _ => List.isPrefixOf_iff_prefix⟩
    | last => exact Affix.last.finds_wildcard rfl rfl
    | within => exact Affix.within.finds_wildcard rfl rfl

end Affix

-- In every backend a search string is found as it is: at the start, at the end or anywhere.
theorem affixes_found (a : Adapter) (f : Field) (options : ApplyOptions) (s : String) :
    a.Finds f options .startsWith s (s.toList <+: ·) ∧
    a.Finds f options .endsWith s (s.toList <:+ ·) ∧
    a.Finds f options .includes s (s.toList <:+: ·) :=
  ⟨Affix.start.finds a f options s, Affix.last.finds a f options s, Affix.within.finds a f options s⟩

end FilterQuery
