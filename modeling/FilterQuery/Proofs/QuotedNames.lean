import FilterQuery.Adapter.Comparison
import FilterQuery.Sql.Dialect

namespace FilterQuery

-- The name up to the first closing quote that stands alone, and what is behind that quote.
def unquote? (quote : Char) : List Char → Option (List Char × List Char)
  | [] => none
  | c :: rest =>
    if c = quote then
      match rest with
      | [] => some ([], [])
      | next :: after =>
        if next = quote then (unquote? quote after).map fun (name, after) => (quote :: name, after)
        else some ([], next :: after)
    else (unquote? quote rest).map fun (name, after) => (c :: name, after)

def Dialect.name? (d : Dialect) : List Char → Option (String × List Char)
  | [] => none
  | c :: rest =>
    if c = d.openQuote then (unquote? d.closeQuote rest).map fun (name, after) => (String.ofList name, after) else none

-- The key up to the first quote without a backslash, and what is behind it. A backslash stands before a quote or a
-- backslash only.
def unescape? : List Char → Option (List Char × List Char)
  | [] => none
  | '"' :: rest => some ([], rest)
  | '\\' :: '\\' :: rest => (unescape? rest).map fun (key, after) => ('\\' :: key, after)
  | '\\' :: '"' :: rest => (unescape? rest).map fun (key, after) => ('"' :: key, after)
  | '\\' :: _ => none
  | c :: rest => (unescape? rest).map fun (key, after) => (c :: key, after)

-- The member that a path addresses.
def jsonKey? : List Char → Option (String × List Char)
  | '$' :: '.' :: '"' :: rest => (unescape? rest).map fun (key, after) => (String.ofList key, after)
  | _ => none

section Names

variable {quote : Char} {text name rest : List Char}

theorem unquote_plain {c : Char} (other : c ≠ quote) :
    unquote? quote (c :: text) = (unquote? quote text).map fun (name, after) => (c :: name, after) :=
  (unquote?.eq_def quote (c :: text)).trans (if_neg other)

theorem unquote_twice :
    unquote? quote (quote :: quote :: text) =
      (unquote? quote text).map fun (name, after) => (quote :: name, after) := by
  rw [unquote?, if_pos rfl]
  exact if_pos rfl

theorem unquote_ended (alone : rest.head? ≠ some quote) : unquote? quote (quote :: rest) = some ([], rest) := by
  apply (unquote?.eq_def quote (quote :: rest)).trans
  apply (if_pos rfl).trans
  cases rest with
  | nil => rfl
  | cons next after => exact if_neg fun same => alone (congrArg some same)

theorem unquote_doubled (name : List Char) (alone : rest.head? ≠ some quote) :
    unquote? quote (replaceChar quote [quote, quote] name ++ quote :: rest) = some (name, rest) := by
  induction name with
  | nil => exact unquote_ended alone
  | cons c name ih =>
    by_cases same : c = quote
    · subst same
      simp only [replaceChar, List.flatMap_cons, if_true, List.cons_append, List.nil_append] at ih ⊢
      rw [unquote_twice, ih]
      rfl
    · simp only [replaceChar, List.flatMap_cons, if_neg same, List.cons_append, List.nil_append] at ih ⊢
      rw [unquote_plain same, ih]
      rfl

theorem unquote_read (found : unquote? quote text = some (name, rest)) :
    text = replaceChar quote [quote, quote] name ++ quote :: rest ∧ rest.head? ≠ some quote := by
  fun_induction unquote? quote text generalizing name rest with
  | case1 => cases found
  | case2 =>
    cases found
    exact ⟨rfl, nofun⟩
  | case3 after ih =>
    obtain ⟨⟨inner, later⟩, read, same⟩ := Option.map_eq_some_iff.mp found
    cases same
    obtain ⟨written, alone⟩ := ih read
    refine ⟨?_, alone⟩
    simp only [replaceChar, List.flatMap_cons, if_true] at written ⊢
    rw [written]
    rfl
  | case4 next after other =>
    cases found
    exact ⟨rfl, fun same => other (Option.some.inj same)⟩
  | case5 c text other ih =>
    obtain ⟨⟨inner, after⟩, read, same⟩ := Option.map_eq_some_iff.mp found
    cases same
    obtain ⟨written, alone⟩ := ih read
    refine ⟨?_, alone⟩
    simp only [replaceChar, List.flatMap_cons, if_neg other] at written ⊢
    rw [written]
    rfl

end Names

theorem Dialect.name_eq_some_iff (d : Dialect) (text rest : List Char) (ident : String) :
    d.name? text = some (ident, rest) ↔
      text = (d.quoteName ident).toList ++ rest ∧ rest.head? ≠ some d.closeQuote := by
  constructor
  · intro found
    cases text with
    | nil => cases found
    | cons c text =>
      by_cases opened : c = d.openQuote
      · rw [name?, if_pos opened] at found
        obtain ⟨⟨name, after⟩, read, same⟩ := Option.map_eq_some_iff.mp found
        cases same
        obtain ⟨written, alone⟩ := unquote_read read
        refine ⟨?_, alone⟩
        rw [opened, written, quoteName]
        simp
      · rw [name?, if_neg opened] at found
        cases found
  · intro ⟨written, alone⟩
    have inner := unquote_doubled ident.toList alone
    rw [written, quoteName, String.toList_ofList]
    simp only [List.cons_append, List.append_assoc, List.nil_append, name?, if_true, inner]
    simp

section Keys

variable {text key rest : List Char} {c : Char}

theorem unescape_plain (backslash : c ≠ '\\') (quote : c ≠ '"') :
    unescape? (c :: text) = (unescape? text).map fun (key, after) => (c :: key, after) := by
  rw [unescape?]
  · exact quote
  · exact fun _ same _ => backslash same
  · exact fun _ same _ => backslash same
  · exact backslash

theorem unescape_escaped (key rest : List Char) : unescape? (jsonKeyChars key ++ '"' :: rest) = some (key, rest) := by
  induction key with
  | nil => rfl
  | cons c key ih =>
    by_cases backslash : c = '\\'
    · subst backslash
      simpa [jsonKeyChars, unescape?] using ih
    · by_cases quote : c = '"'
      · subst quote
        simpa [jsonKeyChars, unescape?] using ih
      · have plain : jsonKeyChars (c :: key) = c :: jsonKeyChars key := by simp [jsonKeyChars, backslash, quote]
        rw [plain, List.cons_append, unescape_plain backslash quote, ih]
        rfl

theorem unescape_read (found : unescape? text = some (key, rest)) : text = jsonKeyChars key ++ '"' :: rest := by
  fun_induction unescape? text generalizing key rest with
  | case1 => cases found
  | case2 after =>
    cases found
    rfl
  | case3 text ih =>
    obtain ⟨⟨inner, after⟩, read, same⟩ := Option.map_eq_some_iff.mp found
    cases same
    rw [ih read]
    rfl
  | case4 text ih =>
    obtain ⟨⟨inner, after⟩, read, same⟩ := Option.map_eq_some_iff.mp found
    cases same
    rw [ih read]
    rfl
  | case5 => cases found
  | case6 c text quote twice escaped backslash ih =>
    obtain ⟨⟨inner, after⟩, read, same⟩ := Option.map_eq_some_iff.mp found
    cases same
    have plain : ¬(c = '\\' ∨ c = '"') := not_or.mpr ⟨backslash, quote⟩
    rw [ih read]
    simp [jsonKeyChars, plain]

end Keys

theorem jsonKey_eq_some_iff (text rest : List Char) (key : String) :
    jsonKey? text = some (key, rest) ↔ text = (jsonPath key).toList ++ rest := by
  constructor
  · intro found
    unfold jsonKey? at found
    split at found
    · obtain ⟨⟨inner, after⟩, read, same⟩ := Option.map_eq_some_iff.mp found
      cases same
      rw [unescape_read read]
      simp [jsonPath]
    · cases found
  · intro written
    have inner := unescape_escaped key.toList rest
    rw [written, jsonPath, String.toList_ofList]
    simp [jsonKey?, inner]

-- The escapes one after the other: backslashes first, or those of the quotes were doubled too.
theorem jsonKeyChars_replaced (key : List Char) :
    jsonKeyChars key = replaceChar '"' ['\\', '"'] (replaceChar '\\' ['\\', '\\'] key) := by
  unfold jsonKeyChars replaceChar
  rw [List.flatMap_assoc]
  apply congrArg (key.flatMap ·)
  funext c
  by_cases backslash : c = '\\'
  · subst backslash
    rfl
  · by_cases quote : c = '"' <;> simp [backslash, quote]

example : unescape? (replaceChar '\\' ['\\', '\\'] (replaceChar '"' ['\\', '"'] ['"', 'a']) ++ ['"']) =
    some (['\\'], ['a', '"']) := by
  rfl

theorem Dialect.quoteName_inj (d : Dialect) (ident other : String) :
    d.quoteName ident = d.quoteName other ↔ ident = other := by
  refine ⟨fun same => ?_, congrArg _⟩
  have own := (d.name_eq_some_iff _ [] ident).mpr ⟨rfl, nofun⟩
  have read := (d.name_eq_some_iff _ [] other).mpr ⟨rfl, nofun⟩
  rw [same, read] at own
  cases own
  rfl

theorem jsonPath_inj (key other : String) : jsonPath key = jsonPath other ↔ key = other := by
  refine ⟨fun same => ?_, congrArg _⟩
  have own := (jsonKey_eq_some_iff _ [] key).mpr rfl
  have read := (jsonKey_eq_some_iff _ [] other).mpr rfl
  rw [same, read] at own
  cases own
  rfl

theorem quoted_texts_decode :
    (∀ (d : Dialect) (text rest : List Char) (ident : String), d.name? text = some (ident, rest) ↔
      text = (d.quoteName ident).toList ++ rest ∧ rest.head? ≠ some d.closeQuote) ∧
    (∀ (text rest : List Char) (key : String),
      jsonKey? text = some (key, rest) ↔ text = (jsonPath key).toList ++ rest) ∧
    (∀ (d : Dialect) (ident other : String), d.quoteName ident = d.quoteName other ↔ ident = other) ∧
    ∀ key other : String, jsonPath key = jsonPath other ↔ key = other :=
  ⟨Dialect.name_eq_some_iff, jsonKey_eq_some_iff, Dialect.quoteName_inj, jsonPath_inj⟩

end FilterQuery
