import FilterQuery.Order
import FilterQuery.Proofs.RouteParts
import FilterQuery.Proofs.TypeNames
import Mathlib.Data.List.Forall2

namespace FilterQuery

def directionWord : Direction → Nulls → String
  | .asc, .default => "asc"
  | .desc, .default => "desc"
  | .asc, .first => "asc_nulls_first"
  | .asc, .last => "asc_nulls_last"
  | .desc, .first => "desc_nulls_first"
  | .desc, .last => "desc_nulls_last"

-- Blanks may stand around the word and colons right before it, and its letters may be of either case.
def Directs (token : String) (direction : Direction) (nulls : Nulls) : Prop :=
  ∃ before colons word after, token.toList = before ++ (colons ++ word ++ after) ∧ (∀ c ∈ before, isBlank c = true) ∧
    (∀ c ∈ colons, c = ':') ∧ (∀ c ∈ after, isBlank c = true) ∧
    lowerAscii word = (directionWord direction nulls).toList

section Tokens

variable {direction : Direction} {nulls : Nulls} {token : String} {word : List Char}

theorem directionWord_letters (direction : Direction) (nulls : Nulls) :
    ∀ c ∈ (directionWord direction nulls).toList, isBlank c = false ∧ c ≠ ':' := by
  cases direction <;> cases nulls <;> simp [directionWord, isBlank]

theorem letters_of_lowered (lowered : lowerAscii word = (directionWord direction nulls).toList) :
    ∀ c ∈ word, isBlank c = false ∧ c ≠ ':' := by
  intro c member
  have letter := directionWord_letters direction nulls c.toLower (lowered ▸ List.mem_map_of_mem member)
  refine ⟨isBlank_toLower c ▸ letter.1, ?_⟩
  rintro rfl
  exact letter.2 (by decide)

theorem readDirection?_word : readDirection? token = some (direction, nulls) ↔
    lowerAscii ((trim token.toList).dropWhile (· == ':')) = (directionWord direction nulls).toList := by
  rw [← String.toList_ofList (l := lowerAscii ((trim token.toList).dropWhile (· == ':'))), String.toList_inj]
  unfold readDirection?
  generalize String.ofList (lowerAscii ((trim token.toList).dropWhile (· == ':'))) = word
  constructor
  · intro read
    split at read <;> cases read <;> rfl
  · rintro rfl
    cases direction <;> cases nulls <;> rfl

theorem readDirection?_eq_some_iff : readDirection? token = some (direction, nulls) ↔ Directs token direction nulls := by
  rw [readDirection?_word]
  constructor
  · intro lowered
    obtain ⟨before, after, split, blank, blank'⟩ := trim_parts token.toList
    refine ⟨before, (trim token.toList).takeWhile (· == ':'), (trim token.toList).dropWhile (· == ':'), after, ?_, blank,
      ?_, blank', lowered⟩
    · rwa [List.takeWhile_append_dropWhile]
    · intro c member
      simpa using List.mem_takeWhile_imp member
  · rintro ⟨before, colons, word, after, split, blank, colon, blank', lowered⟩
    have letters := letters_of_lowered lowered
    have solid : ∀ c ∈ colons ++ word, isBlank c = false := by
      intro c member
      rcases List.mem_append.mp member with first | later
      · rw [colon c first]
        decide
      · exact (letters c later).1
    have core : trim token.toList = colons ++ word := by
      rw [split, ← List.append_assoc, trim_padded blank blank', trim_solid solid]
    have rest : word.dropWhile (· == ':') = word := by
      cases word with
      | nil => rfl
      | cons c later => exact List.dropWhile_cons_of_neg (by simpa using (letters c List.mem_cons_self).2)
    rw [core, List.dropWhile_append_of_pos (by simpa using colon), rest, lowered]

theorem directs_directionWord (direction : Direction) (nulls : Nulls) :
    Directs (directionWord direction nulls) direction nulls :=
  ⟨[], [], (directionWord direction nulls).toList, [], by simp, nofun, nofun, nofun, by
    cases direction <;> cases nulls <;> decide⟩

end Tokens

-- A text of a document and the keys that lead to it.
abbrev KeyedText := List String × String

def KeyedText.beneath (keys : List String) (entry : KeyedText) : KeyedText := (keys ++ entry.1, entry.2)

namespace Json

mutual
-- In the order of the document. The items of a list have no keys of their own.
def texts : Json → List KeyedText
  | .str text => [([], text)]
  | .arr items => itemTexts items
  | .obj members => memberTexts members
  | _ => []

def itemTexts : List Json → List KeyedText
  | [] => []
  | item :: rest => item.texts ++ itemTexts rest

def memberTexts : List (String × Json) → List KeyedText
  | [] => []
  | (key, value) :: rest => value.texts.map (.beneath [key]) ++ memberTexts rest
end

-- Neither an object nor a direction.
structure Undirected (value : Json) : Prop where
  flat : ∀ members, value ≠ .obj members
  unread : ∀ token direction nulls, value = .str token → ¬Directs token direction nulls

-- Somewhere an item of a list is no object, or a value under a key neither an object nor a direction.
inductive Spoiled : Json → Prop where
  | item {item : Json} {items : List Json} (among : item ∈ items) (flat : ∀ members, item ≠ .obj members) :
      Spoiled (.arr items)
  | inItem {item : Json} {items : List Json} (among : item ∈ items) (spoiled : Spoiled item) : Spoiled (.arr items)
  | value {key : String} {value : Json} {members : List (String × Json)} (among : (key, value) ∈ members)
      (undirected : Undirected value) : Spoiled (.obj members)
  | inValue {key : String} {value : Json} {members : List (String × Json)} (among : (key, value) ∈ members)
      (spoiled : Spoiled value) : Spoiled (.obj members)

variable {item value : Json} {items rest : List Json} {key token : String} {members others : List (String × Json)}

theorem not_spoiled_empty : ¬Spoiled (.obj []) := by
  rintro (_ | _ | ⟨among, _⟩ | ⟨among, _⟩) <;> cases among

theorem not_spoiled_none : ¬Spoiled (.arr []) := by
  rintro (⟨among, _⟩ | ⟨among, _⟩ | _ | _) <;> cases among

theorem spoiled_members : Spoiled (.obj ((key, value) :: others)) ↔
    (Undirected value ∨ Spoiled value) ∨ Spoiled (.obj others) := by
  constructor
  · rintro (_ | _ | ⟨among, undirected⟩ | ⟨among, spoiled⟩)
    · rcases List.mem_cons.mp among with same | later
      · cases same
        exact .inl (.inl undirected)
      · exact .inr (.value later undirected)
    · rcases List.mem_cons.mp among with same | later
      · cases same
        exact .inl (.inr spoiled)
      · exact .inr (.inValue later spoiled)
  · rintro ((undirected | spoiled) | later)
    · exact .value List.mem_cons_self undirected
    · exact .inValue List.mem_cons_self spoiled
    · cases later with
      | value among undirected => exact .value (List.mem_cons_of_mem _ among) undirected
      | inValue among spoiled => exact .inValue (List.mem_cons_of_mem _ among) spoiled

theorem spoiled_items : Spoiled (.arr (item :: rest)) ↔
    ((∀ members, item ≠ .obj members) ∨ Spoiled item) ∨ Spoiled (.arr rest) := by
  constructor
  · rintro (⟨among, flat⟩ | ⟨among, spoiled⟩ | _ | _)
    · rcases List.mem_cons.mp among with rfl | later
      · exact .inl (.inl flat)
      · exact .inr (.item later flat)
    · rcases List.mem_cons.mp among with rfl | later
      · exact .inl (.inr spoiled)
      · exact .inr (.inItem later spoiled)
  · rintro ((flat | spoiled) | later)
    · exact .item List.mem_cons_self flat
    · exact .inItem List.mem_cons_self spoiled
    · cases later with
      | item among flat => exact .item (List.mem_cons_of_mem _ among) flat
      | inItem among spoiled => exact .inItem (List.mem_cons_of_mem _ among) spoiled

end Json

namespace OrderTerm
open Json

-- The term says what the text under its keys says.
structure Written (entry : KeyedText) (t : OrderTerm) : Prop where
  keyed : entry.1 ≠ []
  path : t.path.segments = entry.1
  word : Directs entry.2 t.direction t.nulls

-- A reader gives the terms of the texts there are, or finds fault with what is spoiled.
inductive Outcome (entries : List KeyedText) (spoiled : Prop) : Except FilterError (List OrderTerm) → Prop where
  | read {terms : List OrderTerm} (sound : ¬spoiled) (written : List.Forall₂ Written entries terms) :
      Outcome entries spoiled (.ok terms)
  | refused (fault : MalformedFault) (bad : spoiled) : Outcome entries spoiled (.error (.malformedFilter fault))

variable {entries later : List KeyedText} {spoiled spoiled' : Prop} {terms : List OrderTerm}
  {first second result : Except FilterError (List OrderTerm)}

theorem Outcome.append (here : Outcome entries spoiled first) (there : Outcome later spoiled' second) :
    Outcome (entries ++ later) (spoiled ∨ spoiled') (do
      let terms ← first
      let others ← second
      pure (terms ++ others)) := by
  cases here with
  | refused fault bad => exact .refused fault (.inl bad)
  | read sound written =>
    cases there with
    | refused fault bad => exact .refused fault (.inr bad)
    | read sound' written' => exact .read (not_or.mpr ⟨sound, sound'⟩) (List.rel_append written written')

theorem Outcome.written (outcome : Outcome entries spoiled (.ok terms)) : List.Forall₂ Written entries terms := by
  cases outcome with
  | read _ written => exact written

theorem Outcome.refusal (outcome : Outcome entries spoiled result) (bad : spoiled) :
    ∃ fault, result = .error (.malformedFilter fault) := by
  cases outcome with
  | read sound _ => exact absurd bad sound
  | refused fault _ => exact ⟨fault, rfl⟩

theorem Outcome.reading (outcome : Outcome entries spoiled result) (sound : ¬spoiled) :
    ∃ terms, result = .ok terms := by
  cases outcome with
  | @read terms _ _ => exact ⟨terms, rfl⟩
  | refused _ bad => exact absurd bad sound

theorem ofToken_outcome {path : FieldPath} (rooted : path.segments ≠ []) (token : String) :
    Outcome [(path.segments, token)] (Undirected (.str token) ∨ Spoiled (.str token)) (ofToken path token) := by
  unfold ofToken
  split
  · rename_i direction nulls read
    have word := readDirection?_eq_some_iff.mp read
    refine .read (not_or.mpr ⟨?_, nofun⟩) (.cons ⟨rooted, rfl, word⟩ .nil)
    exact fun undirected => undirected.unread token direction nulls rfl word
  · rename_i unread
    refine .refused _ (.inl ⟨nofun, ?_⟩)
    rintro _ direction nulls ⟨⟩ word
    cases unread.symm.trans (readDirection?_eq_some_iff.mpr word)

mutual
-- The induction is on the document. The path has all keys above, so none of its terms is without one.
theorem ofJson_outcome (path : FieldPath) (rooted : path.segments ≠ []) (value : Json) :
    Outcome (value.texts.map (.beneath path.segments)) (Undirected value ∨ Spoiled value) (ofJson path value) := by
  cases value with
  | str token =>
    have outcome := ofToken_outcome rooted token
    rw [ofJson, texts, List.map_singleton, KeyedText.beneath, List.append_nil]
    exact outcome
  | obj members =>
    have outcome := ofMembers_outcome path members
    have directed : ¬Undirected (.obj members) := fun undirected => undirected.flat members rfl
    rw [ofJson, texts, or_iff_right directed]
    exact outcome
  | null | bool | num | arr => exact .refused _ (.inl ⟨nofun, nofun⟩)

theorem ofMembers_outcome (path : FieldPath) (members : List (String × Json)) :
    Outcome ((memberTexts members).map (.beneath path.segments)) (Spoiled (.obj members)) (ofMembers path members) := by
  cases members with
  | nil => exact .read not_spoiled_empty .nil
  | cons member rest =>
    obtain ⟨key, value⟩ := member
    have rooted : (path.child key).segments ≠ [] := by simp [FieldPath.child]
    have here := ofJson_outcome _ rooted value
    have there := ofMembers_outcome path rest
    have keys : (memberTexts ((key, value) :: rest)).map (KeyedText.beneath path.segments) =
        value.texts.map (KeyedText.beneath (path.child key).segments) ++
          (memberTexts rest).map (KeyedText.beneath path.segments) := by
      simp [memberTexts, FieldPath.child, KeyedText.beneath]
    rw [ofMembers, keys, spoiled_members]
    exact here.append there
end

theorem memberTexts_rooted (members : List (String × Json)) :
    (memberTexts members).map (.beneath FieldPath.empty.segments) = memberTexts members :=
  List.map_id _

theorem ofItems_outcome (items : List Json) : Outcome (itemTexts items) (Spoiled (.arr items)) (ofItems items) := by
  induction items with
  | nil => exact .read not_spoiled_none .nil
  | cons item rest ih =>
    rw [spoiled_items]
    cases item with
    | obj members =>
      have here := ofMembers_outcome .empty members
      have shaped : ¬∀ inner, Json.obj members ≠ .obj inner := fun flat => flat members rfl
      rw [memberTexts_rooted] at here
      rw [or_iff_right shaped, itemTexts, texts, ofItems]
      exact here.append ih
    | null | bool | num | str | arr => exact .refused _ (.inl (.inl nofun))

-- What can hold an order: nothing, a list of terms or one object.
def Holds (payload : Json) : Prop := payload = .null ∨ (∃ items, payload = .arr items) ∨ ∃ members, payload = .obj members

theorem ofPayload_outcome (payload : Json) : Outcome payload.texts (¬Holds payload ∨ Spoiled payload) (ofPayload payload) := by
  cases payload with
  | null => exact .read (not_or.mpr ⟨not_not.mpr (.inl rfl), nofun⟩) .nil
  | arr items =>
    rw [or_iff_right (not_not.mpr (.inr (.inl ⟨items, rfl⟩))), texts]
    exact ofItems_outcome items
  | obj members =>
    have outcome := ofMembers_outcome .empty members
    rw [memberTexts_rooted] at outcome
    rw [or_iff_right (not_not.mpr (.inr (.inr ⟨members, rfl⟩))), texts]
    exact outcome
  | bool | num | str => exact .refused _ (.inl (by simp [Holds]))

section Spelling

-- Objects of one member, the innermost with the direction.
def nested (value : Json) : List String → Json
  | [] => value
  | key :: rest => .single key (nested value rest)

def toJson (t : OrderTerm) : Json := nested (.str (directionWord t.direction t.nulls)) t.path.segments

def toPayload (terms : List OrderTerm) : Json := .arr (terms.map toJson)

theorem ofMembers_single (path : FieldPath) (key : String) (value : Json) :
    ofMembers path [(key, value)] = ofJson (path.child key) value := by
  rw [ofMembers, ofMembers]
  cases ofJson (path.child key) value with
  | error fault => rfl
  | ok terms => exact congrArg Except.ok (List.append_nil terms)

theorem ofJson_nested (value : Json) (keys : List String) (path : FieldPath) :
    ofJson path (nested value keys) = ofJson (path.append ⟨keys⟩) value := by
  induction keys generalizing path with
  | nil => simp [nested, FieldPath.append]
  | cons key rest ih =>
    rw [nested, Json.single, ofJson, ofMembers_single, ih]
    simp [FieldPath.append, FieldPath.child]

theorem ofItems_toJson {terms : List OrderTerm} (rooted : ∀ t ∈ terms, t.path.segments ≠ []) :
    ofItems (terms.map toJson) = .ok terms := by
  induction terms with
  | nil => rfl
  | cons t rest ih =>
    obtain ⟨⟨keys⟩, direction, nulls⟩ := t
    obtain ⟨here, later⟩ := List.forall_mem_cons.mp rooted
    obtain ⟨key, keys, rfl⟩ := List.exists_cons_of_ne_nil here
    have read : readDirection? (directionWord direction nulls) = some (direction, nulls) :=
      readDirection?_eq_some_iff.mpr (directs_directionWord direction nulls)
    have one : ofMembers .empty [(key, nested (.str (directionWord direction nulls)) keys)] =
        .ok [⟨⟨key :: keys⟩, direction, nulls⟩] := by
      rw [ofMembers_single, ofJson_nested, ofJson, ofToken, read]
      rfl
    rw [List.map_cons, toJson, nested, Json.single, ofItems, one, ih later]
    rfl

end Spelling

-- Every order has a payload, every accepted payload an order, and what is accepted is told by the payload alone.
theorem payloads_exact :
    (∀ terms : List OrderTerm, (∀ t ∈ terms, t.path.segments ≠ []) → ofPayload (toPayload terms) = .ok terms) ∧
    (∀ (payload : Json) (terms : List OrderTerm), ofPayload payload = .ok terms →
      List.Forall₂ Written payload.texts terms) ∧
    (∀ payload : Json, Spoiled payload → ∃ fault, ofPayload payload = .error (.malformedFilter fault)) ∧
    ∀ payload : Json, Holds payload → ¬Spoiled payload → ∃ terms, ofPayload payload = .ok terms := by
  refine ⟨fun terms rooted => ofItems_toJson rooted, ?_, ?_, ?_⟩
  · intro payload terms read
    exact (read ▸ ofPayload_outcome payload).written
  · intro payload spoiled
    exact (ofPayload_outcome payload).refusal (.inr spoiled)
  · intro payload holds sound
    exact (ofPayload_outcome payload).reading (not_or.mpr ⟨not_not.mpr holds, sound⟩)

theorem samplePayloads_read :
    ((∀ t ∈ [(⟨⟨["team", "name"]⟩, .asc, .first⟩ : OrderTerm), ⟨⟨[""]⟩, .desc, .default⟩], t.path.segments ≠ []) ∧
      ofPayload (toPayload [⟨⟨["team", "name"]⟩, .asc, .first⟩, ⟨⟨[""]⟩, .desc, .default⟩]) =
        .ok [⟨⟨["team", "name"]⟩, .asc, .first⟩, ⟨⟨[""]⟩, .desc, .default⟩]) ∧
    (ofPayload (.obj [("team", .obj [("name", .str " :DESC"), ("size", .str "asc_nulls_last")]), ("id", .str "asc")]) =
        .ok [⟨⟨["team", "name"]⟩, .desc, .default⟩, ⟨⟨["team", "size"]⟩, .asc, .last⟩, ⟨⟨["id"]⟩, .asc, .default⟩] ∧
      List.Forall₂ Written [(["team", "name"], " :DESC"), (["team", "size"], "asc_nulls_last"), (["id"], "asc")]
        [⟨⟨["team", "name"]⟩, .desc, .default⟩, ⟨⟨["team", "size"]⟩, .asc, .last⟩, ⟨⟨["id"]⟩, .asc, .default⟩]) ∧
    (Spoiled (.arr [.single "id" (.str "asc"), .single "team" (.single "name" (.arr []))]) ∧
      ∃ fault, ofPayload (.arr [.single "id" (.str "asc"), .single "team" (.single "name" (.arr []))]) =
        .error (.malformedFilter fault)) ∧
    Holds (.arr []) ∧ ¬Spoiled (.arr []) ∧ ∃ terms, ofPayload (.arr []) = .ok terms := by
  have rooted : ∀ t ∈ [(⟨⟨["team", "name"]⟩, .asc, .first⟩ : OrderTerm), ⟨⟨[""]⟩, .desc, .default⟩],
      t.path.segments ≠ [] := by decide
  have read : ofPayload (.obj [("team", .obj [("name", .str " :DESC"), ("size", .str "asc_nulls_last")]),
      ("id", .str "asc")]) =
      .ok [⟨⟨["team", "name"]⟩, .desc, .default⟩, ⟨⟨["team", "size"]⟩, .asc, .last⟩, ⟨⟨["id"]⟩, .asc, .default⟩] := by rfl
  have spoiled : Spoiled (.arr [.single "id" (.str "asc"), .single "team" (.single "name" (.arr []))]) :=
    .inItem (List.mem_cons_of_mem _ List.mem_cons_self)
      (.inValue List.mem_cons_self (.value List.mem_cons_self ⟨nofun, nofun⟩))
  have holds : Holds (.arr []) := .inr (.inl ⟨[], rfl⟩)
  exact ⟨⟨rooted, payloads_exact.1 _ rooted⟩, ⟨read, payloads_exact.2.1 _ _ read⟩,
    ⟨spoiled, payloads_exact.2.2.1 _ spoiled⟩, holds, not_spoiled_none, payloads_exact.2.2.2 _ holds not_spoiled_none⟩

end OrderTerm

end FilterQuery
