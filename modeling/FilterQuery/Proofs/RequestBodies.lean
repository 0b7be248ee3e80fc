import FilterQuery.Proofs.RelatedRows

namespace FilterQuery

namespace Json

-- The kinds of query that the engine takes apart.
def isComposed : Json → Bool
  | obj [(kind, _)] => ["match_all", "match_none", "bool", "nested"].contains kind
  | _ => false

-- How many members of the section should have to match. Where none is said, one has to when nothing else
-- narrows the query.
def leastShould (sections : List (String × Json)) : Nat :=
  match lookup "minimum_should_match" sections with
  | some (num (.int n)) => n.toNat
  | _ => if (lookup "filter" sections).isSome || (lookup "must" sections).isSome then 0 else 1

end Json

-- What a section of a bool query asks of the answers of its members.
def meetsSection (name : String) (least : Nat) (answers : List Bool) : Bool :=
  match name with
  | "filter" | "must" => answers.all id
  | "must_not" => answers.all (!·)
  | "should" => least ≤ answers.count true
  | _ => true

namespace Database

mutual
-- Whether the document matches the query.
def meets (d : Database) (doc : d.Row) : Json → Bool
  | .obj [(kind, body)] =>
    match kind with
    | "match_all" => true
    | "match_none" => false
    | "bool" => d.meetsBool doc body
    | "nested" => d.meetsNested doc body
    | _ => d.query doc (.obj [(kind, body)])
  | body => d.query doc body

def meetsBool (d : Database) (doc : d.Row) : Json → Bool
  | .obj sections => d.meetsSections doc (Json.leastShould sections) sections
  | _ => false

def meetsSections (d : Database) (doc : d.Row) (least : Nat) : List (String × Json) → Bool
  | [] => true
  | (name, body) :: rest => meetsSection name least (d.answers doc body) && d.meetsSections doc least rest

-- One query may stand for a list of one.
def answers (d : Database) (doc : d.Row) : Json → List Bool
  | .arr items => d.answersEach doc items
  | body => [d.meets doc body]

def answersEach (d : Database) (doc : d.Row) : List Json → List Bool
  | [] => []
  | body :: rest => d.meets doc body :: d.answersEach doc rest

-- Some embedded document at the path matches.
def meetsNested (d : Database) (doc : d.Row) : Json → Bool
  | .obj members =>
    match (Json.lookup "path" members).bind Json.text? with
    | some path => (d.nested doc path).any fun embedded => d.meetsMember embedded "query" members
    | none => false
  | _ => false

def meetsMember (d : Database) (doc : d.Row) (key : String) : List (String × Json) → Bool
  | [] => false
  | (k, body) :: rest => if k = key then d.meets doc body else d.meetsMember doc key rest
end

-- The same documents, asked what the engine makes of a whole query.
abbrev answering (d : Database) : Database := { d with query := d.meets }

theorem meets_uncomposed (d : Database) (doc : d.Row) {body : Json} (own : body.isComposed = false) :
    d.meets doc body = d.query doc body := by
  unfold meets
  split
  · rename_i kind inner
    split <;> first | rfl | cases own
  · rfl

theorem answersEach_eq_map (d : Database) (doc : d.Row) (items : List Json) :
    d.answersEach doc items = items.map (d.meets doc) := by
  induction items with
  | nil => rw [answersEach, List.map_nil]
  | cons body rest ih => rw [answersEach, ih, List.map_cons]

end Database

theorem Truth.ofBool_inj {a b : Bool} : ofBool a = ofBool b ↔ a = b := by
  cases a <;> cases b <;> simp [ofBool]

namespace Connective

theorem fold_all (answers : List Bool) : and.fold (answers.map Truth.ofBool) = .ofBool (answers.all id) := by
  induction answers with
  | nil => rfl
  | cons b rest ih =>
    rw [List.map_cons, fold_cons, ih, List.all_cons]
    cases b <;> cases rest.all id <;> rfl

theorem fold_any (answers : List Bool) : or.fold (answers.map Truth.ofBool) = .ofBool (answers.any id) := by
  induction answers with
  | nil => rfl
  | cons b rest ih =>
    rw [List.map_cons, fold_cons, ih, List.any_cons]
    cases b <;> cases rest.any id <;> rfl

end Connective

theorem meetsSection_least (least : Nat) (answers : List Bool) :
    meetsSection "minimum_should_match" least answers = true := rfl

theorem meetsSection_should (answers : List Bool) : meetsSection "should" 1 answers = answers.any id := by
  rw [Bool.eq_iff_iff]
  simp [meetsSection, List.one_le_count_iff]

namespace Clause
open Database

variable (d : Database)

mutual
theorem meets_toJson (doc : d.Row) (c : Clause) : .ofBool (d.meets doc c.toJson) = c.truthOn d.answering doc := by
  cases c with
  | constant b => cases b <;> simp [toJson, Json.single, meets, truthOn]
  | query body => simp [toJson, truthOn]
  | and members =>
    rw [truthOn, ← meets_listToJson doc members, Connective.fold_all]
    simp [toJson, Json.single, meets, meetsBool, meetsSections, meetsSection, answers, answersEach_eq_map]
  | or members =>
    have least : Json.leastShould [("should", .arr (listToJson members)), ("minimum_should_match", .int 1)] = 1 := rfl
    rw [truthOn, ← meets_listToJson doc members, Connective.fold_any, ← meetsSection_should]
    simp [toJson, Json.single, meets, meetsBool, meetsSections, meetsSection_least, least, answers, answersEach_eq_map]
  | not c =>
    rw [truthOn, ← meets_toJson doc c, Truth.not_ofBool]
    simp [toJson, Json.single, meets, meetsBool, meetsSections, meetsSection, answers, answersEach_eq_map]
  | nested path c =>
    have inner : ∀ embedded, decide (c.truthOn d.answering embedded = .true) = d.meets embedded c.toJson := by
      intro embedded
      rw [← meets_toJson embedded c]
      simp
    rw [truthOn]
    simp [toJson, Json.single, meets, meetsNested, meetsMember, Json.lookup, Json.text?, inner, answering]

theorem meets_listToJson (doc : d.Row) (members : List Clause) :
    ((listToJson members).map (d.meets doc)).map Truth.ofBool = truthsOn d.answering doc members := by
  cases members with
  | nil => rfl
  | cons c rest =>
    rw [listToJson, truthsOn, List.map_cons, List.map_cons, meets_toJson doc c, meets_listToJson doc rest]
end

theorem fold_andFilter (doc : d.Row) (filters added : List Clause) :
    Connective.and.fold ((filters ++ added.flatMap conjuncts).map (truthOn d doc)) =
      Connective.and.fold ((filters ++ added).map (truthOn d doc)) := by
  have kept : ∀ c : Clause, Connective.and.fold (c.conjuncts.map (truthOn d doc)) = c.truthOn d doc := by
    intro c
    rw [← truth_valuation, ← truth_conjuncts, List.map_congr_left fun c _ => truth_valuation d doc c]
  rw [List.map_append, List.map_append, Connective.fold_append, Connective.fold_append,
    Connective.fold_flatMap .and _ _ kept]

theorem truthOn_all (doc : d.Row) (members : List Clause) :
    (all members).truthOn d doc = Connective.and.fold (members.map (truthOn d doc)) := by
  rw [← truth_valuation, truth_all, Connective.value_and, List.map_congr_left fun c _ => truth_valuation d doc c]

end Clause

namespace SearchRequest

theorem foldl_andFilter (r : SearchRequest) (added : List Clause) :
    added.foldl andFilter r = { r with filters := r.filters ++ added.flatMap Clause.conjuncts } := by
  induction added generalizing r with
  | nil => simp
  | cons c rest ih => simp only [List.foldl_cons, ih, andFilter, List.flatMap_cons, List.append_assoc]

theorem body_query (r : SearchRequest) : r.body.get? "query" = some r.filterClause.toJson := by
  simp [body, Json.get?, Json.lookup]

-- A document matches the query of the body exactly when it meets the filters the request had and all that were
-- added, in whatever order the page and the sort were set. Leaves are what the engine makes of them, and a leaf
-- that the engine does not take apart is a test of its own.
theorem body_meets (r : SearchRequest) (added : List Clause) (sort : List Json) (from? size? : Option Nat) :
    ∃ query, (added.foldl andFilter r).body.get? "query" = some query ∧
      { added.foldl andFilter r with sort, from?, size? }.body.get? "query" = some query ∧
      ∀ (d : Database) (doc : d.Row),
        .ofBool (d.meets doc query) = Connective.and.fold ((r.filters ++ added).map (Clause.truthOn d.answering doc)) ∧
        ∀ leaf : Json, leaf.isComposed = false → d.answering.query doc leaf = d.query doc leaf := by
  refine ⟨(added.foldl andFilter r).filterClause.toJson, body_query _, body_query _, ?_⟩
  intro d doc
  refine ⟨?_, fun leaf own => d.meets_uncomposed doc own⟩
  rw [Clause.meets_toJson, filterClause, Clause.truthOn_all, foldl_andFilter, Clause.fold_andFilter]

end SearchRequest

def loud : Json := .single "term" (.single "tracks.loud" (.bool true))

-- Albums without a loud track.
def quiet : Clause := .not (.nested "tracks" (.query loud))

-- Two albums, one with a loud track among its two, and the tracks.
inductive Pressing where
  | live
  | blank
  | track (loud : Bool)

def pressed : Database where
  Row := Pressing
  test _ _ := .true
  definite := by simp
  rows _ _ := []
  query
    | .track b, _ => b
    | _, _ => false
  nested
    | .live, _ => [.track false, .track true]
    | _, _ => []

theorem quiet_meets : loud.isComposed = false ∧ ∃ query,
    { (SearchRequest.new "albums").andFilter quiet with from? := some 20 }.body.get? "query" = some query ∧
      pressed.meets Pressing.live query = false ∧ pressed.meets Pressing.blank query = true := by
  have own : loud.isComposed = false := by decide
  obtain ⟨query, _, paged, matched⟩ := SearchRequest.body_meets (.new "albums") [quiet] [] (some 20) none
  have told : ∀ doc : Pressing, .ofBool (pressed.meets doc query) = quiet.truthOn pressed.answering doc := by
    intro doc
    rw [(matched pressed doc).1]
    exact Truth.and_true _
  have answered : ∀ doc : pressed.Row, pressed.meets doc loud = pressed.query doc loud := fun doc =>
    (matched pressed doc).2 loud own
  have tracked : ∀ doc : Pressing, quiet.truthOn pressed.answering doc =
      .ofBool (!(pressed.nested doc "tracks").any fun inner => pressed.query inner loud) := by
    intro doc
    simp [quiet, Clause.truthOn, answered]
  refine ⟨own, query, paged, Truth.ofBool_inj.mp ?_, Truth.ofBool_inj.mp ?_⟩
  · rw [told, tracked]
    rfl
  · rw [told, tracked]
    rfl

end FilterQuery
