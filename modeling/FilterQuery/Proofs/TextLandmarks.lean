import FilterQuery.Proofs.Precedence

namespace FilterQuery

-- A token as its neighbours see it.
inductive Sign where
  | name
  | dot
  | opening
  | closing
  | comma
  | value
  | fromWord
  | joinWord
  | asWord
  | selectWord
  -- MIN and MAX.
  | aggregateWord
  -- ASC and DESC.
  | directionWord
  | endWord
  -- LIMIT and NEXT.
  | limitWord
  | offsetWord
  | other
  deriving DecidableEq

inductive Landmark where
  | column
  | source
  | joined
  | aggregate
  | fieldKey
  | relatedKey
  -- Written before a key to place its nulls.
  | nullsKey
  | limit
  | offset
  deriving DecidableEq

namespace Sign

-- Backends that place nulls have no key that ends in END.
def ofWord (d : Dialect) : String → Sign
  | "FROM" => fromWord
  | "JOIN" => joinWord
  | "AS" => asWord
  | "SELECT" => selectWord
  | "MIN" | "MAX" => aggregateWord
  | "ASC" | "DESC" => directionWord
  | "END" => if d.placesNulls then other else endWord
  | "LIMIT" | "NEXT" => limitWord
  | "OFFSET" => offsetWord
  | _ => other

def landmark? : Sign → Sign → Option Landmark
  | dot, name | asWord, name | selectWord, name => none
  | fromWord, name => some .source
  | joinWord, name => some .joined
  | _, name => some .column
  | aggregateWord, opening => some .aggregate
  | name, directionWord => some .fieldKey
  | closing, directionWord => some .relatedKey
  | endWord, comma => some .nullsKey
  | limitWord, value => some .limit
  | offsetWord, value => some .offset
  | _, _ => none

-- No landmark starts with it.
def quiet : Sign → Bool
  | other | opening | comma | value => true
  | _ => false

-- No landmark ends with it, unless END stands before it.
def free : Sign → Bool
  | name | opening | directionWord | value => false
  | _ => true

theorem landmark_quiet {z s : Sign} (silent : z.quiet = true) : z.landmark? s = other.landmark? s := by
  cases z <;> cases s <;> first | rfl | cases silent

theorem landmark_free {z s : Sign} (open_ : z ≠ endWord) (apart : s.free = true) : z.landmark? s = none := by
  cases s <;> cases z <;> first | rfl | exact absurd rfl open_ | cases apart

-- The landmarks of a text that stands behind a sign.
def landmarks : Sign → List Sign → List Landmark
  | _, [] => []
  | z, s :: rest => (z.landmark? s).toList ++ landmarks s rest

theorem landmarks_append (z : Sign) (left right : List Sign) :
    landmarks z (left ++ right) = landmarks z left ++ landmarks (left.getLastD z) right := by
  induction left generalizing z with
  | nil => rfl
  | cons s rest ih => rw [List.cons_append, landmarks, landmarks, ih, List.append_assoc, List.getLastD_cons]

theorem landmarks_quiet {z : Sign} (silent : z.quiet = true) (signs : List Sign) :
    landmarks z signs = landmarks .other signs := by
  cases signs with
  | nil => rfl
  | cons s rest => rw [landmarks, landmarks, landmark_quiet silent]

-- What may follow an expression: it shows the same behind anything but END.
def Free (signs : List Sign) : Prop := ∀ z, z ≠ endWord → landmarks z signs = landmarks .other signs

theorem free_nil : Free [] := fun _ _ => rfl

theorem free_cons {s : Sign} (apart : s.free = true) (rest : List Sign) : Free (s :: rest) := by
  intro z open_
  rw [landmarks, landmarks, landmark_free open_ apart, landmark_free (by decide) apart]

-- The signs show so much where an expression may stand.
def Shows (signs : List Sign) (found : List Landmark) : Prop :=
  ∀ z, z.quiet = true → ∀ rest, Free rest → landmarks z (signs ++ rest) = found ++ landmarks .other rest

-- The signs show so much behind an expression.
def Trails (signs : List Sign) (found : List Landmark) : Prop :=
  ∀ z, z ≠ endWord → ∀ rest, Free rest → landmarks z (signs ++ rest) = found ++ landmarks .other rest

-- Signs that show nothing before an expression, between two, and behind one.
def leads (signs : List Sign) : Bool := (landmarks .other signs).isEmpty && (signs.getLastD .other).quiet

def links : List Sign → Bool
  | [] => false
  | s :: rest => s.free && leads (s :: rest)

def closes : List Sign → Bool
  | [] => true
  | s :: rest => s.free && (landmarks .other (s :: rest)).isEmpty && (rest.getLastD s) != endWord

variable {signs more between : List Sign} {found others : List Landmark} {z : Sign}

theorem landmarks_leads (lead : leads signs = true) (silent : z.quiet = true) (rest : List Sign) :
    landmarks z (signs ++ rest) = landmarks .other rest := by
  rw [leads, Bool.and_eq_true, List.isEmpty_iff] at lead
  rw [landmarks_quiet silent, landmarks_append, lead.1, List.nil_append, landmarks_quiet lead.2]

theorem landmarks_links (link : links signs = true) (open_ : z ≠ endWord) (rest : List Sign) :
    landmarks z (signs ++ rest) = landmarks .other rest := by
  cases signs with
  | nil => cases link
  | cons s later =>
    rw [links, Bool.and_eq_true] at link
    rw [List.cons_append, free_cons link.1 _ z open_]
    exact landmarks_leads link.2 rfl rest

theorem landmarks_closes (close : closes signs = true) (open_ : z ≠ endWord) {rest : List Sign} (free : Free rest) :
    landmarks z (signs ++ rest) = landmarks .other rest := by
  cases signs with
  | nil => exact free z open_
  | cons s later =>
    simp only [closes, Bool.and_eq_true, List.isEmpty_iff, bne_iff_ne] at close
    obtain ⟨⟨apart, unmarked⟩, last⟩ := close
    rw [List.cons_append, free_cons apart _ z open_, ← List.cons_append, landmarks_append, unmarked, List.nil_append,
      List.getLastD_cons]
    exact free _ last

namespace Trails

theorem nil : Trails [] [] := fun z open_ _ free => free z open_

theorem of_closes (close : closes signs = true) : Trails signs [] :=
  fun _ open_ _ free => landmarks_closes close open_ free

theorem of_links (apart : links between = true) (shown : Shows signs found) : Trails (between ++ signs) found := by
  intro z open_ rest free
  rw [List.append_assoc, landmarks_links apart open_, shown .other rfl rest free]

theorem before (trailing : Trails signs found) {rest : List Sign} (free : Free rest) : Free (signs ++ rest) := by
  intro z open_
  rw [trailing z open_ rest free, trailing .other (by decide) rest free]

theorem append (first : Trails signs found) (later : Trails more others) :
    Trails (signs ++ more) (found ++ others) := by
  intro z open_ rest free
  rw [List.append_assoc, first z open_ _ (later.before free), later .other (by decide) rest free, List.append_assoc]

end Trails

namespace Shows

theorem of_leads (lead : leads signs = true) : Shows signs [] := fun _ silent rest _ => landmarks_leads lead silent rest

theorem lead (front : leads signs = true) (shown : Shows more found) : Shows (signs ++ more) found := by
  intro z silent rest free
  rw [List.append_assoc, landmarks_leads front silent, shown .other rfl rest free]

theorem followed (shown : Shows signs found) (trailing : Trails more others) :
    Shows (signs ++ more) (found ++ others) := by
  intro z silent rest free
  rw [List.append_assoc, shown z silent _ (trailing.before free), trailing .other (by decide) rest free,
    List.append_assoc]

theorem close (shown : Shows signs found) (back : closes more = true) : Shows (signs ++ more) found := by
  have trailing := shown.followed (.of_closes back)
  rwa [List.append_nil] at trailing

theorem column : Shows [.name, .dot, .name] [.column] := by
  intro z silent rest free
  rw [landmarks_quiet silent]
  exact congrArg (_ :: ·) (free .name (by decide))

theorem columnAlone : Shows [.name] [.column] := by
  intro z silent rest free
  rw [landmarks_quiet silent]
  exact congrArg (_ :: ·) (free .name (by decide))

end Shows
end Sign

namespace Dialect

def sign (d : Dialect) : Token → Sign
  | .opening => .opening
  | .closing => .closing
  | .comma => .comma
  | .dot => .dot
  | .colon => .other
  | .name _ => .name
  | .value _ => .value
  | .word text => if d.isMark (.word text) then .value else .ofWord d text

def signs (d : Dialect) (text : String) : List Sign := (Scan.of d text).finish.map d.sign

-- What the text shows, whatever its marks stand for.
def landmarks (d : Dialect) (text : String) : List Landmark := Sign.landmarks .other (d.signs text)

variable {d : Dialect}

theorem signs_resolve (params : List Value) (taken : Nat) (ts : List Token) :
    (d.resolve params taken ts).map d.sign = ts.map d.sign := by
  induction ts generalizing taken with
  | nil => rfl
  | cons t rest ih =>
    cases t with
    | word text =>
      rw [resolve]
      split
      · rename_i place found
        have mark : d.isMark (.word text) = true := by rw [isMark_word taken, found, Option.isSome_some]
        rw [List.map_cons, List.map_cons, ih]
        cases params[place]? with
        | none => rfl
        | some v => simp [sign, mark]
      · rw [List.map_cons, List.map_cons, ih]
    | _ => simp [resolve, ih]

end Dialect

namespace Piece

variable {d : Dialect}

def signs (d : Dialect) (pieces : List Piece) : List Sign := (spelled d pieces).map d.sign

@[simp] theorem signs_nil : signs d [] = [] := rfl

@[simp] theorem signs_append (left right : List Piece) : signs d (left ++ right) = signs d left ++ signs d right := by
  rw [signs, spelled_append, List.map_append]
  rfl

@[simp] theorem signs_text (t : String) (rest : List Piece) :
    signs d (.text t :: rest) = d.signs t ++ signs d rest := by
  rw [signs, spelled_text, List.map_append]
  rfl

@[simp] theorem signs_space (rest : List Piece) : signs d (.space :: rest) = signs d rest := rfl

@[simp] theorem signs_name (ident : String) (rest : List Piece) :
    signs d (Render.name d ident :: rest) = .name :: signs d rest := by
  rw [signs, spelled_name]
  rfl

-- Null is a word like any other.
theorem signs_value (v : Value) (rest : List Piece) :
    signs d (.value v :: rest) = (if v.isNull then .other else .value) :: signs d rest := by
  have word : d.sign (.word "NULL") = .other := by cases d <;> rfl
  rw [signs, spelled, List.flatMap_cons, List.map_append, tokens]
  split
  · rw [List.map_singleton, word]
    rfl
  · rfl

theorem signs_keyword (word : String) : signs d (keyword word) = d.signs word := by
  rw [keyword, signs_space, signs_text, signs_nil, List.append_nil]

end Piece

-- The text of a plain statement shows what its pieces show.
theorem Select.landmarks_build {d : Dialect} {s : Select} (plain : s.Plain d) :
    d.landmarks (s.build d).sql = Sign.landmarks .other (Piece.signs d (Render.select d s)) := by
  have read := Render.spelled_select plain
  unfold Dialect.tokens? at read
  split at read
  · cases read
  · rw [Dialect.landmarks, Dialect.signs, ← Dialect.signs_resolve (s.build d).values 0, Option.some.inj read]
    rfl

end FilterQuery
