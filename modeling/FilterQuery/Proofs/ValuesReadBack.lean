import FilterQuery.Proofs.OperandValues
import FilterQuery.Proofs.TextsReadBack

namespace FilterQuery

namespace Value

mutual
-- What survives being written: numbers that JSON has, and years that a strict text has room for.
def Lasting : Value → Prop
  | float x => x.isFinite = true
  | dateTime t => t.Dated
  | array items => ListLasting items
  | null | bool _ | int _ | decimal _ | string _ | date _ | time _ | uuid _ | json _ => True

def ListLasting : List Value → Prop
  | [] => True
  | v :: rest => v.Lasting ∧ ListLasting rest
end

mutual
-- The sign of a zero aside, which is no part of the number.
def signless : Value → Value
  | decimal d => decimal d.signless
  | array items => array (listSignless items)
  | v => v

def listSignless : List Value → List Value
  | [] => []
  | v :: rest => v.signless :: listSignless rest
end

end Value

theorem ElementType.scalar_plain (element : ElementType) : element.scalar.isArray = false := by
  cases element <;> rfl

theorem readable_text {made : α → Value} (found : a = some b) : readable ty text (a.map made) = .ok (made b) := by
  rw [found]
  rfl

theorem double_finite {x : Float} (finite : x.isFinite = true) : Json.double x = .num (.double x) := if_pos finite

theorem double_null {x : Float} : Json.double x = .null ↔ x.isFinite = false := by
  unfold Json.double
  by_cases finite : x.isFinite = true
  · simp [finite]
  · simp [finite]

theorem readPoint_pointJson (located : p.Located) : readPoint (pointJson "lat" "lng" p) = .ok p := by
  have lat : readCoordinate [("lat", Json.double p.lat), ("lng", Json.double p.lng)] "lat" = .ok p.lat := by
    rw [double_finite located.lat_finite]
    rfl
  have lng : readCoordinate [("lat", Json.double p.lat), ("lng", Json.double p.lng)] "lng" = .ok p.lng := by
    rw [double_finite located.lng_finite, readCoordinate, Json.lookup, if_neg (by decide)]
    rfl
  refine bind_exact.mpr ⟨p.lat, lat, bind_exact.mpr ⟨p.lng, lng, ?_⟩⟩
  exact if_pos ((GeoPoint.isValid_iff p).mpr located)

theorem toInt64?_toInt (i : Int64) : (JsonNumber.int i.toInt).toInt64? = some i := by
  have least : leastInt64 ≤ i.toInt := i.le_toInt
  have greatest : i.toInt ≤ greatestInt64 := i.toInt_le
  rw [JsonNumber.toInt64?, if_pos ⟨least, greatest⟩, Int64.ofInt_toInt]

theorem coerceScalar_integer (found : n.toInt64? = some i) :
    coerceScalar .integer members (.num n) = .ok (.int i) := by
  unfold coerceScalar
  dsimp only
  rw [found]

theorem coerceScalar_coordinates (found : readPoint raw = .ok p) :
    coerceScalar .coordinates members raw = .ok (.json (pointJson "lat" "lng" p)) := by
  unfold coerceScalar
  dsimp only
  rw [found]

theorem Timestamp.text_inj {t u : Timestamp} (told : t.time.Told) (told' : u.time.Told) (same : t.text = u.text) :
    t = u := by
  have chars : t.chars = u.chars := List.append_cancel_right (String.ofList_inj.mp same)
  have serials : t.serialText = u.serialText := by rw [serialText, serialText, chars]
  exact serialText_inj told told' serials

namespace Value

theorem coerceScalar_toJson {ty : SemanticType} {v : Value} (typed : v.OfType none ty) (plain : ty.isArray = false) :
    coerceScalar ty none v.toJson = .ok v.signless ↔ v.Lasting := by
  cases typed with
  | string | boolean | json | enum => exact iff_of_true rfl trivial
  | integer i => exact iff_of_true (coerceScalar_integer (toInt64?_toInt i)) trivial
  | coordinates p located => exact iff_of_true (coerceScalar_coordinates (readPoint_pointJson located)) trivial
  | decimal d =>
    have read : readable .decimal d.text ((FixedPoint.ofText? d.text).map .decimal) = .ok (decimal d.signless) :=
      readable_text d.ofText?_text
    exact iff_of_true read trivial
  | date d =>
    have read : readable .date d.text ((Date.ofText? d.text).map .date) = .ok (date d) := readable_text d.ofText?_text
    exact iff_of_true read trivial
  | time t told =>
    have read : readable .time t.text ((Time.ofText? t.text).map .time) = .ok (time t) :=
      readable_text (Time.ofText?_text told)
    exact iff_of_true read trivial
  | uuid u =>
    have read : readable .uuid u.text ((Uuid.ofText? u.text).map .uuid) = .ok (uuid u) := readable_text u.ofText?_text
    exact iff_of_true read trivial
  | float x =>
    show coerceScalar .float none (Json.double x) = .ok (float x) ↔ x.isFinite = true
    cases finite : x.isFinite with
    | true =>
      rw [double_finite finite]
      exact iff_of_true rfl rfl
    | false =>
      rw [double_null.mpr finite]
      exact iff_of_false nofun Bool.false_ne_true
  | dateTime t told =>
    have read := Timestamp.ofText?_text told
    show readable .dateTime t.text ((Timestamp.ofText? t.text).map .dateTime) = .ok (dateTime t) ↔ t.Dated
    by_cases dated : t.Dated
    · rw [if_pos dated] at read
      exact iff_of_true (readable_text read) dated
    · rw [if_neg dated] at read
      rw [read]
      exact iff_of_false nofun dated
  | array => cases plain

theorem coerceAll_listToJson {ty : SemanticType} {values : List Value} (plain : ty.isArray = false)
    (typed : ∀ v ∈ values, v.OfType none ty) :
    coerceAll ty none (listToJson values) = .ok (listSignless values) ↔ ListLasting values := by
  induction values with
  | nil => exact iff_of_true rfl trivial
  | cons v rest ih =>
    obtain ⟨first, others⟩ := List.forall_mem_cons.mp typed
    have head := coerceScalar_toJson first plain
    have tail := ih others
    constructor
    · intro read
      obtain ⟨w, one, read⟩ := bind_exact.mp read
      obtain ⟨ws, more, read⟩ := bind_exact.mp read
      cases read
      exact ⟨head.mp one, tail.mp more⟩
    · intro ⟨lasting, lastings⟩
      exact bind_exact.mpr ⟨_, head.mpr lasting, bind_exact.mpr ⟨_, tail.mpr lastings, rfl⟩⟩

theorem coerceValue_toJson {ty : SemanticType} {v : Value} (typed : v.OfType none ty) :
    coerceValue ty none v.toJson = .ok v.signless ↔ v.Lasting := by
  cases ty with
  | array element =>
    cases typed with
    | array items each =>
      have all := coerceAll_listToJson element.scalar_plain each
      constructor
      · intro read
        obtain ⟨ws, more, read⟩ := bind_exact.mp read
        cases read
        exact all.mp more
      · intro lasting
        exact bind_exact.mpr ⟨_, all.mpr lasting, rfl⟩
  | _ => exact coerceScalar_toJson typed rfl

theorem toJson_ne_null {ty : SemanticType} {v : Value} (typed : v.OfType none ty) (other : ty ≠ .json)
    (lasting : v.Lasting) : v.toJson ≠ .null := by
  cases typed with
  | float x =>
    show Json.double x ≠ .null
    rw [Ne, double_null, show x.isFinite = true from lasting]
    exact Bool.noConfusion
  | json => exact absurd rfl other
  | _ => nofun

mutual
theorem toJson_settled (v : Value) : v.settled.toJson = v.toJson := by
  cases v with
  | float x => exact double_settledFloat x
  | array items => exact congrArg Json.arr (listToJson_settled items)
  | null | bool | int | decimal | string | date | dateTime | time | uuid | json => rfl

theorem listToJson_settled (values : List Value) : listToJson (listSettled values) = listToJson values := by
  cases values with
  | nil => rfl
  | cons v rest => rw [listSettled, listToJson, listToJson, toJson_settled v, listToJson_settled rest]
end

theorem scalar_toJson_inj {ty : SemanticType} {v w : Value} (plain : ty.isArray = false) (typed : v.OfType none ty)
    (typed' : w.OfType none ty) (same : v.toJson = w.toJson) : v.settled = w.settled := by
  cases typed with
  | string | boolean | enum =>
    cases typed'
    cases same
    rfl
  | json | coordinates =>
    cases typed'
    exact congrArg json same
  | integer i =>
    cases typed' with
    | integer j =>
      injection same with number
      injection number with value
      exact congrArg int (Int64.toInt_inj.mp value)
  | float x =>
    cases typed' with
    | float y => exact congrArg float (double_inj same)
  | decimal d =>
    cases typed' with
    | decimal e =>
      injection same with text
      exact congrArg decimal (FixedPoint.text_inj text)
  | date d =>
    cases typed' with
    | date e =>
      injection same with text
      exact congrArg date (Date.text_inj text)
  | dateTime t told =>
    cases typed' with
    | dateTime u told' =>
      injection same with text
      exact congrArg dateTime (Timestamp.text_inj told told' text)
  | time t told =>
    cases typed' with
    | time u told' =>
      injection same with text
      exact congrArg time (Time.text_inj told told' text)
  | uuid u =>
    cases typed' with
    | uuid u' =>
      injection same with text
      exact congrArg uuid (Uuid.text_inj text)
  | array => cases plain

theorem listToJson_inj {ty : SemanticType} {values others : List Value} (plain : ty.isArray = false)
    (typed : ∀ v ∈ values, v.OfType none ty) (typed' : ∀ v ∈ others, v.OfType none ty)
    (same : listToJson values = listToJson others) : listSettled values = listSettled others := by
  induction values generalizing others with
  | nil =>
    cases others with
    | nil => rfl
    | cons w others => cases same
  | cons v rest ih =>
    cases others with
    | nil => cases same
    | cons w others =>
      obtain ⟨heads, tails⟩ := List.cons.inj same
      obtain ⟨first, more⟩ := List.forall_mem_cons.mp typed
      obtain ⟨first', more'⟩ := List.forall_mem_cons.mp typed'
      rw [listSettled, listSettled, scalar_toJson_inj plain first first' heads, ih more more' tails]

theorem toJson_inj {ty : SemanticType} {v w : Value} (typed : v.OfType none ty) (typed' : w.OfType none ty) :
    v.toJson = w.toJson ↔ v.settled = w.settled := by
  constructor
  · intro same
    cases typed with
    | array items each =>
      cases typed' with
      | array items' each' =>
        injection same with all
        exact congrArg array (listToJson_inj (ElementType.scalar_plain _) each each' all)
    | _ => exact scalar_toJson_inj rfl (by constructor <;> assumption) typed' same
  · intro same
    rw [← toJson_settled v, same, toJson_settled w]

end Value

-- A value that was read is read again from its document if and only if it lasts, and two values of one type have
-- the same document if and only if they are the same, all infinities and NaNs being one.
theorem coerceValue_readBack {ty : SemanticType} {raw : Json} {v : Value} (read : coerceValue ty none raw = .ok v) :
    (((v.toJson = .null → raw = .null) ∧ coerceValue ty none v.toJson = .ok v.signless) ↔ v.Lasting) ∧
      ∀ other w, coerceValue ty none other = .ok w → (v.toJson = w.toJson ↔ v.settled = w.settled) := by
  have typed := coerceValue_ofType read
  refine ⟨⟨fun ⟨_, again⟩ => (Value.coerceValue_toJson typed).mp again, fun lasting => ?_⟩, fun other w read' => ?_⟩
  · refine ⟨fun null => ?_, (Value.coerceValue_toJson typed).mpr lasting⟩
    by_cases document : ty = .json
    · subst document
      cases read
      exact null
    · exact absurd null (Value.toJson_ne_null typed document lasting)
  · exact Value.toJson_inj typed (coerceValue_ofType read')

namespace ReadBackExamples

theorem instant_read {text : String} {t : Timestamp} (found : Timestamp.ofText? text = some t) :
    coerceValue .dateTime none (.str text) = .ok (.dateTime t) := by
  show readable .dateTime text ((Timestamp.ofText? text).map .dateTime) = _
  exact readable_text found

theorem double_read {text : String} {x : Float} (found : readFloat? text = some x) :
    coerceValue .float none (.str text) = .ok (.float x) := by
  show readable .float text ((readFloat? text).map .float) = _
  exact readable_text found

-- The last second of 2016, which has an hour more or less elsewhere.
def leapSecond : Timestamp := ⟨⟨2016, 12, 31, by decide⟩, ⟨86399, 1000000000, by decide, by decide⟩⟩

theorem leapSecond_read :
    coerceValue .dateTime none (.str "2017-01-01T01:59:60+02:00") = .ok (.dateTime leapSecond) :=
  instant_read (by decide +kernel)

theorem leapSecond_readBack :
    coerceValue .dateTime none (.str "2017-01-01T01:59:60+02:00") = .ok (.dateTime leapSecond) ∧
      (Value.dateTime leapSecond).toJson ≠ .null ∧
      coerceValue .dateTime none (Value.dateTime leapSecond).toJson = .ok (.dateTime leapSecond) := by
  have dated : leapSecond.Dated := by decide
  have ⟨back, again⟩ := (coerceValue_readBack leapSecond_read).1.mpr dated
  exact ⟨leapSecond_read, fun null => Json.noConfusion (back null), again⟩

-- Five digits, which only a text without an offset may have.
def farFuture : Timestamp := ⟨⟨10000, 1, 1, by decide⟩, ⟨0, 0, by decide, by decide⟩⟩

theorem farFuture_refused (w : Value) : coerceValue .dateTime none (Value.dateTime farFuture).toJson ≠ .ok w := by
  have unread : Timestamp.ofText? farFuture.text = none := by decide +kernel
  show readable .dateTime farFuture.text ((Timestamp.ofText? farFuture.text).map .dateTime) ≠ .ok w
  rw [unread]
  nofun

def infinity (negative : Bool) : Float := Float.ofBits (Binary64.infinityBits negative).toUInt64

theorem infinities_differ : Value.float (infinity false) ≠ Value.float (infinity true) := by
  intro same
  injection same with same
  exact absurd same (by decide +kernel)

-- An instant is not read back, and two doubles are one null.
theorem instants_and_doubles_lost :
    (∃ v, coerceValue .dateTime none (.str "+10000-01-01T00:00:00") = .ok v ∧
      ∀ w, coerceValue .dateTime none v.toJson ≠ .ok w) ∧
    (∃ v w, coerceValue .float none (.str "inf") = .ok v ∧ coerceValue .float none (.str "-inf") = .ok w ∧ v ≠ w ∧
      v.toJson = .null ∧ w.toJson = .null) := by
  constructor
  · exact ⟨.dateTime farFuture, instant_read (by decide +kernel), farFuture_refused⟩
  · exact ⟨.float (infinity false), .float (infinity true), double_read (by decide +kernel),
      double_read (by decide +kernel), infinities_differ, double_null.mpr (by decide +kernel),
      double_null.mpr (by decide +kernel)⟩

end ReadBackExamples
end FilterQuery
