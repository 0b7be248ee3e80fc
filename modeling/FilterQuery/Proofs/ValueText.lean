import FilterQuery.Proofs.CalendarText
import FilterQuery.Proofs.JsonText
import FilterQuery.Proofs.RouteParts
import FilterQuery.Value.Coerce

namespace FilterQuery

namespace Uuid

theorem hyphenate_filter (i : Nat) {cs : List Char} (plain : ∀ c ∈ cs, c ≠ '-') :
    (hyphenate i cs).filter (· != '-') = cs := by
  induction cs generalizing i with
  | nil => rfl
  | cons c rest ih =>
    obtain ⟨other, others⟩ := List.forall_mem_cons.mp plain
    rw [hyphenate, List.filter_append, ih (i + 1) others]
    split <;> simp [other]

theorem digitChar_ne_hyphen {n : Nat} (small : n < 16) : Nat.digitChar n ≠ '-' := by
  interval_cases n <;> decide

theorem text_inj {u v : Uuid} (same : u.text = v.text) : u = v := by
  have plain : ∀ w : Uuid, ∀ c ∈ w.digits.map Nat.digitChar, c ≠ '-' := by
    intro w c member
    obtain ⟨d, digit, rfl⟩ := List.mem_map.mp member
    exact digitChar_ne_hyphen (w.bounded d digit)
  have digits : u.digits.map Nat.digitChar = v.digits.map Nat.digitChar := by
    rw [← hyphenate_filter 0 (plain u), String.ofList_inj.mp same, hyphenate_filter 0 (plain v)]
  have read : ∀ w : Uuid, (w.digits.map Nat.digitChar).map hexDigit? = w.digits.map some := by
    intro w
    rw [List.map_map]
    exact List.map_congr_left fun d digit => Json.hexDigit?_hexDigit (w.bounded d digit)
  have read' := read u
  rw [digits, read v] at read'
  obtain ⟨ds, _, _⟩ := u
  obtain ⟨es, _, _⟩ := v
  obtain rfl : es = ds := List.map_injective_iff.mpr (Option.some_injective _) read'
  rfl

end Uuid

namespace Value

mutual
-- What coercion gives: times that can be read, documents with real numbers.
def Told : Value → Prop
  | time t => t.Told
  | dateTime t => t.time.Told
  | json j => j.Real
  | array items => ListTold items
  | null | bool _ | int _ | float _ | decimal _ | string _ | date _ | uuid _ => True

def ListTold : List Value → Prop
  | [] => True
  | v :: rest => v.Told ∧ ListTold rest
end

theorem listTold_iff (values : List Value) : ListTold values ↔ ∀ v ∈ values, v.Told := by
  induction values with
  | nil => exact iff_of_true trivial nofun
  | cons v rest ih => rw [ListTold, ih, List.forall_mem_cons]

-- One infinity or NaN for all of them.
def settledFloat (x : Float) : Float := if x.isFinite then x else Float.ofBits (Binary64.infinityBits false).toUInt64

mutual
def settled : Value → Value
  | float x => float (settledFloat x)
  | array items => array (listSettled items)
  | v => v

def listSettled : List Value → List Value
  | [] => []
  | v :: rest => v.settled :: listSettled rest
end

theorem listSettled_eq (values : List Value) : listSettled values = values.map settled := by
  induction values with
  | nil => rfl
  | cons v rest ih => rw [listSettled, ih, List.map_cons]

theorem double_settledFloat (x : Float) : Json.double (settledFloat x) = Json.double x := by
  unfold settledFloat
  cases real : x.isFinite with
  | true => rfl
  | false =>
    have infinite : (Float.ofBits (Binary64.infinityBits false).toUInt64).isFinite = false := by decide
    simp [Json.double, real, infinite]

theorem double_inj {x y : Float} (same : Json.double x = Json.double y) : settledFloat x = settledFloat y := by
  unfold Json.double at same
  unfold settledFloat
  split at same <;> split at same
  · injection same with same
    injection same with same
    rw [same]
  · cases same
  · cases same
  · rename_i one two
    rw [if_neg one, if_neg two]

theorem double_real (x : Float) : (Json.double x).Real := by
  unfold Json.double
  split
  · assumption
  · trivial

mutual
theorem serial_real (v : Value) (told : v.Told) : v.serial.Real := by
  cases v with
  | null => trivial
  | bool | int | decimal | string | date | dateTime | time | uuid => exact ⟨trivial, trivial⟩
  | float x => exact ⟨double_real x, trivial⟩
  | json j => exact ⟨told, trivial⟩
  | array items => exact ⟨listSerial_real items told, trivial⟩

theorem listSerial_real (values : List Value) (told : ListTold values) : Json.RealItems (listSerial values) := by
  cases values with
  | nil => trivial
  | cons v rest => exact ⟨serial_real v told.1, listSerial_real rest told.2⟩
end

mutual
theorem serial_settled (v : Value) : v.settled.serial = v.serial := by
  cases v with
  | float x => exact congrArg (Json.single "Float") (double_settledFloat x)
  | array items => exact congrArg (Json.single "Array" ∘ Json.arr) (listSerial_settled items)
  | null | bool | int | decimal | string | date | dateTime | time | uuid | json => rfl

theorem listSerial_settled (values : List Value) : listSerial (listSettled values) = listSerial values := by
  cases values with
  | nil => rfl
  | cons v rest => rw [listSettled, listSerial, listSerial, serial_settled v, listSerial_settled rest]
end

theorem single_inj {key key' : String} {j j' : Json} (same : Json.single key j = Json.single key' j') :
    key = key' ∧ j = j' := by
  unfold Json.single at same
  injection same with members
  have member := (List.cons.inj members).1
  exact Prod.mk.inj member

mutual
theorem serial_inj (v w : Value) (told : v.Told) (told' : w.Told) (same : v.serial = w.serial) :
    v.settled = w.settled := by
  cases v with
  | null =>
    cases w with
    | null => rfl
    | bool | int | float | decimal | string | date | dateTime | time | uuid | json | array => cases same
  | bool b =>
    cases w with
    | bool b' =>
      injection (single_inj same).2 with same
      rw [same]
    | null => cases same
    | int | float | decimal | string | date | dateTime | time | uuid | json | array =>
      exact absurd (single_inj same).1 (by decide)
  | int i =>
    cases w with
    | int i' =>
      injection (single_inj same).2 with number
      injection number with value
      exact congrArg int (Int64.toInt_inj.mp value)
    | null => cases same
    | bool | float | decimal | string | date | dateTime | time | uuid | json | array =>
      exact absurd (single_inj same).1 (by decide)
  | float x =>
    cases w with
    | float x' =>
      exact congrArg float (double_inj (single_inj same).2)
    | null => cases same
    | bool | int | decimal | string | date | dateTime | time | uuid | json | array =>
      exact absurd (single_inj same).1 (by decide)
  | decimal d =>
    cases w with
    | decimal d' =>
      injection (single_inj same).2 with text
      exact congrArg decimal (FixedPoint.text_inj text)
    | null => cases same
    | bool | int | float | string | date | dateTime | time | uuid | json | array =>
      exact absurd (single_inj same).1 (by decide)
  | string s =>
    cases w with
    | string s' =>
      injection (single_inj same).2 with text
      rw [text]
    | null => cases same
    | bool | int | float | decimal | date | dateTime | time | uuid | json | array =>
      exact absurd (single_inj same).1 (by decide)
  | date d =>
    cases w with
    | date d' =>
      injection (single_inj same).2 with text
      exact congrArg date (Date.text_inj text)
    | null => cases same
    | bool | int | float | decimal | string | dateTime | time | uuid | json | array =>
      exact absurd (single_inj same).1 (by decide)
  | dateTime t =>
    cases w with
    | dateTime t' =>
      injection (single_inj same).2 with text
      exact congrArg dateTime (Timestamp.serialText_inj told told' text)
    | null => cases same
    | bool | int | float | decimal | string | date | time | uuid | json | array =>
      exact absurd (single_inj same).1 (by decide)
  | time t =>
    cases w with
    | time t' =>
      injection (single_inj same).2 with text
      exact congrArg time (Time.text_inj told told' text)
    | null => cases same
    | bool | int | float | decimal | string | date | dateTime | uuid | json | array =>
      exact absurd (single_inj same).1 (by decide)
  | uuid u =>
    cases w with
    | uuid u' =>
      injection (single_inj same).2 with text
      exact congrArg uuid (Uuid.text_inj text)
    | null => cases same
    | bool | int | float | decimal | string | date | dateTime | time | json | array =>
      exact absurd (single_inj same).1 (by decide)
  | json j =>
    cases w with
    | json j' =>
      exact congrArg json (single_inj same).2
    | null => cases same
    | bool | int | float | decimal | string | date | dateTime | time | uuid | array =>
      exact absurd (single_inj same).1 (by decide)
  | array items =>
    cases w with
    | array items' =>
      injection (single_inj same).2 with values
      exact congrArg array (listSerial_inj items items' told told' values)
    | null => cases same
    | bool | int | float | decimal | string | date | dateTime | time | uuid | json =>
      exact absurd (single_inj same).1 (by decide)

theorem listSerial_inj (values others : List Value) (told : ListTold values) (told' : ListTold others)
    (same : listSerial values = listSerial others) : listSettled values = listSettled others := by
  cases values with
  | nil =>
    cases others with
    | nil => rfl
    | cons w others => cases same
  | cons v rest =>
    cases others with
    | nil => cases same
    | cons w others =>
      obtain ⟨heads, tails⟩ := List.cons.inj same
      rw [listSettled, listSettled, serial_inj v w told.1 told'.1 heads,
        listSerial_inj rest others told.2 told'.2 tails]
end

end Value

theorem pointJson_real (latKey lngKey : String) (p : GeoPoint) : (pointJson latKey lngKey p).Real :=
  ⟨Value.double_real p.lat, Value.double_real p.lng, trivial⟩

theorem readable_parts {ty : SemanticType} {text : String} {found : Option α} {made : α → Value} {v : Value}
    (read : readable ty text (found.map made) = .ok v) : ∃ a, found = some a ∧ v = made a := by
  cases found with
  | none => cases read
  | some a =>
    cases read
    exact ⟨a, rfl, rfl⟩

theorem coerceScalar_told {ty : SemanticType} {members : Option (List String)} {raw : Json} {v : Value} (real : raw.Real)
    (coerced : coerceScalar ty members raw = .ok v) : v.Told := by
  unfold coerceScalar at coerced
  split at coerced
  case h_1 | h_4 | h_8 =>
    cases coerced
    trivial
  case h_2 =>
    split at coerced
    · cases coerced
      trivial
    · cases coerced
  case h_3 | h_5 | h_6 | h_7 | h_9 | h_12 =>
    obtain ⟨_, -, rfl⟩ := readable_parts coerced
    trivial
  case h_10 =>
    obtain ⟨t, read, rfl⟩ := readable_parts coerced
    exact Timestamp.ofText?_told read
  case h_11 =>
    obtain ⟨t, read, rfl⟩ := readable_parts coerced
    exact Time.ofText?_told read
  case h_13 =>
    unfold coerceMember at coerced
    split at coerced
    · split at coerced
      · cases coerced
        trivial
      · cases coerced
    · cases coerced
      trivial
  case h_14 =>
    cases coerced
    exact real
  case h_15 =>
    split at coerced
    · cases coerced
      exact pointJson_real "lat" "lng" _
    · cases coerced
  case h_16 => cases coerced

theorem coerceAll_told {ty : SemanticType} {members : Option (List String)} {items : List Json} {values : List Value}
    (real : Json.RealItems items) (coerced : coerceAll ty members items = .ok values) : Value.ListTold values := by
  induction items generalizing values with
  | nil =>
    cases coerced
    trivial
  | cons item rest ih =>
    obtain ⟨value, one, coerced⟩ := bind_exact.mp coerced
    obtain ⟨others, more, coerced⟩ := bind_exact.mp coerced
    cases coerced
    exact ⟨coerceScalar_told real.1 one, ih real.2 more⟩

theorem coerceValue_told {ty : SemanticType} {members : Option (List String)} {raw : Json} {v : Value} (real : raw.Real)
    (coerced : coerceValue ty members raw = .ok v) : v.Told := by
  unfold coerceValue at coerced
  split at coerced
  · obtain ⟨values, all, coerced⟩ := bind_exact.mp coerced
    cases coerced
    exact coerceAll_told real all
  · exact coerceScalar_told real coerced

end FilterQuery
