import FilterQuery.Complexity.Key
import FilterQuery.Proofs.ValueText

namespace FilterQuery

theorem bytes_loop (bytes : ByteArray) (i : Nat) (seen : List UInt8) :
    ByteArray.toList.loop bytes i seen = seen.reverse ++ bytes.data.toList.drop i := by
  induction i, seen using ByteArray.toList.loop.induct bytes with
  | case1 i seen inside ih =>
    have bound : i < bytes.data.toList.length := by simpa using inside
    rw [ByteArray.toList.loop, if_pos inside, ih, List.drop_eq_getElem_cons bound, List.reverse_cons,
      List.append_assoc, List.singleton_append]
    simp [ByteArray.get!, getElem!_pos, inside]
  | case2 i seen past =>
    rw [ByteArray.toList.loop, if_neg past, List.drop_of_length_le (by simpa using past), List.append_nil]

theorem utf8_toList (s : String) : s.toUTF8.toList = s.toList.flatMap String.utf8EncodeChar := by
  have encoded : s.toUTF8 = s.toList.utf8Encode := String.utf8Encode_toList.symm
  rw [ByteArray.toList, bytes_loop, encoded, List.utf8Encode, List.drop_zero, List.toList_data_toByteArray]
  rfl

theorem utf8_inj {s t : String} (same : s.toUTF8.toList = t.toUTF8.toList) : s = t := by
  rw [ByteArray.toList, ByteArray.toList, bytes_loop, bytes_loop] at same
  refine String.toByteArray_inj.mp (ByteArray.ext (Array.toList_inj.mp ?_))
  simpa using same

theorem utf8EncodeChar_zero {c : Char} (zero : 0 ∈ String.utf8EncodeChar c) : c.toNat = 0 := by
  have small : ∀ n, (0 : UInt8) = UInt8.ofNat n → n % 256 = 0 := by
    intro n same
    simpa using (congrArg UInt8.toNat same).symm
  dsimp only [String.utf8EncodeChar] at zero
  show c.val.toNat = 0
  -- Only the shortest form has a byte below 128.
  split at zero
  · have := small _ (List.mem_singleton.mp zero)
    omega
  · exfalso
    split at zero
    · simp only [List.mem_cons, List.not_mem_nil, or_false] at zero
      rcases zero with byte | byte <;> have := small _ byte <;> omega
    · split at zero
      · simp only [List.mem_cons, List.not_mem_nil, or_false] at zero
        rcases zero with byte | byte | byte <;> have := small _ byte <;> omega
      · simp only [List.mem_cons, List.not_mem_nil, or_false] at zero
        rcases zero with byte | byte | byte | byte <;> have := small _ byte <;> omega

theorem utf8_zero {s : String} (unbroken : Json.Unbroken s.toList) : 0 ∉ s.toUTF8.toList := by
  rw [utf8_toList]
  intro zero
  obtain ⟨c, member, byte⟩ := List.mem_flatMap.mp zero
  exact unbroken c member (utf8EncodeChar_zero byte)

-- The first separator ends what has none.
theorem split_first {α : Type} {mark : α} {front front' back back' : List α} (clear : mark ∉ front)
    (clear' : mark ∉ front') (same : front ++ mark :: back = front' ++ mark :: back') :
    front = front' ∧ back = back' := by
  induction front generalizing front' with
  | nil =>
    cases front' with
    | nil => exact ⟨rfl, (List.cons.inj same).2⟩
    | cons a rest => exact absurd (List.cons.inj same).1 (List.ne_of_not_mem_cons clear')
  | cons a rest ih =>
    cases front' with
    | nil => exact absurd (List.cons.inj same).1.symm (List.ne_of_not_mem_cons clear)
    | cons a' rest' =>
      obtain ⟨rfl, tails⟩ := List.cons.inj same
      obtain ⟨rfl, backs⟩ := ih (List.not_mem_of_not_mem_cons clear) (List.not_mem_of_not_mem_cons clear') tails
      exact ⟨rfl, backs⟩

theorem split_last {α : Type} {mark : α} {front front' back back' : List α} (clear : mark ∉ back)
    (clear' : mark ∉ back') (same : front ++ mark :: back = front' ++ mark :: back') :
    front = front' ∧ back = back' := by
  have mirrored : back.reverse ++ mark :: front.reverse = back'.reverse ++ mark :: front'.reverse := by
    simpa using congrArg List.reverse same
  obtain ⟨backs, fronts⟩ := split_first (by simpa using clear) (by simpa using clear') mirrored
  exact ⟨List.reverse_inj.mp fronts, List.reverse_inj.mp backs⟩

theorem Adapter.name_inj {a b : Adapter} (same : a.name = b.name) : a = b := by
  cases a <;> cases b <;> first | rfl | exact absurd same (by decide)

theorem Adapter.name_unbroken (a : Adapter) : Json.Unbroken a.name.toList := by
  cases a <;> exact Json.unbroken_of_all rfl

theorem paramsText_unbroken (params : List Value) : Json.Unbroken (paramsText params).toList := by
  rw [paramsText, Json.text, String.toList_ofList]
  exact Json.chars_unbroken _

-- A text may have null characters, the name before it and the parameters behind it have none.
theorem keyBytes_parts {a b : Adapter} {q r : RenderedQuery} (same : keyBytes a q = keyBytes b r) :
    a = b ∧ q.text = r.text ∧ paramsText q.params = paramsText r.params := by
  obtain ⟨fronts, params⟩ := split_last (utf8_zero (paramsText_unbroken _)) (utf8_zero (paramsText_unbroken _)) same
  obtain ⟨names, texts⟩ := split_first (utf8_zero a.name_unbroken) (utf8_zero b.name_unbroken) fronts
  exact ⟨Adapter.name_inj (utf8_inj names), utf8_inj texts, utf8_inj params⟩

theorem paramsText_iff {params others : List Value} (told : ∀ v ∈ params, v.Told) (told' : ∀ v ∈ others, v.Told) :
    paramsText params = paramsText others ↔ params.map Value.settled = others.map Value.settled := by
  rw [← Value.listTold_iff] at told told'
  rw [← Value.listSettled_eq, ← Value.listSettled_eq]
  constructor
  · intro same
    have real : (Json.arr (Value.listSerial params)).Real := Value.listSerial_real _ told
    have real' : (Json.arr (Value.listSerial others)).Real := Value.listSerial_real _ told'
    injection Json.text_inj real real' same with documents
    exact Value.listSerial_inj _ _ told told' documents
  · intro same
    rw [paramsText, ← Value.listSerial_settled, same, Value.listSerial_settled]
    rfl

-- A value that an operand of some type was read as.
def Value.Coerced (v : Value) : Prop :=
  ∃ ty members raw, raw.Real ∧ coerceValue ty members raw = .ok v

theorem Value.Coerced.told {v : Value} (coerced : v.Coerced) : v.Told := by
  obtain ⟨ty, members, raw, real, read⟩ := coerced
  exact coerceValue_told real read

theorem keyBytes_iff {a b : Adapter} {q r : RenderedQuery} (coerced : ∀ v ∈ q.params, v.Coerced)
    (coerced' : ∀ v ∈ r.params, v.Coerced) :
    keyBytes a q = keyBytes b r ↔
      a = b ∧ q.text = r.text ∧ q.params.map Value.settled = r.params.map Value.settled := by
  have params := paramsText_iff (fun v member => (coerced v member).told) (fun v member => (coerced' v member).told)
  constructor
  · intro same
    obtain ⟨adapters, texts, written⟩ := keyBytes_parts same
    exact ⟨adapters, texts, params.mp written⟩
  · rintro ⟨rfl, texts, values⟩
    rw [keyBytes, keyBytes, texts, params.mpr values]

-- Where the digest does not collide, two queries share an analysis exactly when they differ in nothing but which
-- doubles that are not finite they have.
theorem shared_iff {a b : Adapter} {q r : RenderedQuery} (coerced : ∀ v ∈ q.params, v.Coerced)
    (coerced' : ∀ v ∈ r.params, v.Coerced) (apart : cacheKey a q = cacheKey b r → keyBytes a q = keyBytes b r) :
    (keyBytes a q = keyBytes b r ↔
      a = b ∧ q.text = r.text ∧ q.params.map Value.settled = r.params.map Value.settled) ∧
    (cacheKey a q = cacheKey b r ↔
      a = b ∧ q.text = r.text ∧ q.params.map Value.settled = r.params.map Value.settled) := by
  have bytes := keyBytes_iff coerced coerced' (a := a) (b := b)
  refine ⟨bytes, ?_⟩
  constructor
  · exact fun same => bytes.mp (apart same)
  · intro parts
    rw [cacheKey, cacheKey, bytes.mpr parts]

namespace KeyExamples

def positive : Float := Float.ofBits (Binary64.infinityBits false).toUInt64

def negative : Float := Float.ofBits (Binary64.infinityBits true).toUInt64

theorem positive_coerced : (Value.float positive).Coerced := by
  refine ⟨.float, none, .str "inf", trivial, ?_⟩
  have read : readFloat? "inf" = some positive := by decide +kernel
  show readable .float "inf" ((readFloat? "inf").map .float) = _
  rw [read]
  rfl

theorem negative_coerced : (Value.float negative).Coerced := by
  refine ⟨.float, none, .str "-inf", trivial, ?_⟩
  have read : readFloat? "-inf" = some negative := by decide +kernel
  show readable .float "-inf" ((readFloat? "-inf").map .float) = _
  rw [read]
  rfl

-- The scores that are equal to the one given.
def scored (x : Float) : RenderedQuery := ⟨"SELECT users.* FROM users WHERE users.score = $1", [.float x]⟩

theorem scored_coerced {x : Float} (coerced : (Value.float x).Coerced) : ∀ v ∈ (scored x).params, v.Coerced :=
  List.forall_mem_singleton.mpr coerced

theorem infinities_settled :
    (scored positive).params.map Value.settled = (scored negative).params.map Value.settled := by
  have same : Value.settledFloat positive = Value.settledFloat negative := by decide +kernel
  exact congrArg (fun x => [Value.float x]) same

theorem scored_bytes : keyBytes .postgres (scored positive) = keyBytes .postgres (scored negative) :=
  (keyBytes_iff (scored_coerced positive_coerced) (scored_coerced negative_coerced)).mpr
    ⟨rfl, rfl, infinities_settled⟩

theorem infinities_share_analysis :
    (∀ v ∈ (scored positive).params, v.Coerced) ∧ (∀ v ∈ (scored negative).params, v.Coerced) ∧
      cacheKey .postgres (scored positive) = cacheKey .postgres (scored negative) :=
  ⟨scored_coerced positive_coerced, scored_coerced negative_coerced,
    (shared_iff (scored_coerced positive_coerced) (scored_coerced negative_coerced) fun _ => scored_bytes).2.mpr
      ⟨rfl, rfl, infinities_settled⟩⟩

-- Two operands, one key.
theorem infinities_share_key :
    (Value.float positive).Coerced ∧ (Value.float negative).Coerced ∧
      keyBytes .postgres (scored positive) = keyBytes .postgres (scored negative) ∧
      (scored positive).params ≠ (scored negative).params := by
  refine ⟨positive_coerced, negative_coerced, scored_bytes, ?_⟩
  intro same
  injection (List.cons.inj same).1 with value
  exact absurd value (by decide +kernel)

end KeyExamples

end FilterQuery
