import Mathlib.Data.List.Nodup
import FilterQuery.Table

namespace FilterQuery.Table

variable {κ α : Type} [DecidableEq κ]

theorem lookup_here (key : κ) (value : α) (rest : List (κ × α)) : ((key, value) :: rest).lookup key = some value := by
  rw [List.lookup_cons, beq_self_eq_true]

theorem lookup_behind {key other : κ} (apart : key ≠ other) (value : α) (rest : List (κ × α)) :
    ((other, value) :: rest).lookup key = rest.lookup key := by
  rw [List.lookup_cons, beq_false_of_ne apart]

theorem lookup_put_self (key : κ) (value : α) (entries : List (κ × α)) :
    (put key value entries).lookup key = some value := by
  induction entries with
  | nil => exact lookup_here ..
  | cons entry rest ih =>
    obtain ⟨k, v⟩ := entry
    by_cases own : k = key
    · rw [put, if_pos own, lookup_here]
    · rw [put, if_neg own, lookup_behind (Ne.symm own), ih]

theorem lookup_put_other {key other : κ} (apart : other ≠ key) (value : α) (entries : List (κ × α)) :
    (put key value entries).lookup other = entries.lookup other := by
  induction entries with
  | nil => exact lookup_behind apart ..
  | cons entry rest ih =>
    obtain ⟨k, v⟩ := entry
    by_cases own : k = key
    · rw [put, if_pos own, lookup_behind apart, lookup_behind (own ▸ apart)]
    · rw [put, if_neg own, List.lookup_cons, List.lookup_cons, ih]

theorem get_insert_self (t : Table κ α) (key : κ) (value : α) : (t.insert key value).get? key = some value :=
  lookup_put_self ..

theorem get_insert_other (t : Table κ α) {key other : κ} (apart : other ≠ key) (value : α) :
    (t.insert key value).get? other = t.get? other :=
  lookup_put_other apart ..

theorem get_erase_self (t : Table κ α) (key : κ) : (t.erase key).get? key = none := by
  refine List.lookup_eq_none_iff.mpr ?_
  intro entry kept
  have apart := (List.mem_filter.mp kept).2
  rw [bne_iff_ne] at apart ⊢
  exact Ne.symm apart

theorem get_erase_other (t : Table κ α) {key other : κ} (apart : other ≠ key) :
    (t.erase key).get? other = t.get? other := by
  unfold erase get?
  induction t.entries with
  | nil => rfl
  | cons entry rest ih =>
    obtain ⟨k, v⟩ := entry
    by_cases own : k = key
    · rw [List.filter_cons_of_neg (by simp [own]), ih, lookup_behind (own ▸ apart)]
    · rw [List.filter_cons_of_pos (by simpa using own), List.lookup_cons, List.lookup_cons, ih]

theorem get_map (t : Table κ α) (f : α → α) (key : κ) : (t.map f).get? key = (t.get? key).map f := by
  unfold map get?
  induction t.entries with
  | nil => rfl
  | cons entry rest ih =>
    obtain ⟨k, v⟩ := entry
    rw [List.map_cons]
    by_cases own : key = k
    · rw [own, lookup_here, lookup_here, Option.map_some]
    · rw [lookup_behind own, lookup_behind own, ih]

theorem mem_of_get {t : Table κ α} {key : κ} {value : α} (found : t.get? key = some value) :
    (key, value) ∈ t.entries := by
  obtain ⟨before, after, split, -⟩ := List.lookup_eq_some_iff.mp found
  rw [split]
  exact List.mem_append_right _ List.mem_cons_self

-- With no key twice a look-up finds each entry there is.
theorem lookup_of_mem {entries : List (κ × α)} (distinct : (entries.map (·.1)).Nodup) {key : κ} {value : α}
    (there : (key, value) ∈ entries) : entries.lookup key = some value := by
  induction entries with
  | nil => cases there
  | cons entry rest ih =>
    obtain ⟨k, v⟩ := entry
    rw [List.map_cons, List.nodup_cons] at distinct
    rcases List.mem_cons.mp there with same | further
    · cases same
      exact lookup_here ..
    · have apart : key ≠ k := fun own => distinct.1 (List.mem_map.mpr ⟨_, further, own⟩)
      rw [lookup_behind apart]
      exact ih distinct.2 further

theorem get_of_mem {t : Table κ α} (distinct : t.keys.Nodup) {key : κ} {value : α}
    (there : (key, value) ∈ t.entries) : t.get? key = some value :=
  lookup_of_mem distinct there

theorem get_isSome_iff (t : Table κ α) (key : κ) : (t.get? key).isSome ↔ key ∈ t.keys := by
  unfold get? keys
  induction t.entries with
  | nil => simp
  | cons entry rest ih =>
    obtain ⟨k, v⟩ := entry
    by_cases own : key = k
    · subst own
      simp
    · rw [lookup_behind own, ih, List.map_cons, List.mem_cons, or_iff_right own]

theorem get_none_iff (t : Table κ α) (key : κ) : t.get? key = none ↔ key ∉ t.keys := by
  rw [← get_isSome_iff, Option.not_isSome_iff_eq_none]

-- A key that is there keeps its place; a new one comes last.
theorem keys_put (key : κ) (value : α) (entries : List (κ × α)) :
    (put key value entries).map (·.1) =
      if key ∈ entries.map (·.1) then entries.map (·.1) else entries.map (·.1) ++ [key] := by
  induction entries with
  | nil => rfl
  | cons entry rest ih =>
    obtain ⟨k, v⟩ := entry
    by_cases own : k = key
    · simp [put, own]
    · rw [put, if_neg own, List.map_cons, List.map_cons, ih]
      simp only [List.mem_cons, or_iff_right (Ne.symm own), List.cons_append]
      split <;> rfl

theorem keys_insert_of_mem {t : Table κ α} {key : κ} (there : key ∈ t.keys) (value : α) :
    (t.insert key value).keys = t.keys :=
  (keys_put ..).trans (if_pos there)

theorem keys_insert_of_not_mem {t : Table κ α} {key : κ} (absent : key ∉ t.keys) (value : α) :
    (t.insert key value).keys = t.keys ++ [key] :=
  (keys_put ..).trans (if_neg absent)

theorem keys_erase (t : Table κ α) (key : κ) : (t.erase key).keys = t.keys.filter (· != key) := by
  unfold erase keys
  rw [List.filter_map]
  rfl

theorem nodup_insert {t : Table κ α} (distinct : t.keys.Nodup) (key : κ) (value : α) :
    (t.insert key value).keys.Nodup := by
  by_cases there : key ∈ t.keys
  · rw [keys_insert_of_mem there]
    exact distinct
  · rw [keys_insert_of_not_mem there]
    refine List.nodup_append.mpr ⟨distinct, List.nodup_singleton key, ?_⟩
    intro k kept other last
    rw [List.mem_singleton.mp last]
    exact ne_of_mem_of_not_mem kept there

theorem nodup_erase {t : Table κ α} (distinct : t.keys.Nodup) (key : κ) : (t.erase key).keys.Nodup := by
  rw [keys_erase]
  exact distinct.filter _

omit [DecidableEq κ] in
theorem size_keys (t : Table κ α) : t.size = t.keys.length := (List.length_map ..).symm

theorem size_insert_of_mem {t : Table κ α} {key : κ} (there : key ∈ t.keys) (value : α) :
    (t.insert key value).size = t.size := by
  rw [size_keys, size_keys, keys_insert_of_mem there]

theorem size_insert_le (t : Table κ α) (key : κ) (value : α) : (t.insert key value).size ≤ t.size + 1 := by
  by_cases there : key ∈ t.keys
  · rw [size_insert_of_mem there]
    exact Nat.le_succ _
  · rw [size_keys, size_keys, keys_insert_of_not_mem there, List.length_append]
    exact Nat.le_refl _

theorem size_erase_lt {t : Table κ α} {key : κ} (there : key ∈ t.keys) : (t.erase key).size < t.size := by
  rw [size_keys, size_keys, keys_erase, List.length_filter_lt_length_iff_exists]
  exact ⟨key, there, by simp⟩

end FilterQuery.Table
