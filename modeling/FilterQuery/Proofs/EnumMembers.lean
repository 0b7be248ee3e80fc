import FilterQuery.Operand
import FilterQuery.Proofs.TypeNames

namespace FilterQuery.MySql

open NativeType

-- A quote of the member itself is doubled.
def quotedMember (m : List Char) : List Char := '\'' :: (replaceChar '\'' ['\'', '\''] m ++ ['\''])

def memberList (ms : List (List Char)) : List Char := [','].intercalate (ms.map quotedMember)

def enumType (ms : List String) : String := "enum" ++ "(" ++ String.ofList (memberList (ms.map String.toList)) ++ ")"

variable {c : Char} {seen rest : List Char}

theorem memberRest_other (other : c ≠ '\'') (seen rest : List Char) :
    memberRest seen (c :: rest) = memberRest (seen ++ [c]) rest := by
  cases rest with
  | nil => simp [memberRest, other]
  | cons d rest => simp [memberRest, other]

theorem memberRest_doubled (seen rest : List Char) :
    memberRest seen ('\'' :: '\'' :: rest) = memberRest (seen ++ ['\'']) rest := by
  simp [memberRest]

theorem memberRest_closed (stop : rest.head? ≠ some '\'') (seen : List Char) :
    memberRest seen ('\'' :: rest) = seen :: members rest := by
  cases rest with
  | nil => simp [memberRest, members]
  | cons d rest =>
    have other : d ≠ '\'' := fun same => stop (congrArg some same)
    simp [memberRest, other]

theorem memberRest_written (stop : rest.head? ≠ some '\'') (m seen : List Char) :
    memberRest seen (replaceChar '\'' ['\'', '\''] m ++ '\'' :: rest) = (seen ++ m) :: members rest := by
  induction m generalizing seen with
  | nil =>
    rw [List.append_nil]
    exact memberRest_closed stop seen
  | cons c m ih =>
    unfold replaceChar at ih ⊢
    rw [List.flatMap_cons, List.append_assoc]
    by_cases quote : c = '\''
    · subst quote
      rw [if_pos rfl, List.cons_append, List.singleton_append, memberRest_doubled, ih, List.append_assoc,
        List.singleton_append]
    · rw [if_neg quote, List.singleton_append, memberRest_other quote, ih, List.append_assoc, List.singleton_append]

theorem members_quoted (stop : rest.head? ≠ some '\'') (m : List Char) :
    members (quotedMember m ++ rest) = m :: members rest := by
  rw [quotedMember, List.cons_append, members, if_pos rfl, List.append_assoc, List.singleton_append,
    memberRest_written stop, List.nil_append]

theorem members_comma (rest : List Char) : members (',' :: rest) = members rest := by
  rw [members, if_neg (by decide)]

theorem members_memberList (ms : List (List Char)) : members (memberList ms) = ms := by
  induction ms with
  | nil => rfl
  | cons m rest ih =>
    cases rest with
    | nil =>
      have stop : ([] : List Char).head? ≠ some '\'' := nofun
      have only := members_quoted stop m
      rw [List.append_nil] at only
      rw [memberList, List.map_singleton, List.intercalate_singleton, only, members]
    | cons m' rest =>
      have split : memberList (m :: m' :: rest) = quotedMember m ++ ',' :: memberList (m' :: rest) := by
        unfold memberList
        rw [List.map_cons, List.map_cons, List.intercalate_cons_cons, List.append_assoc, List.singleton_append]
      rw [split, members_quoted (by simp), members_comma, ih]

theorem beforeLast_end (cs : List Char) : beforeLast ')' (cs ++ [')']) = cs := by
  simp [beforeLast]

theorem enumMembers?_enumType {ms : List String} (listed : ms ≠ []) : enumMembers? (enumType ms) = some ms := by
  have letters : (enumType ms).toList = "enum".toList ++ '(' :: (memberList (ms.map String.toList) ++ [')']) := by
    simp [enumType, String.toList_append]
  have inside : ((enumType ms).toList.dropWhile (· != '(')).drop 1 = memberList (ms.map String.toList) ++ [')'] := by
    rw [letters]
    rfl
  have closed : (memberList (ms.map String.toList) ++ [')']).contains ')' = true := by simp
  have texts : (ms.map String.toList).map String.ofList = ms := by simp
  unfold enumMembers?
  dsimp only
  rw [inside, if_pos closed, beforeLast_end, members_memberList]
  obtain ⟨m, rest, rfl⟩ := List.exists_cons_of_ne_nil listed
  exact congrArg some texts

theorem semanticType_enumType (ms : List String) : semanticType (enumType ms) = some .enum := by
  have name : Name "enum".toList := ⟨by decide, by decide, by decide, by decide⟩
  have read : semanticType (enumType ms ++ "") = some .enum := semanticType_listed name (.inl (by decide))
  rwa [String.append_empty] at read

end FilterQuery.MySql

namespace FilterQuery

variable {ms : List String} {raw : Json} {v : Value} {op : Operator} {operand : Operand}

theorem coerceValue_enum : coerceValue .enum (some ms) raw = .ok v ↔ ∃ m ∈ ms, raw = .str m ∧ v = .string m := by
  cases raw with
  | str s =>
    show (if ms.contains s then Except.ok (Value.string s) else .error (ValueFault.notMember s ms)) = .ok v ↔ _
    by_cases listed : s ∈ ms
    · rw [if_pos (List.contains_iff_mem.mpr listed)]
      constructor
      · intro read
        cases read
        exact ⟨s, listed, rfl, rfl⟩
      · rintro ⟨_, _, same, rfl⟩
        cases same
        rfl
    · rw [if_neg (fun present => listed (List.contains_iff_mem.mp present))]
      refine iff_of_false nofun ?_
      rintro ⟨_, member, same, _⟩
      cases same
      exact listed member
  | null | bool | num | arr | obj => exact iff_of_false nofun fun ⟨_, _, same, _⟩ => nomatch same

namespace Operand

theorem ofScalar_enum : ofScalar op .enum (some ms) raw = .ok operand ↔
    (∃ m ∈ ms, raw = .str m ∧ operand = .scalar (.string m)) ∨
      raw = .null ∧ (op = .eq ∨ op = .neq) ∧ operand = .scalar .null := by
  by_cases null : raw = .null
  · subst null
    by_cases equality : op = .eq ∨ op = .neq
    · simp [ofScalar, equality, eq_comm]
    · simp [ofScalar, equality]
  · have read : ofScalar op .enum (some ms) raw = .ok operand ↔
        ∃ v, coerceValue .enum (some ms) raw = .ok v ∧ operand = .scalar v := by
      rw [ofScalar.eq_2 _ _ _ _ null]
      cases coerceValue .enum (some ms) raw with
      | ok v => simp [eq_comm]
      | error fault => simp
    simp only [read, coerceValue_enum, null, false_and, or_false]
    constructor
    · rintro ⟨_, ⟨m, member, written, rfl⟩, taken⟩
      exact ⟨m, member, written, taken⟩
    · rintro ⟨m, member, written, taken⟩
      exact ⟨_, ⟨m, member, written, rfl⟩, taken⟩

theorem itemsFrom_cons {ty : SemanticType} {members : Option (List String)} {index : Nat} {item : Json}
    {rest : List Json} {vs : List Value} :
    itemsFrom ty members index (item :: rest) = .ok vs ↔
      item ≠ .null ∧ ∃ v others, coerceValue ty members item = .ok v ∧
        itemsFrom ty members (index + 1) rest = .ok others ∧ vs = v :: others := by
  by_cases null : item = .null
  · subst null
    exact iff_of_false nofun fun solid => solid.1 rfl
  · rw [itemsFrom.eq_3 _ _ _ _ _ null]
    cases coerceValue ty members item with
    | error fault => simp
    | ok v =>
      cases itemsFrom ty members (index + 1) rest with
      | error fault => simp [bind, Except.bind]
      | ok others => simp [bind, Except.bind, pure, Except.pure, null, eq_comm]

theorem itemsFrom_enum {index : Nat} {items : List Json} {vs : List Value} :
    itemsFrom .enum (some ms) index items = .ok vs ↔
      ∃ chosen : List String, chosen ⊆ ms ∧ items = chosen.map .str ∧ vs = chosen.map .string := by
  induction items generalizing index vs with
  | nil => simp [itemsFrom, eq_comm]
  | cons item rest ih =>
    rw [itemsFrom_cons]
    simp only [coerceValue_enum, ih]
    constructor
    · rintro ⟨-, _, _, ⟨m, member, rfl, rfl⟩, ⟨chosen, within, rfl, rfl⟩, rfl⟩
      exact ⟨m :: chosen, List.cons_subset.mpr ⟨member, within⟩, rfl, rfl⟩
    · rintro ⟨chosen, within, written, rfl⟩
      obtain ⟨m, chosen, rfl, rfl, rfl⟩ := List.map_eq_cons_iff.mp written.symm
      obtain ⟨member, within⟩ := List.cons_subset.mp within
      exact ⟨nofun, _, _, ⟨m, member, rfl, rfl⟩, ⟨chosen, within, rfl, rfl⟩, rfl⟩

theorem ofList_enum : ofList .enum (some ms) raw = .ok operand ↔
    ∃ chosen : List String, chosen ⊆ ms ∧ raw = .arr (chosen.map .str) ∧ operand = .list (chosen.map .string) := by
  cases raw with
  | arr items =>
    have read : ofList .enum (some ms) (.arr items) = .ok operand ↔
        ∃ vs, itemsFrom .enum (some ms) 0 items = .ok vs ∧ operand = .list vs := by
      show (do let values ← itemsFrom .enum (some ms) 0 items; pure (list values)) = .ok operand ↔ _
      cases itemsFrom .enum (some ms) 0 items with
      | error fault => simp [bind, Except.bind]
      | ok vs => simp [bind, Except.bind, pure, Except.pure, eq_comm]
    rw [read]
    simp only [itemsFrom_enum, Json.arr.injEq]
    constructor
    · rintro ⟨_, ⟨chosen, within, written, rfl⟩, taken⟩
      exact ⟨chosen, within, written, taken⟩
    · rintro ⟨chosen, within, written, taken⟩
      exact ⟨_, ⟨chosen, within, written, rfl⟩, taken⟩
  | null | bool | num | str | obj => exact iff_of_false nofun fun ⟨_, _, same, _⟩ => nomatch same

theorem coerce_ok_iff {field : String} {ty : SemanticType} {members : Option (List String)} :
    coerce field op ty members raw = .ok operand ↔ ofArity (op.arity ty) op ty members raw = .ok operand := by
  unfold coerce
  cases ofArity (op.arity ty) op ty members raw with
  | ok read => simp
  | error fault => exact iff_of_false nofun nofun

end Operand

-- The field takes the members one by one or in a list, and null where it is compared for equality.
structure Field.RestrictedTo (ms : List String) (f : Field) : Prop where
  type : f.type? = some .enum
  members : f.enumMembers = some ms
  scalar : ∀ {op : Operator} {raw : Json} {operand : Operand}, op.arity .enum = .scalar →
    (Operand.coerce f.name op .enum f.enumMembers raw = .ok operand ↔
      (∃ m ∈ ms, raw = .str m ∧ operand = .scalar (.string m)) ∨
        raw = .null ∧ (op = .eq ∨ op = .neq) ∧ operand = .scalar .null)
  list : ∀ {op : Operator} {raw : Json} {operand : Operand}, op.arity .enum = .list →
    (Operand.coerce f.name op .enum f.enumMembers raw = .ok operand ↔
      ∃ chosen : List String, chosen ⊆ ms ∧ raw = .arr (chosen.map .str) ∧
        operand = .list (chosen.map .string))

theorem Field.restrictedTo {f : Field} (type : f.type? = some .enum) (members : f.enumMembers = some ms) :
    f.RestrictedTo ms where
  type := type
  members := members
  scalar arity := by
    rw [Operand.coerce_ok_iff, arity, members]
    exact Operand.ofScalar_enum
  list arity := by
    rw [Operand.coerce_ok_iff, arity, members]
    exact Operand.ofList_enum

-- Members that the queryable names itself for the column come before those of its type.
theorem enumMembers_kept (listed : ms ≠ []) :
    Adapter.mySql.semanticType (MySql.enumType ms) = some .enum ∧
    Adapter.mySql.enumMembers (MySql.enumType ms) = some ms ∧
    ∀ (q : Queryable) (c : Column), c ∈ q.columns → c.nativeType = MySql.enumType ms →
      q.enums.lookup c.name = none →
      ∃ f ∈ Adapter.mySql.fields q, f.name = c.name ∧ f.RestrictedTo ms := by
  have type : Adapter.mySql.semanticType (MySql.enumType ms) = some .enum := MySql.semanticType_enumType ms
  have members : Adapter.mySql.enumMembers (MySql.enumType ms) = some ms := MySql.enumMembers?_enumType listed
  refine ⟨type, members, fun q c column native own => ?_⟩
  have columnType : Adapter.mySql.columnType q c = some (.enum, some ms) := by
    unfold Adapter.columnType
    rw [own, native, type]
    simp only [Option.map_some, if_true, members]
  have field : Adapter.mySql.columnField q c = some
      { Field.scalar c.name .enum with
        nullable := c.nullable
        enumMembers := some ms
        nativeType := some c.nativeType } := by
    unfold Adapter.columnField
    rw [columnType]
    rfl
  exact ⟨_, List.mem_append_left _ (List.mem_filterMap.mpr ⟨c, column, field⟩), rfl, Field.restrictedTo rfl rfl⟩

theorem awkwardMembers_kept : ["it's", "", "a,b", "')", "''"] ≠ [] ∧
    MySql.enumType ["it's", "", "a,b", "')", "''"] = "enum('it''s','','a,b',''')','''''')" ∧
    ∃ f ∈ Adapter.mySql.fields ((Queryable.new "shop" "shops" .mySql).withColumn "state"
        (MySql.enumType ["it's", "", "a,b", "')", "''"]) false),
      f.name = "state" ∧ f.RestrictedTo ["it's", "", "a,b", "')", "''"] := by
  have nonempty : ["it's", "", "a,b", "')", "''"] ≠ [] := by decide
  exact ⟨nonempty, by decide, (enumMembers_kept nonempty).2.2 _ ⟨"state", _, false⟩ (List.mem_singleton.mpr rfl) rfl rfl⟩

end FilterQuery
