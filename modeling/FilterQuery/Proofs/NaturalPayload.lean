import FilterQuery.Filter.Payload
import FilterQuery.Proofs.Layout

namespace FilterQuery

-- Keys with a leading underscore are combinators and operators.
def NamesField (name : String) : Prop := name.toList.head? ≠ some '_'

theorem PayloadKey.of_field {key : String} : PayloadKey.of key = .field ↔ NamesField key := by
  unfold PayloadKey.of NamesField
  split
  · rename_i same
    subst same
    decide +kernel
  · split
    · rename_i same
      subst same
      decide +kernel
    · split
      · rename_i same
        subst same
        decide +kernel
      · split <;> simp [*]

theorem PayloadKey.of_tag (op : Operator) : PayloadKey.of op.tag = .operator := by
  cases op <;> decide +kernel

-- Negations are no lists.
theorem PayloadKey.of_not_list (key : String) : PayloadKey.of key ≠ .list .not := by
  unfold PayloadKey.of
  repeat' split
  all_goals simp

theorem Operator.ofTag_tag (op : Operator) : Operator.ofTag? op.tag = some op := by
  cases op <;> decide +kernel

namespace FilterNode

-- The tree is sound, and each of its paths can be spelled with keys of a payload.
structure Nameable (n : FilterNode) : Prop where
  valid : n.validate = .ok ()
  named : ∀ l ∈ n.leaves, ∀ name ∈ l.field.segments, NamesField name

-- Objects of one member, the innermost with the operator and its operand.
def spelled (op : Operator) (value : Json) : List String → Json
  | [] => .single op.tag value
  | name :: rest => .single name (spelled op value rest)

mutual
def toPayload : FilterNode → Json
  | leaf l => spelled l.operator l.value l.field.segments
  | combine .and children => .single "_and" (.arr (listToPayload children))
  | combine .or children => .single "_or" (.arr (listToPayload children))
  | combine .not (child :: _) => .single "_not" child.toPayload
  | combine .not [] => .single "_not" .null

def listToPayload : List FilterNode → List Json
  | [] => []
  | n :: rest => n.toPayload :: listToPayload rest
end

theorem nameable_leaf {l : Leaf} :
    (leaf l).Nameable ↔ l.field.segments ≠ [] ∧ ∀ name ∈ l.field.segments, NamesField name := by
  have valid : (leaf l).validate = .ok () ↔ l.field.segments ≠ [] := by
    rw [validate, validateLeaf, FieldPath.isEmpty]
    cases l.field.segments <;> simp
  constructor
  · intro nameable
    exact ⟨valid.mp nameable.valid, nameable.named l (by simp [leaves])⟩
  · intro given
    refine ⟨valid.mpr given.1, ?_⟩
    intro l' member
    rw [List.mem_singleton.mp member]
    exact given.2

theorem nameable_combine {op : Combinator} {children : List FilterNode} :
    (combine op children).Nameable ↔ (op = .not → children.length = 1) ∧ ∀ n ∈ children, n.Nameable := by
  have valid : (combine op children).validate = .ok () ↔
      (op = .not → children.length = 1) ∧ ∀ n ∈ children, n.validate = .ok () := by
    rw [← validateAll_exact]
    cases op with
    | and => simp [validate]
    | or => simp [validate]
    | not =>
      rw [validate]
      split <;> simp [*]
  have leaves_of : ∀ l, l ∈ (combine op children).leaves ↔ ∃ n ∈ children, l ∈ n.leaves := fun l => mem_listLeaves
  constructor
  · intro nameable
    obtain ⟨one, each⟩ := valid.mp nameable.valid
    refine ⟨one, ?_⟩
    intro n member
    exact ⟨each n member, fun l leaf => nameable.named l ((leaves_of l).mpr ⟨n, member, leaf⟩)⟩
  · rintro ⟨one, each⟩
    refine ⟨valid.mpr ⟨one, fun n member => (each n member).valid⟩, ?_⟩
    intro l leaf
    obtain ⟨n, member, leaf⟩ := (leaves_of l).mp leaf
    exact (each n member).named l leaf

theorem nameable_empty : empty.Nameable := nameable_combine.mpr ⟨by simp, by simp⟩

theorem nameable_joinParts {parts : List FilterNode} (each : ∀ n ∈ parts, n.Nameable) : (joinParts parts).Nameable := by
  unfold joinParts
  split
  · exact each _ (List.mem_singleton_self _)
  · exact nameable_combine.mpr ⟨by simp, each⟩

section Reading

theorem ofOperator_nameable {path : FieldPath} (named : ∀ name ∈ path.segments, NamesField name)
    (read : ofOperator path tag value = .ok n) : n.Nameable := by
  unfold ofOperator at read
  split at read
  · cases read
  · rename_i rooted
    split at read
    · cases read
      refine nameable_leaf.mpr ⟨?_, named⟩
      simpa [FieldPath.isEmpty] using rooted
    · cases read

theorem ofAtom_nameable {path : FieldPath} (named : ∀ name ∈ path.segments, NamesField name)
    (read : ofAtom path key value = .ok n) : n.Nameable := by
  unfold ofAtom at read
  split at read <;> first | cases read | exact ofOperator_nameable named read

theorem named_child {path : FieldPath} (named : ∀ name ∈ path.segments, NamesField name) (plain : PayloadKey.of key = .field) :
    ∀ name ∈ (path.child key).segments, NamesField name := by
  intro name member
  rcases List.mem_append.mp member with before | last
  · exact named name before
  · rw [List.mem_singleton.mp last]
    exact PayloadKey.of_field.mp plain

mutual
-- The path grows by names of fields only, so wherever an operator is met its path can be spelled.
theorem ofMember_nameable {path : FieldPath} (named : ∀ name ∈ path.segments, NamesField name) (key : String) (value : Json)
    (read : ofMember path key value = .ok n) : n.Nameable := by
  cases value with
  | obj inner =>
    rw [ofMember] at read
    split at read
    · obtain ⟨parts, within, same⟩ := bind_exact.mp read
      cases same
      have below := nameable_joinParts (ofMembers_nameable named inner within)
      exact nameable_combine.mpr ⟨fun _ => rfl, by simpa using below⟩
    · obtain ⟨parts, within, same⟩ := bind_exact.mp read
      cases same
      have below := nameable_joinParts (ofMembers_nameable named inner within)
      exact nameable_combine.mpr ⟨fun _ => rfl, by simpa using below⟩
    · exact ofOperator_nameable named read
    · rename_i plain
      obtain ⟨parts, within, same⟩ := bind_exact.mp read
      cases same
      exact nameable_joinParts (ofMembers_nameable (named_child named plain) inner within)
  | arr items =>
    rw [ofMember] at read
    split at read
    · rename_i op list
      obtain ⟨children, within, same⟩ := bind_exact.mp read
      cases same
      refine nameable_combine.mpr ⟨?_, ofItems_nameable named key items within⟩
      rintro rfl
      exact absurd list (PayloadKey.of_not_list key)
    · exact ofAtom_nameable named read
  | null =>
    rw [ofMember] at read
    split at read
    · rename_i op list
      cases read
      refine nameable_combine.mpr ⟨?_, by simp⟩
      rintro rfl
      exact absurd list (PayloadKey.of_not_list key)
    · cases read
      exact nameable_combine.mpr ⟨fun _ => rfl, by simpa using nameable_empty⟩
    · exact ofOperator_nameable named read
    · cases read
      exact nameable_empty
  | bool b => exact ofAtom_nameable named (by rwa [ofMember] at read)
  | num x => exact ofAtom_nameable named (by rwa [ofMember] at read)
  | str s => exact ofAtom_nameable named (by rwa [ofMember] at read)

theorem ofMembers_nameable {path : FieldPath} (named : ∀ name ∈ path.segments, NamesField name) (members : List (String × Json))
    (read : ofMembers path members = .ok parts) : ∀ n ∈ parts, n.Nameable := by
  cases members with
  | nil =>
    cases read
    simp
  | cons member rest =>
    obtain ⟨key, value⟩ := member
    rw [ofMembers] at read
    obtain ⟨part, here, read⟩ := bind_exact.mp read
    obtain ⟨others, later, same⟩ := bind_exact.mp read
    cases same
    intro n among
    rcases List.mem_cons.mp among with rfl | among
    · exact ofMember_nameable named key value here
    · exact ofMembers_nameable named rest later n among

theorem ofItems_nameable {path : FieldPath} (named : ∀ name ∈ path.segments, NamesField name) (key : String) (items : List Json)
    (read : ofItems path key items = .ok children) : ∀ n ∈ children, n.Nameable := by
  cases items with
  | nil =>
    cases read
    simp
  | cons item rest =>
    rw [ofItems] at read
    obtain ⟨child, here, read⟩ := bind_exact.mp read
    obtain ⟨others, later, same⟩ := bind_exact.mp read
    cases same
    intro n among
    rcases List.mem_cons.mp among with rfl | among
    · exact ofItem_nameable named key item here
    · exact ofItems_nameable named key rest later n among

theorem ofItem_nameable {path : FieldPath} (named : ∀ name ∈ path.segments, NamesField name) (key : String) (item : Json)
    (read : ofItem path key item = .ok n) : n.Nameable := by
  cases item with
  | obj inner =>
    rw [ofItem] at read
    obtain ⟨parts, within, same⟩ := bind_exact.mp read
    cases same
    exact nameable_joinParts (ofMembers_nameable named inner within)
  | null =>
    cases read
    exact nameable_empty
  | _ => cases read
end

theorem ofPayload_nameable {payload : Json} (read : ofPayload payload = .ok n) : n.Nameable := by
  cases payload with
  | obj members =>
    rw [ofPayload] at read
    obtain ⟨parts, within, same⟩ := bind_exact.mp read
    cases same
    exact nameable_joinParts (ofMembers_nameable (by simp [FieldPath.empty]) members within)
  | null =>
    cases read
    exact nameable_empty
  | _ => cases read

end Reading

section Spelling

-- An object of one member is the part that the member gives.
theorem ofItem_single (path : FieldPath) (outer key : String) (value : Json) :
    ofItem path outer (.single key value) = ofMember path key value := by
  rw [Json.single, ofItem, ofMembers, ofMembers]
  cases ofMember path key value <;> rfl

theorem ofMember_operator {key : String} (tagged : PayloadKey.of key = .operator) (path : FieldPath) (value : Json) :
    ofMember path key value = ofOperator path key value := by
  cases value <;> simp [ofMember, ofAtom, tagged]

-- What stands below a key that only goes on, or negates, or is a list of one, is read as an item is.
theorem ofMember_below (path : FieldPath) (outer key : String) (inner : List (String × Json)) :
    ofMember path key (.obj inner) =
      match PayloadKey.of key with
      | .list op => (ofItem path outer (.obj inner)).map fun n => combine op [n]
      | .negation => (ofItem path outer (.obj inner)).map fun n => combine .not [n]
      | .operator => ofOperator path key (.obj inner)
      | .field => ofItem (path.child key) outer (.obj inner) := by
  rw [ofMember]
  split <;> simp only [*, ofItem]
  · cases ofMembers path inner <;> rfl
  · cases ofMembers path inner <;> rfl

theorem ofMember_list {key : String} (list : PayloadKey.of key = .list op) (path : FieldPath) (items : List Json) :
    ofMember path key (.arr items) = (ofItems path key items).map (combine op) := by
  simp only [ofMember, list]
  cases ofItems path key items <;> rfl

theorem spelled_obj (op : Operator) (value : Json) (names : List String) :
    ∃ inner, spelled op value names = .obj inner := by
  cases names <;> exact ⟨_, rfl⟩

theorem ofItem_spelled (op : Operator) (value : Json) (names : List String) (path : FieldPath) (outer : String)
    (named : ∀ name ∈ names, NamesField name) (rooted : path.segments ++ names ≠ []) :
    ofItem path outer (spelled op value names) = .ok (leaf ⟨path.append ⟨names⟩, op, value⟩) := by
  induction names generalizing path with
  | nil =>
    have whole : path.append ⟨[]⟩ = path := by simp [FieldPath.append]
    have filled : path.isEmpty = false := by simpa [FieldPath.isEmpty] using rooted
    rw [spelled, ofItem_single, ofMember_operator (PayloadKey.of_tag op), ofOperator, filled, Operator.ofTag_tag, whole]
    rfl
  | cons name rest ih =>
    obtain ⟨inner, below⟩ := spelled_obj op value rest
    have plain : PayloadKey.of name = .field := PayloadKey.of_field.mpr (named name (List.mem_cons_self ..))
    have longer : (path.child name).append ⟨rest⟩ = path.append ⟨name :: rest⟩ := by
      simp [FieldPath.append, FieldPath.child]
    rw [spelled, ofItem_single, below, ofMember_below path outer, plain, ← below, ← longer]
    exact ih (path.child name) (fun name member => named name (List.mem_cons_of_mem _ member)) (by simp [FieldPath.child])

theorem toPayload_obj (n : FilterNode) : ∃ inner, n.toPayload = .obj inner := by
  cases n with
  | leaf l => exact spelled_obj l.operator l.value l.field.segments
  | combine op children =>
    cases op with
    | and => exact ⟨_, rfl⟩
    | or => exact ⟨_, rfl⟩
    | not => cases children <;> exact ⟨_, rfl⟩

mutual
theorem ofItem_toPayload (n : FilterNode) (nameable : n.Nameable) (outer : String) :
    ofItem .empty outer n.toPayload = .ok n := by
  cases n with
  | leaf l =>
    obtain ⟨rooted, named⟩ := nameable_leaf.mp nameable
    rw [toPayload, ofItem_spelled l.operator l.value l.field.segments .empty outer named rooted]
    rfl
  | combine op children =>
    obtain ⟨one, each⟩ := nameable_combine.mp nameable
    cases op with
    | and =>
      have listed : PayloadKey.of "_and" = .list .and := by decide +kernel
      rw [toPayload, ofItem_single, ofMember_list listed, ofItems_toPayload children each]
      rfl
    | or =>
      have listed : PayloadKey.of "_or" = .list .or := by decide +kernel
      rw [toPayload, ofItem_single, ofMember_list listed, ofItems_toPayload children each]
      rfl
    | not =>
      obtain ⟨child, rfl⟩ := List.length_eq_one_iff.mp (one rfl)
      have below := ofItem_toPayload child (each child (List.mem_singleton_self _)) outer
      obtain ⟨inner, shape⟩ := toPayload_obj child
      rw [toPayload, ofItem_single, shape, ofMember_below .empty outer, ← shape, below]
      rfl

theorem ofItems_toPayload (nodes : List FilterNode) (each : ∀ n ∈ nodes, n.Nameable) (key : String) :
    ofItems .empty key (listToPayload nodes) = .ok nodes := by
  cases nodes with
  | nil => rfl
  | cons n rest =>
    rw [listToPayload, ofItems, ofItem_toPayload n (each n (List.mem_cons_self ..)),
      ofItems_toPayload rest fun m member => each m (List.mem_cons_of_mem _ member)]
    rfl
end

end Spelling

theorem ofPayload_toPayload {n : FilterNode} (nameable : n.Nameable) : ofPayload n.toPayload = .ok n := by
  obtain ⟨inner, shape⟩ := toPayload_obj n
  have read := ofItem_toPayload n nameable ""
  rw [shape, ofItem] at read
  rw [shape, ofPayload]
  exact read

-- The trees that payloads name are the sound ones with paths that keys can spell, and such a tree is what its own
-- payload names.
theorem ofPayload_image (n : FilterNode) :
    ((∃ payload, ofPayload payload = .ok n) ↔ n.Nameable) ∧ (ofPayload n.toPayload = .ok n ↔ n.Nameable) := by
  refine ⟨⟨?_, ?_⟩, ofPayload_nameable, ofPayload_toPayload⟩
  · rintro ⟨payload, read⟩
    exact ofPayload_nameable read
  · intro nameable
    exact ⟨n.toPayload, ofPayload_toPayload nameable⟩

-- A lone object stands for a list of one, so a tree may have other payloads than its own.
example : ofPayload (.single "_or" (.single "a" (.single "_eq" .null))) =
    .ok (combine .or [leaf ⟨⟨["a"]⟩, .eq, .null⟩]) := by rfl

end FilterNode
end FilterQuery
