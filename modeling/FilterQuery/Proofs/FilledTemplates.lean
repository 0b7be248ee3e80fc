import FilterQuery.Proofs.OperandForms
import FilterQuery.Proofs.WovenLeaves

namespace FilterQuery

namespace Template

-- The text that is cut at its holes.
def marked (t : Template) : String := String.ofList (t.lead.toList ++ t.rest.flatMap fun text => hole ++ text.toList)

def clear (t : Template) : Bool := (t.lead :: t.rest).all fun text => !text.toList.contains '\x7b'

def fillRest? : List String → List (List Piece) → Option (List Piece)
  | [], [] => some []
  | text :: texts, part :: parts => (fillRest? texts parts).map fun filled => part ++ .text text :: filled
  | _, _ => none

-- Each hole with a part of its own, none left over on either side.
def fill? (t : Template) (parts : List (List Piece)) : Option (List Piece) :=
  (fillRest? t.rest parts).map (.text t.lead :: ·)

def Takes (t : Template) (args : List Expr) : Prop := t.clear = true ∧ t.holes = args.length

variable {c : Char} {cs : List Char} {t : Template}

theorem split_some (cs : List Char) : split cs ≠ [] := by
  fun_cases split cs <;> exact fun empty => nomatch empty

theorem split_plain (plain : c ≠ '\x7b') : split (c :: cs) = (split cs).modifyHead (c :: ·) := by
  cases cs with
  | nil => rfl
  | cons next rest =>
    rw [split, if_neg fun both => plain both.1]
    cases pieces : split (next :: rest) with
    | nil => exact absurd pieces (split_some _)
    | cons piece later => rfl

theorem split_append {text : List Char} (plain : '\x7b' ∉ text) (rest : List Char) :
    split (text ++ rest) = (split rest).modifyHead (text ++ ·) := by
  induction text with
  | nil => exact (congrFun List.modifyHead_id (split rest)).symm
  | cons c text ih =>
    rw [List.mem_cons, not_or] at plain
    rcases plain with ⟨other, later⟩
    rw [List.cons_append, split_plain (Ne.symm other), ih later, List.modifyHead_modifyHead]
    rfl

theorem split_rest {texts : List String} (plain : ∀ text ∈ texts, '\x7b' ∉ text.toList) :
    split (texts.flatMap fun text => hole ++ text.toList) = [] :: texts.map String.toList := by
  induction texts with
  | nil => rfl
  | cons text rest ih =>
    rw [List.forall_mem_cons] at plain
    have cut : split (hole ++ (text.toList ++ rest.flatMap fun text => hole ++ text.toList)) =
        [] :: split (text.toList ++ rest.flatMap fun text => hole ++ text.toList) := rfl
    rw [List.flatMap_cons, List.append_assoc, cut, split_append plain.1, ih plain.2]
    simp

theorem ofText_marked (clear : t.clear = true) : ofText t.marked = t := by
  have plain : ∀ text ∈ t.lead :: t.rest, '\x7b' ∉ text.toList := by
    simpa [Template.clear] using clear
  rw [List.forall_mem_cons] at plain
  have pieces : split t.marked.toList = t.lead.toList :: t.rest.map String.toList := by
    rw [marked, String.toList_ofList, split_append plain.1, split_rest plain.2]
    simp
  rw [ofText, pieces]
  simp

theorem fill_render (d : Dialect) {args : List Expr} (same : t.holes = args.length) :
    t.fill? (args.map (Render.expr d)) = some (Render.expr d (.template t args)) := by
  have rest : ∀ (texts : List String) (args : List Expr), texts.length = args.length →
      fillRest? texts (args.map (Render.expr d)) = some (Render.filled d texts args) := by
    intro texts
    induction texts with
    | nil =>
      intro args same
      cases args with
      | nil => rfl
      | cons e later => cases same
    | cons text texts ih =>
      intro args same
      cases args with
      | nil => cases same
      | cons e later =>
        rw [List.map_cons, fillRest?, ih later (Nat.succ.inj same)]
        rfl
  rw [fill?, rest t.rest args same]
  rfl

end Template

namespace Expr

mutual
-- Every template in an expression, at any depth, with what it is applied to.
def templates : Expr → List (Template × List Expr)
  | column _ _ | value _ | constant _ => []
  | binary left _ right => left.templates ++ right.templates
  | inList e list _ => e.templates ++ listTemplates list
  | isNull e _ | not e | notTrue e => e.templates
  | and members | or members => listTemplates members
  | func _ args => listTemplates args
  | template text args => (text, args) :: listTemplates args
  | existsIn query _ | scalar query => selectTemplates query

def listTemplates : List Expr → List (Template × List Expr)
  | [] => []
  | e :: rest => e.templates ++ listTemplates rest

def selectTemplates : Select → List (Template × List Expr)
  | ⟨_, _, columns, joins, conditions, orders, _, _⟩ =>
    listTemplates columns ++ joinsTemplates joins ++ listTemplates conditions ++ ordersTemplates orders

def joinsTemplates : List Join → List (Template × List Expr)
  | [] => []
  | ⟨_, _, _, condition⟩ :: rest => condition.templates ++ joinsTemplates rest

def ordersTemplates : List SortKey → List (Template × List Expr)
  | [] => []
  | ⟨key, _, _⟩ :: rest => key.templates ++ ordersTemplates rest
end

def Filled (e : Expr) : Prop := ∀ p ∈ e.templates, p.1.Takes p.2

namespace Filled

variable {e left right col : Expr} {list members args : List Expr}

theorem list_iff : (∀ p ∈ listTemplates list, p.1.Takes p.2) ↔ ∀ e ∈ list, e.Filled := by
  induction list with
  | nil => exact ⟨fun _ => List.forall_mem_nil _, fun _ => List.forall_mem_nil _⟩
  | cons e rest ih => rw [listTemplates, List.forall_mem_append, ih, List.forall_mem_cons, Filled]

theorem column (table : Option String) (name : String) : (Expr.column table name).Filled := List.forall_mem_nil _

theorem value (v : Value) : (Expr.value v).Filled := List.forall_mem_nil _

theorem constant (b : Bool) : (Expr.constant b).Filled := List.forall_mem_nil _

theorem isNull (own : e.Filled) (negated : Bool) : (Expr.isNull e negated).Filled := own

theorem binary (op : BinOp) (first : left.Filled) (second : right.Filled) : (Expr.binary left op right).Filled :=
  List.forall_mem_append.mpr ⟨first, second⟩

theorem inList (own : e.Filled) (each : ∀ member ∈ list, member.Filled) (negated : Bool) :
    (Expr.inList e list negated).Filled :=
  List.forall_mem_append.mpr ⟨own, list_iff.mpr each⟩

theorem func (name : String) (each : ∀ e ∈ args, e.Filled) : (Expr.func name args).Filled := list_iff.mpr each

theorem template {text : Template} (clear : text.clear = true) (same : text.holes = args.length)
    (each : ∀ e ∈ args, e.Filled) : (Expr.template text args).Filled :=
  List.forall_mem_cons.mpr ⟨⟨clear, same⟩, list_iff.mpr each⟩

-- A test of the column against one value.
theorem pair {text : Template} (clear : text.clear = true) (same : text.holes = 2) (first : left.Filled)
    (second : right.Filled) : (Expr.template text [left, right]).Filled :=
  template clear same (List.forall_mem_cons.mpr ⟨first, List.forall_mem_singleton.mpr second⟩)

theorem conjunction (each : ∀ e ∈ list, e.Filled) : (Expr.conjunction list).Filled := by
  unfold Expr.conjunction
  split
  · exact .constant true
  · exact each _ (List.mem_singleton_self _)
  · exact list_iff.mpr each

theorem disjunction (each : ∀ e ∈ list, e.Filled) : (Expr.disjunction list).Filled := by
  unfold Expr.disjunction
  split
  · exact .constant false
  · exact each _ (List.mem_singleton_self _)
  · exact list_iff.mpr each

theorem andParts (own : e.Filled) : ∀ part ∈ e.andParts, part.Filled := by
  unfold Expr.andParts
  split
  · exact List.forall_mem_nil _
  · exact list_iff.mp own
  · exact List.forall_mem_singleton.mpr own

theorem orParts (own : e.Filled) : ∀ part ∈ e.orParts, part.Filled := by
  unfold Expr.orParts
  split
  · exact List.forall_mem_nil _
  · exact list_iff.mp own
  · exact List.forall_mem_singleton.mpr own

theorem all (each : ∀ e ∈ list, e.Filled) : (Expr.all list).Filled := by
  unfold Expr.all
  split
  · exact .constant false
  · exact conjunction (List.forall_mem_flatMap.mpr fun e member => (each e member).andParts)

theorem any (each : ∀ e ∈ list, e.Filled) : (Expr.any list).Filled := by
  unfold Expr.any
  split
  · exact .constant true
  · exact disjunction (List.forall_mem_flatMap.mpr fun e member => (each e member).orParts)

end Filled
end Expr

section Tests

variable {col : Expr}

theorem comparison_filled {param : Value → Expr} (tested : col.Filled) (each : ∀ v, (param v).Filled)
    (op : Operator) (operand : Operand) : ∀ e ∈ comparison col param op operand, e.Filled := by
  intro e built
  have members : ∀ values : List Value, ∀ member ∈ values.map param, member.Filled :=
    fun values => List.forall_mem_map.mpr fun v _ => each v
  unfold comparison at built
  split at built <;> cases built
  case h_1 | h_2 | h_13 => exact .isNull tested _
  case h_9 | h_10 => exact .constant _
  case h_11 | h_12 => exact .inList tested (members _) _
  all_goals exact .binary _ tested (each _)

theorem textMatch_filled (tested : col.Filled) (op : Operator) (raw : String) (style : LikeStyle) :
    ∀ e ∈ textMatch col op raw style, e.Filled := by
  intro e built
  unfold textMatch at built
  split at built
  · cases built
    unfold affixMatch
    split
    · exact .pair rfl rfl tested (.value _)
    · exact .binary _ tested (.value _)
    · exact .pair rfl rfl tested (.value _)
  · unfold patternMatch at built
    split at built <;> cases built
    case h_1 | h_2 | h_7 | h_8 => exact .pair rfl rfl tested (.value _)
    all_goals exact .binary _ tested (.value _)

end Tests

variable {col : Expr}

theorem ApplyOptions.column_filled (options : ApplyOptions) (f : Field) : (options.column f).Filled :=
  .column _ _

namespace Postgres

variable {ty : String}

-- A type name that may stand in a cast has no braces.
theorem cast_clear (own : ty.toList.all isCastChar = true) : (Template.mk "" ["::" ++ ty]).clear = true := by
  have plain : '\x7b' ∉ ty.toList := fun member => nomatch List.all_eq_true.mp own _ member
  simpa [Template.clear] using plain

theorem cast_filled (own : ty.toList.all isCastChar = true) (v : Value) : (cast ty v).Filled :=
  .template (cast_clear own) rfl (List.forall_mem_singleton.mpr (.value v))

theorem castParam_filled (f : Field) (v : Value) : (castParam (enumCast f) v).Filled := by
  unfold castParam
  split
  · rename_i ty found
    unfold enumCast at found
    split at found
    · split at found
      · cases found
      · exact cast_filled (castTarget_casts found) v
    · cases found
  · exact .value v

section

variable (tested : col.Filled)
include tested

theorem textLeaf_filled (op : Operator) (operand : Operand) : ∀ e ∈ textLeaf col op operand, e.Filled := by
  unfold textLeaf
  split
  · exact good_bind (fun p => textMatch_filled tested _ _ _) _
  · split
    case h_4 => exact good_map (fun p => .pair rfl rfl tested (.value _)) _
    case h_5 => exact comparison_filled tested .value _ _
    all_goals exact good_map (fun p => .binary _ tested (.value _)) _

theorem jsonLeaf_filled (op : Operator) (operand : Operand) : ∀ e ∈ jsonLeaf col op operand, e.Filled := by
  have document : ∀ v, (cast "jsonb" v).Filled := cast_filled rfl
  unfold jsonLeaf
  split
  case h_6 => exact comparison_filled tested document _ _
  case h_1 | h_2 =>
    intro e built
    cases built
    exact .binary _ tested (document _)
  case h_3 => exact good_map (fun key => .binary _ tested (.value _)) _
  all_goals exact good_map (fun keys => .binary _ tested (cast_filled rfl _)) _

theorem arrayLeaf_filled (own : ty.toList.all isCastChar = true) (op : Operator) (operand : Operand) :
    ∀ e ∈ arrayLeaf col ty op operand, e.Filled := by
  unfold arrayLeaf
  split
  case h_4 => exact comparison_filled tested (cast_filled own) _ _
  all_goals exact good_map (fun values => .binary _ tested (cast_filled own _)) _

theorem geoLeaf_filled (op : Operator) (operand : Operand) (options : ApplyOptions) :
    ∀ e ∈ geoLeaf col op operand options, e.Filled := by
  have value : ∀ x, (floatParam x).Filled := fun x => .value _
  unfold geoLeaf
  split
  · exact good_map (fun p => .template rfl rfl (by simp [tested, value])) _
  · exact good_map (fun p => .template rfl rfl (by simp [tested, value])) _
  · exact comparison_filled tested .value _ _

end

theorem leaf_filled (f : Field) (ty : SemanticType) (op : Operator) (operand : Operand) (options : ApplyOptions) :
    ∀ e ∈ leaf f ty op operand options, e.Filled := by
  have tested := options.column_filled f
  unfold leaf
  split
  · exact jsonLeaf_filled tested _ _
  · exact geoLeaf_filled tested _ _ _
  · exact arrayLeaf_filled tested (arrayCast_casts _ _) _ _
  · exact textLeaf_filled tested _ _
  · exact comparison_filled tested (castParam_filled f) _ _
  · exact comparison_filled tested .value _ _

end Postgres

namespace MySql

theorem jsonParam_filled (v : Value) : (jsonParam v).Filled :=
  .template rfl rfl (List.forall_mem_singleton.mpr (.value _))

-- The column, then as many keys as there are.
theorem containsPath_filled {mode : String} (known : mode = "one" ∨ mode = "all") (tested : col.Filled)
    {keys : List String} (nonempty : keys ≠ []) : (containsPath mode col keys).Filled := by
  have length := List.length_pos_iff.mpr nonempty
  refine .template ?_ ?_ (List.forall_mem_cons.mpr ⟨tested, ?_⟩)
  · have plain : '\x7b' ∉ mode.toList := by
      rcases known with rfl | rfl <;> decide
    simp [Template.clear, plain]
  · simp only [Template.holes, List.length_append, List.length_cons, List.length_replicate, List.length_map,
      List.length_nil]
    omega
  · exact List.forall_mem_map.mpr fun k _ => .value _

section

variable (tested : col.Filled)
include tested

theorem textLeaf_filled (op : Operator) (operand : Operand) : ∀ e ∈ textLeaf col op operand, e.Filled := by
  unfold textLeaf
  split
  · exact good_bind (fun p => textMatch_filled tested _ _ _) _
  · split
    case h_4 => exact comparison_filled tested .value _ _
    all_goals exact good_map (fun p => .pair rfl rfl tested (.value _)) _

theorem jsonLeaf_filled (op : Operator) (operand : Operand) : ∀ e ∈ jsonLeaf col op operand, e.Filled := by
  have paths : ∀ mode, mode = "one" ∨ mode = "all" →
      ∀ e ∈ operand.keys?.map (containsPath mode col), e.Filled := by
    intro mode known e built
    obtain ⟨keys, found, rfl⟩ := Option.map_eq_some_iff.mp built
    exact containsPath_filled known tested (Operand.keys_some found)
  unfold jsonLeaf
  split
  · intro e built
    cases built
    exact .pair rfl rfl tested (jsonParam_filled _)
  · intro e built
    cases built
    exact .pair rfl rfl (jsonParam_filled _) tested
  · exact paths _ (.inl rfl)
  · exact paths _ (.inl rfl)
  · exact paths _ (.inr rfl)
  · exact comparison_filled tested jsonParam_filled _ _

theorem arrayLeaf_filled (op : Operator) (operand : Operand) : ∀ e ∈ arrayLeaf col op operand, e.Filled := by
  have candidate : ∀ {test : Expr → Expr}, (∀ v, (test (jsonParam v)).Filled) →
      ∀ e ∈ (operand.list?.map fun values => jsonParam (jsonArray values)).map test, e.Filled := by
    intro test each
    rw [Option.map_map]
    exact good_map (fun values => each _) _
  unfold arrayLeaf
  split
  · exact candidate fun v => .pair rfl rfl tested (jsonParam_filled v)
  · exact candidate fun v => .pair rfl rfl (jsonParam_filled v) tested
  · exact candidate fun v => .pair rfl rfl tested (jsonParam_filled v)
  · exact comparison_filled tested jsonParam_filled _ _

theorem geoLeaf_filled (op : Operator) (operand : Operand) (options : ApplyOptions) :
    ∀ e ∈ geoLeaf col op operand options, e.Filled := by
  unfold geoLeaf
  split
  · exact good_map (fun p => .template rfl rfl (by simp [tested, Expr.Filled.value])) _
  · exact good_map (fun p => .pair rfl rfl (.value _) tested) _
  · exact comparison_filled tested .value _ _

end

theorem leaf_filled (f : Field) (ty : SemanticType) (op : Operator) (operand : Operand) (options : ApplyOptions) :
    ∀ e ∈ leaf f ty op operand options, e.Filled := by
  have tested := options.column_filled f
  unfold leaf
  split
  · exact textLeaf_filled tested _ _
  · exact jsonLeaf_filled tested _ _
  · exact arrayLeaf_filled tested _ _
  · exact geoLeaf_filled tested _ _ _
  · exact comparison_filled tested .value _ _

end MySql

namespace Sqlite

theorem json_filled {e : Expr} (own : e.Filled) : (Expr.func "json" [e]).Filled :=
  .func _ (List.forall_mem_singleton.mpr own)

section

variable (tested : col.Filled)
include tested

theorem textLeaf_filled (op : Operator) (operand : Operand) : ∀ e ∈ textLeaf col op operand, e.Filled := by
  unfold textLeaf
  split
  · exact good_bind (fun p => textMatch_filled tested _ _ _) _
  · split
    case h_3 => exact comparison_filled tested .value _ _
    all_goals exact good_map (fun p => .binary _ tested (.value _)) _

theorem jsonLeaf_filled (op : Operator) (operand : Operand) : ∀ e ∈ jsonLeaf col op operand, e.Filled := by
  have key : ∀ key, (hasKey col key).Filled := fun key => .pair rfl rfl tested (.value _)
  have each : ∀ keys : List String, ∀ e ∈ keys.map (hasKey col), e.Filled :=
    fun keys => List.forall_mem_map.mpr fun k _ => key k
  unfold jsonLeaf
  split
  · exact good_map key _
  · exact good_map (fun keys => .any (each keys)) _
  · exact good_map (fun keys => .all (each keys)) _
  · exact comparison_filled tested .value _ _
  · exact comparison_filled (json_filled tested) (fun v => json_filled (.value _)) _ _

theorem arrayLeaf_filled (op : Operator) (operand : Operand) : ∀ e ∈ arrayLeaf col op operand, e.Filled := by
  have candidate : ∀ {test : Expr → Expr}, (∀ v, (test (.value v)).Filled) →
      ∀ e ∈ (operand.list?.map fun values => Expr.value (jsonArray values)).map test, e.Filled := by
    intro test each
    rw [Option.map_map]
    exact good_map (fun values => each _) _
  unfold arrayLeaf
  split
  · exact candidate fun v => .pair rfl rfl (.value _) tested
  · exact candidate fun v => .pair rfl rfl tested (.value _)
  · exact candidate fun v => .pair rfl rfl tested (.value _)
  · exact comparison_filled tested .value _ _
  · exact comparison_filled (json_filled tested) (fun v => json_filled (.value _)) _ _

end

theorem leaf_filled (f : Field) (ty : SemanticType) (op : Operator) (operand : Operand) (options : ApplyOptions) :
    ∀ e ∈ leaf f ty op operand options, e.Filled := by
  have tested := options.column_filled f
  unfold leaf
  split
  · exact textLeaf_filled tested _ _
  · exact jsonLeaf_filled tested _ _
  · exact arrayLeaf_filled tested _ _
  · exact comparison_filled tested .value _ _

end Sqlite

namespace MsSql

section

variable (tested : col.Filled)
include tested

theorem textLeaf_filled (op : Operator) (operand : Operand) : ∀ e ∈ textLeaf col op operand, e.Filled := by
  unfold textLeaf
  split
  · exact good_bind (fun p => textMatch_filled tested _ _ _) _
  · split
    · exact good_map (fun p => .pair rfl rfl tested (.value _)) _
    · exact comparison_filled tested .value _ _

theorem jsonLeaf_filled (op : Operator) (operand : Operand) : ∀ e ∈ jsonLeaf col op operand, e.Filled := by
  have key : ∀ key, (hasKey col key).Filled := fun key => .pair rfl rfl tested (.value _)
  have each : ∀ keys : List String, ∀ e ∈ keys.map (hasKey col), e.Filled :=
    fun keys => List.forall_mem_map.mpr fun k _ => key k
  unfold jsonLeaf
  split
  · exact good_map key _
  · exact good_map (fun keys => .any (each keys)) _
  · exact good_map (fun keys => .all (each keys)) _
  · exact comparison_filled tested (fun v => .value _) _ _

theorem geoLeaf_filled (op : Operator) (operand : Operand) (options : ApplyOptions) :
    ∀ e ∈ geoLeaf col op operand options, e.Filled := by
  unfold geoLeaf
  split
  · exact good_map (fun p => .template rfl rfl (by simp [tested, Expr.Filled.value])) _
  · exact good_map (fun p => .pair rfl rfl tested (.value _)) _
  · exact comparison_filled tested .value _ _

end

theorem leaf_filled (f : Field) (ty : SemanticType) (op : Operator) (operand : Operand) (options : ApplyOptions) :
    ∀ e ∈ leaf f ty op operand options, e.Filled := by
  have tested := options.column_filled f
  unfold leaf
  split
  · exact textLeaf_filled tested _ _
  · exact jsonLeaf_filled tested _ _
  · exact geoLeaf_filled tested _ _ _
  · exact comparison_filled tested .value _ _

end MsSql

namespace Adapter

variable {a : Adapter} {d : Dialect} {f : Field} {op : Operator} {operand : Operand} {options : ApplyOptions}

-- Adapters that speak SQL build SQL.
theorem leaf_filled (sql : a.dialect? = some d) {p : Predicate} (built : a.leaf f ty op operand options = some p) :
    ∃ e, p = .sql e ∧ e.Filled := by
  cases a with
  | search => cases sql
  | postgres | cockroachDb =>
    obtain ⟨e, own, same⟩ := Option.map_eq_some_iff.mp built
    exact ⟨e, same.symm, Postgres.leaf_filled f ty op operand options e own⟩
  | mySql =>
    obtain ⟨e, own, same⟩ := Option.map_eq_some_iff.mp built
    exact ⟨e, same.symm, MySql.leaf_filled f ty op operand options e own⟩
  | sqlite =>
    obtain ⟨e, own, same⟩ := Option.map_eq_some_iff.mp built
    exact ⟨e, same.symm, Sqlite.leaf_filled f ty op operand options e own⟩
  | msSql =>
    obtain ⟨e, own, same⟩ := Option.map_eq_some_iff.mp built
    exact ⟨e, same.symm, MsSql.leaf_filled f ty op operand options e own⟩

theorem templates_filled (sql : a.dialect? = some d) (scalar : f.type? = some ty) (offered : a.implements ty op = true)
    (coerced : Operand.coerce field op ty f.enumMembers raw = .ok operand) (options : ApplyOptions) :
    ∃ e, a.predicate? f op operand options = some (.sql e) ∧
      ∀ t args, (t, args) ∈ e.templates → Template.ofText t.marked = t ∧ t.holes = args.length ∧
        ∀ other : Dialect, t.fill? (args.map (Render.expr other)) = some (Render.expr other (.template t args)) := by
  obtain ⟨p, built⟩ := predicate_built scalar offered coerced options
  have leaf : a.leaf f ty op operand options = some p := by
    rw [predicate?, scalar] at built
    exact (if_pos offered).symm.trans built
  obtain ⟨e, rfl, filled⟩ := leaf_filled sql leaf
  refine ⟨e, built, fun t args member => ?_⟩
  have takes := filled (t, args) member
  exact ⟨Template.ofText_marked takes.1, takes.2, fun other => Template.fill_render other takes.2⟩

-- No cast can name such a type.
def bracedMoods : Field := { Field.scalar "moods" (.array .string) with nativeType := some "mood\x7b\x7d[]" }

theorem braces_filled :
    (∃ e, Adapter.postgres.predicate? bracedMoods .contains (.list [.string "\x7b\x7d"]) .empty = some (.sql e) ∧
      ∀ t args, (t, args) ∈ e.templates → Template.ofText t.marked = t ∧ t.holes = args.length ∧
        ∀ other : Dialect, t.fill? (args.map (Render.expr other)) = some (Render.expr other (.template t args))) ∧
    ∃ e, Adapter.mySql.predicate? (Field.scalar "notes" .json) .hasKeysAll (.keys ["\x7b\x7d", "a", "b"]) .empty =
        some (.sql e) ∧
      ∀ t args, (t, args) ∈ e.templates → Template.ofText t.marked = t ∧ t.holes = args.length ∧
        ∀ other : Dialect, t.fill? (args.map (Render.expr other)) = some (Render.expr other (.template t args)) := by
  have moods : Operand.coerce "moods" .contains (.array .string) none (.arr [.str "\x7b\x7d"]) =
      .ok (.list [.string "\x7b\x7d"]) := rfl
  have keys : Operand.coerce "notes" .hasKeysAll .json none (.arr [.str "\x7b\x7d", .str "a", .str "b"]) =
      .ok (.keys ["\x7b\x7d", "a", "b"]) := rfl
  exact ⟨templates_filled rfl rfl rfl moods .empty, templates_filled rfl rfl rfl keys .empty⟩

end Adapter
end FilterQuery
