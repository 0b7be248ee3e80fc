import Mathlib.Data.List.Forall2
import FilterQuery.Proofs.LeafPredicate
import FilterQuery.Proofs.WovenStatements

namespace FilterQuery

-- The texts of a template are legible and show nothing.
def Dialect.frames (d : Dialect) (text : Template) : Bool :=
  d.surrounds true 0 (text.lead :: text.rest) && d.leads text.lead && d.weaves text.rest

namespace Expr

variable {d : Dialect} {found others : List Landmark} {e left right : Expr}

theorem bears_all {founds : List (List Landmark)} {args : List Expr} (each : List.Forall₂ (Bears d) founds args) :
    (AllPlain d args ∧ AllCalm d args) ∧ listLandmarks d args = founds.flatten ∧ listSubqueryCount args = 0 := by
  induction each with
  | nil => exact ⟨⟨trivial, trivial⟩, rfl, rfl⟩
  | cons own rest ih =>
    obtain ⟨plain, calm, landmarks, subqueries⟩ := own
    obtain ⟨⟨plains, calms⟩, among, below⟩ := ih
    refine ⟨⟨⟨plain, plains⟩, calm, calms⟩, ?_, ?_⟩
    · rw [listLandmarks, landmarks, among, List.flatten_cons]
    · rw [listSubqueryCount, subqueries, below]

namespace Bears

theorem column (table : Option String) (name : String) : Bears d [.column] (.column table name) :=
  ⟨trivial, trivial, rfl, rfl⟩

theorem value (v : Value) : Bears d [] (.value v) := ⟨trivial, trivial, rfl, rfl⟩

theorem template {text : Template} {founds : List (List Landmark)} {args : List Expr} (frames : d.frames text = true)
    (same : args.length = text.rest.length) (each : List.Forall₂ (Bears d) founds args) :
    Bears d founds.flatten (.template text args) := by
  obtain ⟨⟨plains, calms⟩, landmarks, subqueries⟩ := bears_all each
  simp only [Dialect.frames, Bool.and_eq_true] at frames
  exact ⟨⟨same, frames.1.1, plains⟩, ⟨same, frames.1.2, frames.2, calms⟩, landmarks, subqueries⟩

theorem json (bears : Bears d found e) : Bears d found (.func "json" [e]) := by
  obtain ⟨⟨plains, calms⟩, landmarks, subqueries⟩ := bears_all (.cons bears .nil)
  have word : d.plain "json" = true ∧ Sign.landmarks .other (d.signs "json" ++ [.opening]) = [] := by
    cases d <;> exact ⟨rfl, rfl⟩
  refine ⟨⟨word.1, plains⟩, calms, ?_, subqueries⟩
  rw [Expr.landmarks, word.2, landmarks, List.flatten_singleton, List.nil_append]

end Bears

namespace Simple

theorem isNull (bears : Bears d [.column] e) (negated : Bool) : (Expr.isNull e negated).Simple d :=
  ⟨rfl, bears.plain, bears.calm, bears.landmarks, rfl⟩

theorem binary {op : BinOp} (words : d.plain op.symbol = true ∧ d.links op.symbol = true)
    (first : Bears d [.column] left) (second : Bears d [] right) : (Expr.binary left op right).Simple d := by
  refine ⟨rfl, ⟨first.plain, words.1, second.plain⟩, ⟨first.calm, words.2, second.calm⟩, ?_, ?_⟩
  · rw [landmarks, first.landmarks, second.landmarks, List.append_nil]
  · rw [subqueryCount, first.subqueries, second.subqueries]

theorem inList {list : List Expr} (first : Bears d [.column] e) (each : ∀ member ∈ list, Bears d [] member)
    (negated : Bool) : (Expr.inList e list negated).Simple d := by
  have alike : List.Forall₂ (Bears d) (list.map fun _ => []) list := by
    rw [List.forall₂_map_left_iff]
    exact List.forall₂_same.mpr each
  obtain ⟨⟨plains, calms⟩, among, -⟩ := bears_all alike
  refine ⟨rfl, ⟨first.plain, plains⟩, ⟨first.calm, calms⟩, ?_, rfl⟩
  rw [landmarks, first.landmarks, among]
  simp

theorem template {text : Template} {founds : List (List Landmark)} {args : List Expr} (frames : d.frames text = true)
    (same : args.length = text.rest.length) (each : List.Forall₂ (Bears d) founds args)
    (one : founds.flatten = [.column]) : (Expr.template text args).Simple d :=
  ⟨rfl, one ▸ .template frames same each⟩

-- A column and a value.
theorem pair {text : Template} (frames : d.frames text = true) (same : text.rest.length = 2)
    (first : Bears d [.column] left) (second : Bears d [] right) : (Expr.template text [left, right]).Simple d :=
  template frames same.symm (.cons first (.cons second .nil)) rfl

end Simple
end Expr

section Tests

variable {d : Dialect} {col : Expr}

open FilterQuery.Expr

theorem BinOp.words (d : Dialect) {op : BinOp} (own : ∀ symbol, op ≠ .custom symbol) :
    d.plain op.symbol = true ∧ d.links op.symbol = true := by
  cases op with
  | custom symbol => exact absurd rfl (own symbol)
  | _ => cases d <;> exact ⟨rfl, rfl⟩

theorem comparison_woven {param : Value → Expr} (tested : Bears d [.column] col) (each : ∀ v, Bears d [] (param v))
    (op : Operator) (operand : Operand) : ∀ e ∈ comparison col param op operand, e.Woven d := by
  intro e built
  have members : ∀ values : List Value, ∀ member ∈ values.map param, Bears d [] member :=
    fun values => List.forall_mem_map.mpr fun v _ => each v
  unfold comparison at built
  split at built <;> cases built
  case h_1 | h_2 | h_13 => exact .test (.isNull tested _)
  case h_9 | h_10 => exact .constant _
  case h_11 | h_12 => exact .test (.inList tested (members _) _)
  all_goals exact .test (.binary (BinOp.words d nofun) tested (each _))

theorem textMatch_woven (tested : Bears d [.column] col) (op : Operator) (raw : String) (style : LikeStyle) :
    ∀ e ∈ textMatch col op raw style, e.Woven d := by
  intro e built
  unfold textMatch at built
  split at built
  · cases built
    unfold affixMatch
    split
    · exact .test (.pair (by cases d <;> rfl) rfl tested (.value _))
    · exact .test (.binary (BinOp.words d nofun) tested (.value _))
    · exact .test (.pair (by cases d <;> rfl) rfl tested (.value _))
  · unfold patternMatch at built
    split at built <;> cases built
    case h_1 | h_2 | h_7 | h_8 => exact .test (.pair (by cases d <;> rfl) rfl tested (.value _))
    all_goals exact .test (.binary (BinOp.words d nofun) tested (.value _))

end Tests

section Casts

-- What a type name may be made of.
def Sign.casts : Sign → Bool
  | name | opening | closing | comma | value | endWord => false
  | _ => true

theorem Sign.landmark_casts {z s : Sign} (before : z.casts = true) (own : s.casts = true) : z.landmark? s = none := by
  cases z <;> cases s <;> first | rfl | cases before; done | cases own

theorem Sign.landmarks_casts {z : Sign} {signs : List Sign} (before : z.casts = true)
    (each : ∀ s ∈ signs, s.casts = true) : z.landmarks signs = [] := by
  induction signs generalizing z with
  | nil => rfl
  | cons s rest ih =>
    rw [List.forall_mem_cons] at each
    rw [landmarks, landmark_casts before each.1, ih each.1 each.2]
    rfl

def Token.Casts : Token → Prop
  | .dot | .colon => True
  | .word text => text.toList.all Postgres.isCastChar = true
  | _ => False

-- No name is begun.
structure Scan.Casts (s : Scan) : Prop where
  tokens : ∀ t ∈ s.tokens, t.Casts
  pending : s.pending = .idle ∨ ∃ chars, s.pending = .word chars ∧ chars.all Postgres.isCastChar = true

variable {d : Dialect}

theorem Scan.Casts.finish {s : Scan} (casts : s.Casts) : ∀ t ∈ s.finish, t.Casts := by
  obtain ⟨tokens, pending⟩ := s
  obtain ⟨each, rfl | ⟨chars, rfl, own⟩⟩ := casts
  · exact each
  · refine List.forall_mem_append.mpr ⟨each, List.forall_mem_singleton.mpr ?_⟩
    simpa [Token.Casts] using own

theorem Scan.Casts.fresh {tokens : List Token} (each : ∀ t ∈ tokens, t.Casts) (placed : d.placesNulls = true) {c : Char}
    (own : Postgres.isCastChar c = true) : (Scan.fresh d tokens c).Casts := by
  unfold Scan.fresh
  split
  · rename_i found apart
    refine ⟨List.forall_mem_append.mpr ⟨each, ?_⟩, .inl rfl⟩
    unfold punctuation? at apart
    split at apart <;> cases apart <;> first
      | exact List.forall_mem_nil _
      | exact List.forall_mem_singleton.mpr trivial
      | cases own
  · have plain : c ≠ d.openQuote := by
      rintro rfl
      cases d <;> first | cases placed; done | cases own
    rw [if_neg plain]
    exact ⟨each, .inr ⟨[c], rfl, by simpa using own⟩⟩

theorem Scan.Casts.run {s : Scan} (casts : s.Casts) (placed : d.placesNulls = true) {chars : List Char}
    (own : chars.all Postgres.isCastChar = true) : (Scan.run d s chars).Casts := by
  induction chars generalizing s with
  | nil => exact casts
  | cons c rest ih =>
    rw [List.all_cons, Bool.and_eq_true] at own
    refine ih ?_ own.2
    have finished := casts.finish
    obtain ⟨tokens, pending⟩ := s
    obtain ⟨each, rfl | ⟨chars, rfl, before⟩⟩ := casts
    · exact .fresh each placed own.1
    · unfold Scan.step
      dsimp only
      split
      · exact .fresh finished placed own.1
      · exact ⟨each, .inr ⟨chars ++ [c], rfl, by simp [before, own.1]⟩⟩

theorem Token.Casts.plain {t : Token} (casts : t.Casts) (placed : d.placesNulls = true) :
    d.isMark t = false ∧ t.isLevel = true ∧ (d.sign t).casts = true := by
  cases t with
  | dot | colon => exact ⟨rfl, rfl, rfl⟩
  | word text =>
    have unmarked : d.isMark (.word text) = false := by
      have own : text.toList.all Postgres.isCastChar = true := casts
      have placeless : placeAfter? ['$'] text.toList = none := by
        cases shape : text.toList with
        | nil => rfl
        | cons c rest =>
          rw [shape, List.all_cons, Bool.and_eq_true] at own
          have other : c ≠ '$' := by
            rintro rfl
            cases own.1
          exact if_neg other
      cases d <;> first | cases placed; done | exact congrArg Option.isSome placeless
    refine ⟨unmarked, rfl, ?_⟩
    rw [Dialect.sign, unmarked, if_neg Bool.false_ne_true]
    unfold Sign.ofWord
    rw [placed]
    split <;> rfl
  | _ => exact casts.elim

theorem openAfter_level {ts : List Token} (level : ∀ t ∈ ts, t.isLevel = true) (opened : Nat) :
    openAfter opened ts = some opened := by
  induction ts with
  | nil => simp [openAfter]
  | cons t rest ih =>
    rw [List.forall_mem_cons] at level
    cases t <;> first | cases level.1; done | simpa [openAfter] using ih level.2

-- A cast to any type that may stand in one.
theorem Dialect.frames_cast (placed : d.placesNulls = true) {ty : String}
    (own : ty.toList.all Postgres.isCastChar = true) : d.frames ⟨"", ["::" ++ ty]⟩ = true := by
  have casts : (Scan.run d Scan.start ty.toList).Casts :=
    .run ⟨List.forall_mem_nil _, .inl rfl⟩ placed own
  have colons : Scan.of d "::" = Scan.start.after [.colon, .colon] := by cases d <;> rfl
  have scanned : Scan.of d ("::" ++ ty) = (Scan.run d Scan.start ty.toList).after [.colon, .colon] := by
    rw [Scan.of_append, colons, Scan.run_after]
  have finished : (Scan.of d ("::" ++ ty)).finish = [.colon, .colon] ++ (Scan.run d Scan.start ty.toList).finish := by
    rw [scanned, Scan.finish_after]
  have each : ∀ t ∈ (Scan.of d ("::" ++ ty)).finish, t.Casts := by
    rw [finished]
    refine List.forall_mem_append.mpr ⟨?_, casts.finish⟩
    exact List.forall_mem_cons.mpr ⟨trivial, List.forall_mem_singleton.mpr trivial⟩
  -- No token of it is punctuation that opens or closes, a name or a mark.
  have level := openAfter_level (fun t member => ((each t member).plain placed).2.1) 0
  have fits : d.fits false false ("::" ++ ty) = true := by
    have unquoted : ∀ chars, (Scan.of d ("::" ++ ty)).pending ≠ .quoted chars := by
      intro chars
      rw [scanned]
      show (Scan.run d Scan.start ty.toList).pending ≠ _
      rcases casts.pending with idle | ⟨chars, word, -⟩
      · simp [idle]
      · simp [word]
    have starts : startsApart ("::" ++ ty) = true := by
      simp [startsApart, punctuation?]
    have unmarked := fun t member => ((each t member).plain placed).1
    simp only [fits, starts, Bool.false_or, Bool.and_eq_true, List.all_eq_true, Bool.not_eq_true', and_true]
    refine ⟨?_, unmarked⟩
    cases pending : (Scan.of d ("::" ++ ty)).pending with
    | quoted chars => exact absurd pending (unquoted chars)
    | _ => rfl
  have closes : d.closes ("::" ++ ty) = true := by
    have signs : d.signs ("::" ++ ty) = .other :: .other :: (Scan.run d Scan.start ty.toList).finish.map d.sign := by
      rw [signs, finished, List.map_append]
      rfl
    have later : ∀ s ∈ .other :: (Scan.run d Scan.start ty.toList).finish.map d.sign, s.casts = true :=
      List.forall_mem_cons.mpr ⟨rfl, List.forall_mem_map.mpr fun t member => ((casts.finish t member).plain placed).2.2⟩
    have quiet : ∀ s ∈ .other :: .other :: (Scan.run d Scan.start ty.toList).finish.map d.sign, s.casts = true :=
      List.forall_mem_cons.mpr ⟨rfl, later⟩
    have last := quiet _ List.getLastD_mem_cons
    have apart : ∀ {s : Sign}, s.casts = true → (s != .endWord) = true := by
      intro s own
      cases s <;> first | rfl | cases own
    rw [closes, signs, Sign.closes, Sign.landmarks_casts rfl quiet, apart last]
    rfl
  have lead : d.fits true true "" = true ∧ (Scan.of d "").finish = [] ∧ d.leads "" = true := by
    cases d <;> exact ⟨rfl, rfl, rfl⟩
  simp only [frames, surrounds, List.isEmpty_cons, List.isEmpty_nil, Bool.not_false, Bool.not_true, lead, fits, closes,
    weaves, level, openAfter, Bool.true_or, Bool.and_true, beq_self_eq_true]

end Casts

open FilterQuery.Expr

variable {col : Expr} {d : Dialect}

theorem ApplyOptions.column_bears (options : ApplyOptions) (f : Field) : Bears d [.column] (options.column f) :=
  .column ..

namespace Postgres

variable {ty : String}

theorem cast_bears (placed : d.placesNulls = true) (own : ty.toList.all isCastChar = true) (v : Value) :
    Bears d [] (cast ty v) :=
  .template (d.frames_cast placed own) rfl (.cons (.value v) .nil)

theorem castTarget_casts {native : String} (found : castTarget? native = some ty) :
    ty.toList.all isCastChar = true := by
  unfold castTarget? at found
  dsimp only at found
  split at found <;> cases found
  rename_i own
  rw [Bool.and_eq_true] at own
  rw [String.toList_ofList]
  exact own.2

theorem castParam_bears (placed : d.placesNulls = true) (f : Field) (v : Value) :
    Bears d [] (castParam (enumCast f) v) := by
  unfold castParam
  split
  · rename_i ty found
    refine cast_bears placed ?_ v
    unfold enumCast at found
    split at found
    · split at found
      · cases found
      · exact castTarget_casts found
    · cases found
  · exact .value v

theorem arrayCast_casts (f : Field) (element : ElementType) : (arrayCast f element).toList.all isCastChar = true := by
  unfold arrayCast
  cases found : f.nativeType.bind castTarget? with
  | none => cases element <;> rfl
  | some ty =>
    obtain ⟨native, -, target⟩ := Option.bind_eq_some_iff.mp found
    exact castTarget_casts target

section

variable (placed : d.placesNulls = true) (tested : Bears d [.column] col)
include placed tested

theorem custom_woven {symbol : String} {e : Expr}
    (known : symbol ∈ ["~", "~*", "SIMILAR TO", "@>", "<@", "?", "?|", "?&", "&&"]) (bears : Bears d [] e) :
    (Expr.binary col (.custom symbol) e).Woven d := by
  refine .test (.binary ?_ tested bears)
  simp only [List.mem_cons, List.not_mem_nil, or_false] at known
  rcases known with rfl | rfl | rfl | rfl | rfl | rfl | rfl | rfl | rfl <;> cases d <;>
    first | exact ⟨rfl, rfl⟩ | cases placed

theorem textLeaf_woven (op : Operator) (operand : Operand) : ∀ e ∈ textLeaf col op operand, e.Woven d := by
  unfold textLeaf
  split
  · exact good_bind (fun p => textMatch_woven tested _ _ _) _
  · split
    case h_4 => exact good_map (fun p => .test (.pair (by cases d <;> rfl) rfl tested (.value _))) _
    case h_5 => exact comparison_woven tested .value _ _
    all_goals exact good_map (fun p => custom_woven placed tested (by decide) (.value _)) _

theorem jsonLeaf_woven (op : Operator) (operand : Operand) : ∀ e ∈ jsonLeaf col op operand, e.Woven d := by
  have document : ∀ v, Bears d [] (cast "jsonb" v) := cast_bears placed rfl
  unfold jsonLeaf
  split
  case h_6 => exact comparison_woven tested document _ _
  case h_1 | h_2 =>
    intro e built
    cases built
    exact custom_woven placed tested (by decide) (document _)
  case h_3 => exact good_map (fun key => custom_woven placed tested (by decide) (.value _)) _
  all_goals exact good_map (fun keys => custom_woven placed tested (by decide) (cast_bears placed rfl _)) _

theorem arrayLeaf_woven (own : ty.toList.all isCastChar = true) (op : Operator) (operand : Operand) :
    ∀ e ∈ arrayLeaf col ty op operand, e.Woven d := by
  unfold arrayLeaf
  split
  case h_4 => exact comparison_woven tested (cast_bears placed own) _ _
  all_goals exact good_map (fun values => custom_woven placed tested (by decide) (cast_bears placed own _)) _

theorem geoLeaf_woven (op : Operator) (operand : Operand) (options : ApplyOptions) :
    ∀ e ∈ geoLeaf col op operand options, e.Woven d := by
  have value : ∀ x, Bears d [] (floatParam x) := fun x => .value _
  unfold geoLeaf
  split
  · exact good_map (fun p => .test (.template (by cases d <;> rfl) rfl
      (.cons tested (.cons (value _) (.cons (value _) (.cons (value _) .nil)))) rfl)) _
  · exact good_map (fun p => .test (.template (by cases d <;> rfl) rfl
      (.cons tested (.cons (value _) (.cons (value _) (.cons (value _) (.cons (value _) .nil))))) rfl)) _
  · exact comparison_woven tested .value _ _

end

theorem leaf_woven (placed : d.placesNulls = true) (f : Field) (ty : SemanticType) (op : Operator) (operand : Operand)
    (options : ApplyOptions) : ∀ e ∈ leaf f ty op operand options, e.Woven d := by
  have tested := options.column_bears (d := d) f
  unfold leaf
  split
  · exact jsonLeaf_woven placed tested _ _
  · exact geoLeaf_woven placed tested _ _ _
  · exact arrayLeaf_woven placed tested (arrayCast_casts _ _) _ _
  · exact textLeaf_woven placed tested _ _
  · exact comparison_woven tested (castParam_bears placed f) _ _
  · exact comparison_woven tested .value _ _

end Postgres

-- Tests of one key each, put together.
theorem keys_woven {test : Expr → String → Expr} (each : ∀ key, (test col key).Simple d) (keys : List String) :
    ∀ e ∈ keys.map (test col), e.Woven d :=
  List.forall_mem_map.mpr fun key _ => .test (each key)

namespace MySql

theorem jsonParam_bears (v : Value) : Bears .mySql [] (jsonParam v) := .template rfl rfl (.cons (.value _) .nil)

theorem surrounds_cons {text : String} {rest : List String} {opened deeper : Nat} {settled : Bool} (more : rest ≠ [])
    (fits : d.fits settled true text = true) (walk : openAfter opened (Scan.of d text).finish = some deeper) :
    d.surrounds settled opened (text :: rest) = d.surrounds false deeper rest := by
  rw [Dialect.surrounds, walk, List.isEmpty_eq_false_iff.mpr more, Bool.not_false, fits]
  rfl

theorem weaves_cons {text : String} {rest : List String} (more : rest ≠ []) (links : d.links text = true) :
    d.weaves (text :: rest) = d.weaves rest := by
  cases rest with
  | nil => exact absurd rfl more
  | cons next rest => simp [Dialect.weaves, links]

theorem keysBetween (count : Nat) :
    Dialect.mySql.surrounds false 1 (List.replicate count ", " ++ [")"]) = true ∧
      Dialect.mySql.weaves (List.replicate count ", " ++ [")"]) = true := by
  induction count with
  | zero => exact ⟨rfl, rfl⟩
  | succ n ih =>
    have more : List.replicate n ", " ++ [")"] ≠ [] := by simp
    have walk : openAfter 1 (Scan.of .mySql ", ").finish = some 1 := rfl
    rw [List.replicate_succ, List.cons_append, surrounds_cons more rfl walk, weaves_cons more rfl]
    exact ih

-- The column, then as many keys as there are.
theorem containsPath_simple {mode : String} (known : mode = "one" ∨ mode = "all") (tested : Bears .mySql [.column] col)
    {keys : List String} (nonempty : keys ≠ []) : (containsPath mode col keys).Simple .mySql := by
  obtain ⟨around, weaves⟩ := keysBetween (keys.length - 1)
  have each : List.Forall₂ (Bears .mySql) (keys.map fun _ => []) (keys.map fun k => .value (.string (jsonPath k))) := by
    rw [List.forall₂_map_left_iff, List.forall₂_map_right_iff]
    exact List.forall₂_same.mpr fun _ _ => .value _
  have length := List.length_pos_iff.mpr nonempty
  have more : List.replicate (keys.length - 1) ", " ++ [")"] ≠ [] := by simp
  refine .template ?_ ?_ (.cons tested each) (by simp)
  · have front : Dialect.mySql.fits true true "JSON_CONTAINS_PATH(" = true := rfl
    have opened : openAfter 0 (Scan.of .mySql "JSON_CONTAINS_PATH(").finish = some 1 := rfl
    have between : Dialect.mySql.fits false true (", '" ++ mode ++ "', ") = true ∧
        openAfter 1 (Scan.of .mySql (", '" ++ mode ++ "', ")).finish = some 1 ∧
        Dialect.mySql.links (", '" ++ mode ++ "', ") = true := by
      rcases known with rfl | rfl <;> exact ⟨rfl, rfl, rfl⟩
    have leads : Dialect.mySql.leads "JSON_CONTAINS_PATH(" = true := rfl
    rw [Dialect.frames, List.cons_append, surrounds_cons (by simp) front opened,
      surrounds_cons more between.1 between.2.1, weaves_cons more between.2.2, around, weaves, leads]
    rfl
  · simp
    omega

theorem contains_simple {left right : Expr} (first : Bears .mySql f left) (second : Bears .mySql g right)
    (one : f ++ g = [.column]) : (jsonContains left right).Simple .mySql :=
  .template rfl rfl (.cons first (.cons second .nil)) (by simpa using one)

section

variable (tested : Bears .mySql [.column] col)
include tested

theorem textLeaf_woven (op : Operator) (operand : Operand) : ∀ e ∈ textLeaf col op operand, e.Woven .mySql := by
  unfold textLeaf
  split
  · exact good_bind (fun p => textMatch_woven tested _ _ _) _
  · split
    case h_4 => exact comparison_woven tested .value _ _
    all_goals exact good_map (fun p => .test (.pair rfl rfl tested (.value _))) _

theorem jsonLeaf_woven (op : Operator) (operand : Operand) : ∀ e ∈ jsonLeaf col op operand, e.Woven .mySql := by
  have paths : ∀ mode, mode = "one" ∨ mode = "all" →
      ∀ e ∈ operand.keys?.map (containsPath mode col), e.Woven .mySql := by
    intro mode known e built
    obtain ⟨keys, found, rfl⟩ := Option.map_eq_some_iff.mp built
    exact .test (containsPath_simple known tested (Operand.keys_some found))
  unfold jsonLeaf
  split
  · intro e built
    cases built
    exact .test (contains_simple tested (jsonParam_bears _) rfl)
  · intro e built
    cases built
    exact .test (contains_simple (jsonParam_bears _) tested rfl)
  · exact paths _ (.inl rfl)
  · exact paths _ (.inl rfl)
  · exact paths _ (.inr rfl)
  · exact comparison_woven tested jsonParam_bears _ _

theorem arrayLeaf_woven (op : Operator) (operand : Operand) : ∀ e ∈ arrayLeaf col op operand, e.Woven .mySql := by
  have candidate : ∀ {test : Expr → Expr}, (∀ v, (test (jsonParam v)).Simple .mySql) →
      ∀ e ∈ (operand.list?.map fun values => jsonParam (jsonArray values)).map test, e.Woven .mySql := by
    intro test each
    rw [Option.map_map]
    exact good_map (fun values => .test (each _)) _
  unfold arrayLeaf
  split
  · exact candidate fun v => contains_simple tested (jsonParam_bears v) rfl
  · exact candidate fun v => contains_simple (jsonParam_bears v) tested rfl
  · exact candidate fun v => .pair rfl rfl tested (jsonParam_bears v)
  · exact comparison_woven tested jsonParam_bears _ _

theorem geoLeaf_woven (op : Operator) (operand : Operand) (options : ApplyOptions) :
    ∀ e ∈ geoLeaf col op operand options, e.Woven .mySql := by
  unfold geoLeaf
  split
  · exact good_map (fun p => .test (.template rfl rfl (.cons tested (.cons (.value _) (.cons (.value _) .nil))) rfl)) _
  · exact good_map (fun p => .test (.template rfl rfl (.cons (.value _) (.cons tested .nil)) rfl)) _
  · exact comparison_woven tested .value _ _

end

theorem leaf_woven (f : Field) (ty : SemanticType) (op : Operator) (operand : Operand) (options : ApplyOptions) :
    ∀ e ∈ leaf f ty op operand options, e.Woven .mySql := by
  have tested := options.column_bears (d := .mySql) f
  unfold leaf
  split
  · exact textLeaf_woven tested _ _
  · exact jsonLeaf_woven tested _ _
  · exact arrayLeaf_woven tested _ _
  · exact geoLeaf_woven tested _ _ _
  · exact comparison_woven tested .value _ _

end MySql

namespace Sqlite

theorem jsonValue_bears (v : Value) : Bears .sqlite [] (jsonValue v) := .json (.value _)

section

variable (tested : Bears .sqlite [.column] col)
include tested

theorem textLeaf_woven (op : Operator) (operand : Operand) : ∀ e ∈ textLeaf col op operand, e.Woven .sqlite := by
  unfold textLeaf
  split
  · exact good_bind (fun p => textMatch_woven tested _ _ _) _
  · split
    case h_3 => exact comparison_woven tested .value _ _
    all_goals exact good_map (fun p => .test (.binary ⟨rfl, rfl⟩ tested (.value _))) _

theorem jsonLeaf_woven (op : Operator) (operand : Operand) : ∀ e ∈ jsonLeaf col op operand, e.Woven .sqlite := by
  have key : ∀ key, (hasKey col key).Simple .sqlite := fun key => .pair rfl rfl tested (.value _)
  unfold jsonLeaf
  split
  · exact good_map (fun k => .test (key k)) _
  · exact good_map (fun keys => .any (keys_woven key keys)) _
  · exact good_map (fun keys => .all (keys_woven key keys)) _
  · exact comparison_woven tested .value _ _
  · exact comparison_woven tested.json jsonValue_bears _ _

theorem arrayLeaf_woven (op : Operator) (operand : Operand) : ∀ e ∈ arrayLeaf col op operand, e.Woven .sqlite := by
  have candidate : ∀ {test : Expr → Expr}, (∀ v, (test (.value v)).Simple .sqlite) →
      ∀ e ∈ (operand.list?.map fun values => Expr.value (jsonArray values)).map test, e.Woven .sqlite := by
    intro test each
    rw [Option.map_map]
    exact good_map (fun values => .test (each _)) _
  unfold arrayLeaf
  split
  · exact candidate fun v => .template rfl rfl (.cons (.value _) (.cons tested .nil)) rfl
  · exact candidate fun v => .pair rfl rfl tested (.value _)
  · exact candidate fun v => .pair rfl rfl tested (.value _)
  · exact comparison_woven tested .value _ _
  · exact comparison_woven tested.json jsonValue_bears _ _

end

theorem leaf_woven (f : Field) (ty : SemanticType) (op : Operator) (operand : Operand) (options : ApplyOptions) :
    ∀ e ∈ leaf f ty op operand options, e.Woven .sqlite := by
  have tested := options.column_bears (d := .sqlite) f
  unfold leaf
  split
  · exact textLeaf_woven tested _ _
  · exact jsonLeaf_woven tested _ _
  · exact arrayLeaf_woven tested _ _
  · exact comparison_woven tested .value _ _

end Sqlite

namespace MsSql

section

variable (tested : Bears .msSql [.column] col)
include tested

theorem textLeaf_woven (op : Operator) (operand : Operand) : ∀ e ∈ textLeaf col op operand, e.Woven .msSql := by
  unfold textLeaf
  split
  · exact good_bind (fun p => textMatch_woven tested _ _ _) _
  · split
    · exact good_map (fun p => .test (.pair rfl rfl tested (.value _))) _
    · exact comparison_woven tested .value _ _

theorem jsonLeaf_woven (op : Operator) (operand : Operand) : ∀ e ∈ jsonLeaf col op operand, e.Woven .msSql := by
  have key : ∀ key, (hasKey col key).Simple .msSql := fun key => .pair rfl rfl tested (.value _)
  unfold jsonLeaf
  split
  · exact good_map (fun k => .test (key k)) _
  · exact good_map (fun keys => .any (keys_woven key keys)) _
  · exact good_map (fun keys => .all (keys_woven key keys)) _
  · exact comparison_woven tested (fun v => .value _) _ _

theorem geoLeaf_woven (op : Operator) (operand : Operand) (options : ApplyOptions) :
    ∀ e ∈ geoLeaf col op operand options, e.Woven .msSql := by
  unfold geoLeaf
  split
  · exact good_map (fun p => .test (.template rfl rfl
      (.cons tested (.cons (.value _) (.cons (.value _) (.cons (.value _) .nil)))) rfl)) _
  · exact good_map (fun p => .test (.pair rfl rfl tested (.value _))) _
  · exact comparison_woven tested .value _ _

end

theorem leaf_woven (f : Field) (ty : SemanticType) (op : Operator) (operand : Operand) (options : ApplyOptions) :
    ∀ e ∈ leaf f ty op operand options, e.Woven .msSql := by
  have tested := options.column_bears (d := .msSql) f
  unfold leaf
  split
  · exact textLeaf_woven tested _ _
  · exact jsonLeaf_woven tested _ _
  · exact geoLeaf_woven tested _ _ _
  · exact comparison_woven tested .value _ _

end MsSql

theorem Adapter.leaf_woven (d : Dialect) (f : Field) (ty : SemanticType) (op : Operator) (operand : Operand)
    (options : ApplyOptions) {e : Expr} (built : d.adapter.leaf f ty op operand options = some (.sql e)) :
    e.Woven d := by
  cases d with
  | postgres =>
    obtain ⟨_, own, ⟨⟩⟩ := Option.map_eq_some_iff.mp built
    exact Postgres.leaf_woven rfl f ty op operand options e own
  | cockroachDb =>
    obtain ⟨_, own, ⟨⟩⟩ := Option.map_eq_some_iff.mp built
    exact Postgres.leaf_woven rfl f ty op operand options e own
  | mySql =>
    obtain ⟨_, own, ⟨⟩⟩ := Option.map_eq_some_iff.mp built
    exact MySql.leaf_woven f ty op operand options e own
  | sqlite =>
    obtain ⟨_, own, ⟨⟩⟩ := Option.map_eq_some_iff.mp built
    exact Sqlite.leaf_woven f ty op operand options e own
  | msSql =>
    obtain ⟨_, own, ⟨⟩⟩ := Option.map_eq_some_iff.mp built
    exact MsSql.leaf_woven f ty op operand options e own

end FilterQuery
