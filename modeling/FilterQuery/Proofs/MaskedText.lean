import FilterQuery.Proofs.Masking

namespace FilterQuery

def Piece.masked : Piece → Piece
  | .value v => .value v.masked
  | piece => piece

namespace Expr

@[simp] theorem isWeak_masked (e : Expr) : e.masked.isWeak = e.isWeak := by cases e <;> rfl

@[simp] theorem isOr_masked (e : Expr) : e.masked.isOr = e.isOr := by cases e <;> rfl

@[simp] theorem isAnd_masked (e : Expr) : e.masked.isAnd = e.isAnd := by cases e <;> rfl

@[simp] theorem length_listMasked (list : List Expr) : (listMasked list).length = list.length := by
  rw [listMasked_eq_map, List.length_map]

@[simp] theorem isEmpty_listMasked (list : List Expr) : (listMasked list).isEmpty = list.isEmpty := by
  rw [listMasked_eq_map, List.isEmpty_map]

@[simp] theorem isEmpty_ordersMasked (orders : List SortKey) : (ordersMasked orders).isEmpty = orders.isEmpty := by
  cases orders with
  | nil => rfl
  | cons key rest =>
    cases key
    rfl

end Expr

namespace Render

theorem grouped_masked (group : Bool) (pieces : List Piece) :
    (grouped group pieces).map Piece.masked = grouped group (pieces.map Piece.masked) := by
  cases group <;> simp [grouped, Piece.masked]

theorem notTrue_masked (d : Dialect) (inner : List Piece) :
    (notTrue d inner).map Piece.masked = notTrue d (inner.map Piece.masked) := by
  unfold notTrue
  split <;> simp [Piece.masked]

theorem sortKey_masked (d : Dialect) {key key' : List Piece} (same : key.map Piece.masked = key'.map Piece.masked)
    (direction : Direction) (nulls : Nulls) :
    (sortKey d key direction nulls).map Piece.masked = (sortKey d key' direction nulls).map Piece.masked := by
  unfold sortKey
  split <;> simp [nullsIndicator, same]

mutual
theorem expr_masked (d : Dialect) (e : Expr) : (expr d e.masked).map Piece.masked = (expr d e).map Piece.masked := by
  cases e with
  | column table column => rfl
  | value v => simp [Expr.masked, expr, Piece.masked]
  | binary left op right => simp [Expr.masked, expr, grouped_masked, expr_masked d left, expr_masked d right]
  | inList e list negated =>
    simp [Expr.masked, expr, grouped_masked, expr_masked d e, members_masked d ", " (fun _ => false) (fun _ => rfl) list]
  | isNull e negated => simp [Expr.masked, expr, grouped_masked, expr_masked d e]
  | and parts => simpa [Expr.masked, expr] using members_masked d " AND " Expr.isOr Expr.isOr_masked parts
  | or parts => simpa [Expr.masked, expr] using members_masked d " OR " Expr.isAnd Expr.isAnd_masked parts
  | not e => simp [Expr.masked, expr, expr_masked d e]
  | notTrue e => simp [Expr.masked, expr, notTrue_masked, expr_masked d e]
  | func f args => simp [Expr.masked, expr, members_masked d ", " (fun _ => false) (fun _ => rfl) args]
  | template text args => simp [Expr.masked, expr, filled_masked d text.rest args]
  | existsIn query negated => simp [Expr.masked, expr, select_masked d query]
  | scalar query => simp [Expr.masked, expr, select_masked d query]
  | constant b => rfl

theorem members_masked (d : Dialect) (separator : String) (group : Expr → Bool)
    (steady : ∀ e : Expr, group e.masked = group e) (list : List Expr) :
    (members d separator group (Expr.listMasked list)).map Piece.masked =
      (members d separator group list).map Piece.masked := by
  match list with
  | [] => rfl
  | [e] => simp [Expr.listMasked, members, grouped_masked, steady, expr_masked d e]
  | e :: next :: rest =>
    have later := members_masked d separator group steady (next :: rest)
    rw [Expr.listMasked] at later
    simp [Expr.listMasked, members, grouped_masked, steady, expr_masked d e, later]

theorem filled_masked (d : Dialect) (texts : List String) (args : List Expr) :
    (filled d texts (Expr.listMasked args)).map Piece.masked = (filled d texts args).map Piece.masked := by
  match texts, args with
  | [], _ => simp [filled]
  | _ :: _, [] => rfl
  | _ :: texts, e :: rest => simp [Expr.listMasked, filled, expr_masked d e, filled_masked d texts rest]

theorem select_masked (d : Dialect) (s : Select) :
    (select d (Expr.selectMasked s)).map Piece.masked = (select d s).map Piece.masked := by
  match s with
  | ⟨table, binding, columns, joins, conditions, orders, limit, offset⟩ =>
    have shown := members_masked d ", " (fun _ => false) (fun _ => rfl) columns
    have joined := joinPieces_masked d joins
    have narrowed := members_masked d " AND " (fun e => 1 < conditions.length && e.isOr) (by simp) conditions
    have sorted := orderPieces_masked d orders
    simp only [Expr.selectMasked, select, Expr.isEmpty_listMasked, Expr.length_listMasked, Expr.isEmpty_ordersMasked,
      List.map_append, List.map_cons, joined, apply_ite (List.map Piece.masked), shown, narrowed, sorted]

theorem joinPieces_masked (d : Dialect) (joins : List Join) :
    (joinPieces d (Expr.joinsMasked joins)).map Piece.masked = (joinPieces d joins).map Piece.masked := by
  match joins with
  | [] => rfl
  | ⟨kind, table, binding, condition⟩ :: rest =>
    simp [Expr.joinsMasked, joinPieces, expr_masked d condition, joinPieces_masked d rest]

theorem orderPieces_masked (d : Dialect) (orders : List SortKey) :
    (orderPieces d (Expr.ordersMasked orders)).map Piece.masked = (orderPieces d orders).map Piece.masked := by
  match orders with
  | [] => rfl
  | [⟨key, direction, nulls⟩] => exact sortKey_masked d (expr_masked d key) direction nulls
  | ⟨key, direction, nulls⟩ :: next :: rest =>
    have here := sortKey_masked d (expr_masked d key) direction nulls
    have later := orderPieces_masked d (next :: rest)
    cases next
    rw [Expr.ordersMasked] at later
    simp [Expr.ordersMasked, orderPieces, here, later]
end

end Render

namespace Writer

-- Values that are hidden alike take one placeholder each, or are written out as null.
theorem putAll_masked (placeholder : Nat → String) {pieces pieces' : List Piece} {w w' : Writer}
    (same : pieces.map Piece.masked = pieces'.map Piece.masked) (text : w.sql = w'.sql)
    (count : w.values.length = w'.values.length) :
    (w.putAll placeholder pieces).sql = (w'.putAll placeholder pieces').sql ∧
      (w.putAll placeholder pieces).values.length = (w'.putAll placeholder pieces').values.length := by
  induction pieces generalizing pieces' w w' with
  | nil =>
    rw [List.map_nil, eq_comm, List.map_eq_nil_iff] at same
    rw [same]
    exact ⟨text, count⟩
  | cons piece rest ih =>
    cases pieces' with
    | nil => cases same
    | cons piece' rest' =>
      obtain ⟨alike, later⟩ := List.cons.inj same
      have step : (w.put placeholder piece).sql = (w'.put placeholder piece').sql ∧
          (w.put placeholder piece).values.length = (w'.put placeholder piece').values.length := by
        cases piece <;> cases piece' <;> try cases alike
        · simp [put, push, text, count]
        · simp only [put, space, push, text]
          split
          · exact ⟨text, count⟩
          · split
            · exact ⟨text, count⟩
            · exact ⟨rfl, count⟩
        · rename_i v v'
          have null : v.isNull = v'.isNull := by
            rw [← v.isNull_masked, ← v'.isNull_masked]
            exact congrArg Value.isNull (Piece.value.inj alike)
          simp only [put, value, null, index, push, text, count]
          split
          · exact ⟨rfl, count⟩
          · simp [count]
      have further := ih later step.1 step.2
      exact further

end Writer

theorem Select.build_masked (d : Dialect) {s s' : Select} (same : s.masked = s'.masked) :
    (s.build d).sql = (s'.build d).sql ∧ (s.build d).values.length = (s'.build d).values.length := by
  refine Writer.putAll_masked d.placeholder ?_ rfl rfl
  rw [← Render.select_masked d s, ← Render.select_masked d s']
  exact congrArg (fun s => (Render.select d s).map Piece.masked) same

-- A SQL query is sent with the same text, whatever its values are.
theorem CompiledQuery.render_masked {q q' : CompiledQuery} (same : q.masked = q'.masked) :
    q.render.text = q'.render.text ∧ q.render.params.length = q'.render.params.length := by
  cases q with
  | sql d s =>
    cases q' with
    | sql d' s' =>
      obtain ⟨rfl, inside⟩ := CompiledQuery.sql.inj same
      exact Select.build_masked d inside
    | search r => cases same
  | search r =>
    cases q' with
    | sql d' s' => cases same
    | search r' =>
      cases same
      exact ⟨rfl, rfl⟩

end FilterQuery
