import Mathlib.Data.Multiset.Bind
import FilterQuery.Proofs.RelatedRows

namespace FilterQuery

-- The members of one list go with those of the other, wherever they stand.
abbrev Paired (R : α → β → Prop) (xs : List α) (ys : List β) : Prop := Multiset.Rel R xs ys

section Paired

variable {R : α → β → Prop} {S : γ → δ → Prop} {xs xs' : List α} {ys ys' : List β}

theorem paired_lone (same : R x y) : Paired R [x] [y] := .cons same .zero

theorem lone_of_paired (paired : Paired R [x] [y]) : R x y := by
  obtain ⟨z, zs, same, _, shape⟩ := Multiset.rel_cons_left.mp (show Multiset.Rel R (x ::ₘ 0) [y] from paired)
  have member : z ∈ ([y] : Multiset β) := by
    rw [shape]
    exact Multiset.mem_cons_self z zs
  rwa [List.mem_singleton.mp (Multiset.mem_coe.mp member)] at same

theorem paired_append (left : Paired R xs ys) (right : Paired R xs' ys') : Paired R (xs ++ xs') (ys ++ ys') := by
  rw [Paired, ← Multiset.coe_add, ← Multiset.coe_add]
  exact left.add right

theorem paired_flatMap {f : α → List γ} {g : β → List δ} (paired : Paired (fun x y => Paired S (f x) (g y)) xs ys) :
    Paired S (xs.flatMap f) (ys.flatMap g) := by
  rw [Paired, ← Multiset.coe_bind, ← Multiset.coe_bind]
  exact Multiset.rel_bind (fun _ _ same => same) paired

theorem paired_map {f : α → γ} {g : β → δ} :
    Paired S (xs.map f) (ys.map g) ↔ Paired (fun x y => S (f x) (g y)) xs ys := by
  rw [Paired, ← Multiset.map_coe, ← Multiset.map_coe, Multiset.rel_map]

theorem perm_of_paired {f : α → γ} {g : β → γ} (paired : Paired (fun x y => f x = g y) xs ys) :
    (xs.map f).Perm (ys.map g) := by
  rw [← Multiset.coe_eq_coe, ← Multiset.rel_eq]
  exact paired_map.mpr paired

theorem length_of_paired (paired : Paired R xs ys) : xs.length = ys.length := by
  simpa using Multiset.card_eq_card_of_rel paired

theorem any_of_paired {f : α → Bool} {g : β → Bool} (alike : ∀ x y, R x y → f x = g y) (paired : Paired R xs ys) :
    xs.any f = ys.any g := by
  have moved : (xs.map f).Perm (ys.map g) := perm_of_paired (paired.mono fun x _ y _ => alike x y)
  simpa using moved.any_eq (f := id)

end Paired

mutual
inductive Expr.Rearranged : Expr → Expr → Prop
  | same (e : Expr) : Expr.Rearranged e e
  | and {members others : List Expr} (paired : Multiset.Rel Expr.Rearranged members others) :
    Expr.Rearranged (.and members) (.and others)
  | or {members others : List Expr} (paired : Multiset.Rel Expr.Rearranged members others) :
    Expr.Rearranged (.or members) (.or others)
  | not {e other : Expr} (inner : Expr.Rearranged e other) : Expr.Rearranged (.not e) (.not other)
  | notTrue {e other : Expr} (inner : Expr.Rearranged e other) : Expr.Rearranged (.notTrue e) (.notTrue other)
  | existsIn {query other : Select} (negated : Bool) (inner : Select.Rearranged query other) :
    Expr.Rearranged (.existsIn query negated) (.existsIn other negated)

inductive Select.Rearranged : Select → Select → Prop
  | of {s other : Select} (table : s.table = other.table) (binding : s.binding = other.binding)
    (columns : s.columns = other.columns) (joins : s.joins.Perm other.joins)
    (paired : Multiset.Rel Expr.Rearranged s.conditions other.conditions) (orders : s.orders = other.orders)
    (limit : s.limit = other.limit) (offset : s.offset = other.offset) : Select.Rearranged s other
end

namespace Expr

theorem rearranged_refl (members : List Expr) : Paired Rearranged members members :=
  Multiset.rel_refl_of_refl_on fun e _ => .same e

theorem isConstant_rearranged (b : Bool) {e other : Expr} (moved : e.Rearranged other) :
    e.isConstant b = other.isConstant b := by
  cases moved <;> rfl

theorem andParts_rearranged {e other : Expr} (moved : e.Rearranged other) :
    Paired Rearranged e.andParts other.andParts := by
  cases moved with
  | same => exact rearranged_refl _
  | and paired => exact paired
  | or paired => exact paired_lone (.or paired)
  | not inner => exact paired_lone (.not inner)
  | notTrue inner => exact paired_lone (.notTrue inner)
  | existsIn negated inner => exact paired_lone (.existsIn negated inner)

theorem orParts_rearranged {e other : Expr} (moved : e.Rearranged other) :
    Paired Rearranged e.orParts other.orParts := by
  cases moved with
  | same => exact rearranged_refl _
  | or paired => exact paired
  | and paired => exact paired_lone (.and paired)
  | not inner => exact paired_lone (.not inner)
  | notTrue inner => exact paired_lone (.notTrue inner)
  | existsIn negated inner => exact paired_lone (.existsIn negated inner)

variable {members others : List Expr}

theorem conjunction_rearranged (paired : Paired Rearranged members others) :
    (conjunction members).Rearranged (conjunction others) := by
  have length := length_of_paired paired
  match members, others, length with
  | [], [], _ => exact .same _
  | [_], [_], _ => exact lone_of_paired paired
  | _ :: _ :: _, _ :: _ :: _, _ => exact .and paired

theorem disjunction_rearranged (paired : Paired Rearranged members others) :
    (disjunction members).Rearranged (disjunction others) := by
  have length := length_of_paired paired
  match members, others, length with
  | [], [], _ => exact .same _
  | [_], [_], _ => exact lone_of_paired paired
  | _ :: _ :: _, _ :: _ :: _, _ => exact .or paired

theorem all_rearranged (paired : Paired Rearranged members others) : (all members).Rearranged (all others) := by
  have decided : members.any (isConstant false) = others.any (isConstant false) :=
    any_of_paired (fun _ _ => isConstant_rearranged false) paired
  unfold all
  rw [decided]
  split
  · exact .same _
  · exact conjunction_rearranged (paired_flatMap (paired.mono fun _ _ _ _ => andParts_rearranged))

theorem any_rearranged (paired : Paired Rearranged members others) : (any members).Rearranged (any others) := by
  have decided : members.any (isConstant true) = others.any (isConstant true) :=
    any_of_paired (fun _ _ => isConstant_rearranged true) paired
  have empty : members.isEmpty = others.isEmpty := by
    rw [Bool.eq_iff_iff, List.isEmpty_iff_length_eq_zero, List.isEmpty_iff_length_eq_zero, length_of_paired paired]
  unfold any
  rw [decided, empty]
  split
  · exact .same _
  · exact disjunction_rearranged (paired_flatMap (paired.mono fun _ _ _ _ => orParts_rearranged))

theorem negate_rearranged {e other : Expr} (moved : e.Rearranged other) : e.negate.Rearranged other.negate := by
  cases moved with
  | same => exact .same _
  | and paired => exact .not (.and paired)
  | or paired => exact .not (.or paired)
  | not inner => exact inner
  | notTrue inner => exact .not (.notTrue inner)
  | existsIn negated inner => exact .existsIn (!negated) inner

theorem violation_rearranged {e other : Expr} (moved : e.Rearranged other) :
    e.violation.Rearranged other.violation := by
  cases moved with
  | same => exact .same _
  | and paired => exact .notTrue (.and paired)
  | or paired => exact .notTrue (.or paired)
  | not inner => exact .notTrue (.not inner)
  | notTrue inner => exact .not (.notTrue inner)
  | existsIn negated inner => exact .existsIn (!negated) inner

theorem listConjuncts_eq_flatMap (members : List Expr) : listConjuncts members = members.flatMap conjuncts := by
  induction members with
  | nil => rfl
  | cons e rest ih => rw [listConjuncts, ih, List.flatMap_cons]

theorem conjuncts_rearranged (e : Expr) {other : Expr} (moved : e.Rearranged other) :
    Paired Rearranged e.conjuncts other.conjuncts := by
  cases moved with
  | same => exact rearranged_refl _
  | @and members others paired =>
    rw [conjuncts, conjuncts, listConjuncts_eq_flatMap, listConjuncts_eq_flatMap]
    refine paired_flatMap (paired.mono ?_)
    intro m member _ _ inner
    exact conjuncts_rearranged m inner
  | or paired => exact paired_lone (.or paired)
  | not inner => exact paired_lone (.not inner)
  | notTrue inner => exact paired_lone (.notTrue inner)
  | existsIn negated inner => exact paired_lone (.existsIn negated inner)
termination_by e
decreasing_by
  have smaller := List.sizeOf_lt_of_mem (Multiset.mem_coe.mp member)
  simp only [and.sizeOf_spec]
  omega

end Expr

structure Source.Reordered (s other : Source) : Prop where
  table : s.table = other.table
  binding : s.binding = other.binding
  joins : s.joins.Perm other.joins

theorem Select.Rearranged.parts {s other : Select} (moved : s.Rearranged other) :
    s.source.Reordered other.source ∧ Paired Expr.Rearranged s.conditions other.conditions ∧
      s.limit = other.limit ∧ s.offset = other.offset := by
  obtain ⟨table, binding, _, joins, paired, _, limit, offset⟩ := moved
  exact ⟨⟨table, binding, joins⟩, paired, limit, offset⟩

theorem Select.Rearranged.andWhere {s other : Select} {e moved : Expr} (around : s.Rearranged other)
    (inner : e.Rearranged moved) : (s.andWhere e).Rearranged (other.andWhere moved) := by
  obtain ⟨table, binding, columns, joins, paired, orders, limit, offset⟩ := around
  exact ⟨table, binding, columns, joins, paired_append paired (e.conjuncts_rearranged inner), orders, limit, offset⟩

inductive Clause.Rearranged : Clause → Clause → Prop
  | same (c : Clause) : Clause.Rearranged c c
  | and {members others : List Clause} (paired : Multiset.Rel Clause.Rearranged members others) :
    Clause.Rearranged (.and members) (.and others)
  | or {members others : List Clause} (paired : Multiset.Rel Clause.Rearranged members others) :
    Clause.Rearranged (.or members) (.or others)
  | not {c other : Clause} (inner : Clause.Rearranged c other) : Clause.Rearranged (.not c) (.not other)
  | nested {c other : Clause} (path : String) (inner : Clause.Rearranged c other) :
    Clause.Rearranged (.nested path c) (.nested path other)

namespace Clause

theorem rearranged_refl (members : List Clause) : Paired Rearranged members members :=
  Multiset.rel_refl_of_refl_on fun c _ => .same c

theorem isConstant_rearranged (b : Bool) {c other : Clause} (moved : c.Rearranged other) :
    c.isConstant b = other.isConstant b := by
  cases moved <;> rfl

theorem andParts_rearranged {c other : Clause} (moved : c.Rearranged other) :
    Paired Rearranged c.andParts other.andParts := by
  cases moved with
  | same => exact rearranged_refl _
  | and paired => exact paired
  | or paired => exact paired_lone (.or paired)
  | not inner => exact paired_lone (.not inner)
  | nested path inner => exact paired_lone (.nested path inner)

theorem orParts_rearranged {c other : Clause} (moved : c.Rearranged other) :
    Paired Rearranged c.orParts other.orParts := by
  cases moved with
  | same => exact rearranged_refl _
  | or paired => exact paired
  | and paired => exact paired_lone (.and paired)
  | not inner => exact paired_lone (.not inner)
  | nested path inner => exact paired_lone (.nested path inner)

variable {members others : List Clause}

theorem conjunction_rearranged (paired : Paired Rearranged members others) :
    (conjunction members).Rearranged (conjunction others) := by
  have length := length_of_paired paired
  match members, others, length with
  | [], [], _ => exact .same _
  | [_], [_], _ => exact lone_of_paired paired
  | _ :: _ :: _, _ :: _ :: _, _ => exact .and paired

theorem disjunction_rearranged (paired : Paired Rearranged members others) :
    (disjunction members).Rearranged (disjunction others) := by
  have length := length_of_paired paired
  match members, others, length with
  | [], [], _ => exact .same _
  | [_], [_], _ => exact lone_of_paired paired
  | _ :: _ :: _, _ :: _ :: _, _ => exact .or paired

theorem all_rearranged (paired : Paired Rearranged members others) : (all members).Rearranged (all others) := by
  have decided : members.any (isConstant false) = others.any (isConstant false) :=
    any_of_paired (fun _ _ => isConstant_rearranged false) paired
  unfold all
  rw [decided]
  split
  · exact .same _
  · exact conjunction_rearranged (paired_flatMap (paired.mono fun _ _ _ _ => andParts_rearranged))

theorem any_rearranged (paired : Paired Rearranged members others) : (any members).Rearranged (any others) := by
  have decided : members.any (isConstant true) = others.any (isConstant true) :=
    any_of_paired (fun _ _ => isConstant_rearranged true) paired
  have empty : members.isEmpty = others.isEmpty := by
    rw [Bool.eq_iff_iff, List.isEmpty_iff_length_eq_zero, List.isEmpty_iff_length_eq_zero, length_of_paired paired]
  unfold any
  rw [decided, empty]
  split
  · exact .same _
  · exact disjunction_rearranged (paired_flatMap (paired.mono fun _ _ _ _ => orParts_rearranged))

theorem negate_rearranged {c other : Clause} (moved : c.Rearranged other) : c.negate.Rearranged other.negate := by
  cases moved with
  | same => exact .same _
  | and paired => exact .not (.and paired)
  | or paired => exact .not (.or paired)
  | not inner => exact inner
  | nested path inner => exact .not (.nested path inner)

theorem listConjuncts_eq_flatMap (members : List Clause) : listConjuncts members = members.flatMap conjuncts := by
  induction members with
  | nil => rfl
  | cons c rest ih => rw [listConjuncts, ih, List.flatMap_cons]

theorem conjuncts_rearranged (c : Clause) {other : Clause} (moved : c.Rearranged other) :
    Paired Rearranged c.conjuncts other.conjuncts := by
  cases moved with
  | same => exact rearranged_refl _
  | @and members others paired =>
    rw [conjuncts, conjuncts, listConjuncts_eq_flatMap, listConjuncts_eq_flatMap]
    refine paired_flatMap (paired.mono ?_)
    intro m member _ _ inner
    exact conjuncts_rearranged m inner
  | or paired => exact paired_lone (.or paired)
  | not inner => exact paired_lone (.not inner)
  | nested path inner => exact paired_lone (.nested path inner)
termination_by c
decreasing_by
  have smaller := List.sizeOf_lt_of_mem (Multiset.mem_coe.mp member)
  simp only [and.sizeOf_spec]
  omega

theorem closeNested_rearranged {c other : Clause} (inner : c.Rearranged other) :
    (CompiledQuery.closeNested binding mode c).Rearranged (CompiledQuery.closeNested binding mode other) := by
  cases mode with
  | anyMatch => exact .nested binding inner
  | allMatch => exact .not (.nested binding (negate_rearranged inner))

end Clause

namespace Predicate

def Rearranged : Predicate → Predicate → Prop
  | sql e, sql other => e.Rearranged other
  | search c, search other => c.Rearranged other
  | _, _ => False

theorem negate_rearranged {p other : Predicate} (moved : p.Rearranged other) : p.negate.Rearranged other.negate := by
  cases p <;> cases other <;> first | cases moved; done | skip
  · exact Expr.negate_rearranged moved
  · exact Clause.negate_rearranged moved

theorem join_rearranged (op : Connective) {members others : List Predicate} (own : ∀ p ∈ members, p.kind = k)
    (own' : ∀ p ∈ others, p.kind = k) (paired : Paired Rearranged members others) :
    (join k op members).Rearranged (join k op others) := by
  cases k with
  | sql =>
    rw [← exprs_of_kind own, ← exprs_of_kind own', paired_map] at paired
    cases op with
    | and => exact Expr.all_rearranged paired
    | or => exact Expr.any_rearranged paired
  | search =>
    rw [← clauses_of_kind own, ← clauses_of_kind own', paired_map] at paired
    cases op with
    | and => exact Clause.all_rearranged paired
    | or => exact Clause.any_rearranged paired

end Predicate

namespace CompiledQuery

-- The same rows are asked for, told in another order.
def Rearranged : CompiledQuery → CompiledQuery → Prop
  | sql d s, sql d' other => d = d' ∧ s.Rearranged other
  | search r, search other =>
    r.index = other.index ∧ Paired Clause.Rearranged r.filters other.filters ∧ r.sort = other.sort ∧
      r.from? = other.from? ∧ r.size? = other.size?
  | _, _ => False

theorem closeSelect_rearranged {s other : Select} {e moved : Expr} (around : s.Rearranged other)
    (inner : e.Rearranged moved) :
    (closeSelect s parent binding link mode e).Rearranged (closeSelect other parent binding link mode moved) := by
  have correlated := around.andWhere (.same (correlation parent binding link))
  cases mode with
  | anyMatch => exact .existsIn false (correlated.andWhere inner)
  | allMatch => exact .existsIn true (correlated.andWhere (Expr.violation_rearranged inner))

theorem closeScope_rearranged {scope other : CompiledQuery} {p moved : Predicate} (around : scope.Rearranged other)
    (inner : p.Rearranged moved) (accepted : scope.closeScope? parent binding link p mode = some closed)
    (accepted' : other.closeScope? parent binding link moved mode = some closed') : closed.Rearranged closed' := by
  cases scope <;> cases other <;> first | cases around; done | skip
  · cases p <;> cases moved <;> first | cases inner; done | cases accepted; done | skip
    cases accepted
    cases accepted'
    exact closeSelect_rearranged around.2 inner
  · cases p <;> cases moved <;> first | cases inner; done | cases accepted; done | skip
    cases accepted
    cases accepted'
    exact Clause.closeNested_rearranged inner

theorem andPredicate_rearranged {q other narrowed narrowed' : CompiledQuery} {p moved : Predicate}
    (around : q.Rearranged other) (inner : p.Rearranged moved) (accepted : q.andPredicate? p = some narrowed)
    (accepted' : other.andPredicate? moved = some narrowed') : narrowed.Rearranged narrowed' := by
  cases q <;> cases other <;> first | cases around; done | skip
  · cases p <;> cases moved <;> first | cases inner; done | cases accepted; done | skip
    cases accepted
    cases accepted'
    exact ⟨around.1, around.2.andWhere inner⟩
  · cases p <;> cases moved <;> first | cases inner; done | cases accepted; done | skip
    cases accepted
    cases accepted'
    obtain ⟨index, paired, same⟩ := around
    exact ⟨index, paired_append paired (Clause.conjuncts_rearranged _ inner), same⟩

end CompiledQuery

-- The order of the joins does not matter to what there is to select from.
def Database.JoinsCommute (d : Database) : Prop :=
  ∀ row {source other : Source}, source.Reordered other → (d.rows row source).Perm (d.rows row other)

-- Whether anything is left when some are cut off goes by their number.
theorem isEmpty_paged (limit offset : Option Nat) {rows others : List α} (same : rows.length = others.length) :
    (paged limit offset rows).isEmpty = (paged limit offset others).isEmpty := by
  rw [Bool.eq_iff_iff, List.isEmpty_iff_length_eq_zero, List.isEmpty_iff_length_eq_zero]
  cases limit with
  | none => simp only [paged, List.length_drop, same]
  | some n => simp only [paged, List.length_take, List.length_drop, same]

theorem Connective.fold_of_paired (op : Connective) {f : α → Truth} {g : β → Truth} {xs : List α} {ys : List β}
    (paired : Paired (fun x y => f x = g y) xs ys) : op.fold (xs.map f) = op.fold (ys.map g) :=
  op.fold_perm (perm_of_paired paired)

theorem Select.sizeOf_conditions (s : Select) : sizeOf s.conditions < sizeOf s := by
  cases s
  simp only [mk.sizeOf_spec]
  omega

theorem Expr.truthOn_rearranged {d : Database} (commute : d.JoinsCommute) (e : Expr) {other : Expr}
    (moved : e.Rearranged other) (row : d.Row) : e.truthOn d row = other.truthOn d row := by
  cases moved with
  | same => rfl
  | @and members others paired =>
    rw [truthOn, truthOn, truthsOn_eq_map, truthsOn_eq_map]
    refine Connective.and.fold_of_paired (paired.mono ?_)
    intro m member _ _ inner
    exact truthOn_rearranged commute m inner row
  | @or members others paired =>
    rw [truthOn, truthOn, truthsOn_eq_map, truthsOn_eq_map]
    refine Connective.or.fold_of_paired (paired.mono ?_)
    intro m member _ _ inner
    exact truthOn_rearranged commute m inner row
  | not inner => rw [truthOn, truthOn, truthOn_rearranged commute _ inner row]
  | notTrue inner => rw [truthOn, truthOn, truthOn_rearranged commute _ inner row]
  | @existsIn query other negated inner =>
    obtain ⟨reordered, paired, limit, offset⟩ := inner.parts
    have conditions : ∀ r, Connective.and.fold (query.conditions.map (truthOn d r)) =
        Connective.and.fold (other.conditions.map (truthOn d r)) := by
      intro r
      refine Connective.and.fold_of_paired (paired.mono ?_)
      intro m member _ _ inner
      exact truthOn_rearranged commute m inner r
    have rows := commute row reordered
    have left := (rows.filter fun r => Connective.and.fold (other.conditions.map (truthOn d r)) = .true).length_eq
    rw [truthOn, truthOn, findsRow_eq, findsRow_eq]
    simp only [conditions, limit, offset, isEmpty_paged _ _ left]
termination_by sizeOf e
decreasing_by
  · have smaller := List.sizeOf_lt_of_mem (Multiset.mem_coe.mp member)
    simp only [and.sizeOf_spec]
    omega
  · have smaller := List.sizeOf_lt_of_mem (Multiset.mem_coe.mp member)
    simp only [or.sizeOf_spec]
    omega
  · simp only [not.sizeOf_spec]
    omega
  · simp only [notTrue.sizeOf_spec]
    omega
  · have smaller := List.sizeOf_lt_of_mem (Multiset.mem_coe.mp member)
    have below := query.sizeOf_conditions
    simp only [existsIn.sizeOf_spec]
    omega

theorem Clause.truthOn_rearranged (d : Database) (c : Clause) {other : Clause} (moved : c.Rearranged other)
    (doc : d.Row) : c.truthOn d doc = other.truthOn d doc := by
  cases moved with
  | same => rfl
  | @and members others paired =>
    rw [truthOn, truthOn, truthsOn_eq_map, truthsOn_eq_map]
    refine Connective.and.fold_of_paired (paired.mono ?_)
    intro m member _ _ inner
    exact truthOn_rearranged d m inner doc
  | @or members others paired =>
    rw [truthOn, truthOn, truthsOn_eq_map, truthsOn_eq_map]
    refine Connective.or.fold_of_paired (paired.mono ?_)
    intro m member _ _ inner
    exact truthOn_rearranged d m inner doc
  | not inner => rw [truthOn, truthOn, truthOn_rearranged d _ inner doc]
  | nested path inner =>
    have same : ∀ embedded, truthOn d embedded _ = truthOn d embedded _ := truthOn_rearranged d _ inner
    simp only [truthOn, same]
termination_by sizeOf c
decreasing_by
  · have smaller := List.sizeOf_lt_of_mem (Multiset.mem_coe.mp member)
    simp only [and.sizeOf_spec]
    omega
  · have smaller := List.sizeOf_lt_of_mem (Multiset.mem_coe.mp member)
    simp only [or.sizeOf_spec]
    omega
  · simp only [not.sizeOf_spec]
    omega
  · simp only [nested.sizeOf_spec]
    omega

namespace CompiledQuery

theorem truthOn_rearranged {d : Database} (commute : d.JoinsCommute) {q other : CompiledQuery}
    (moved : q.Rearranged other) (row : d.Row) : q.truthOn d row = other.truthOn d row := by
  cases q <;> cases other <;> first | cases moved; done | skip
  · obtain ⟨_, paired, _⟩ := moved.2.parts
    exact Connective.and.fold_of_paired (paired.mono fun _ _ _ _ inner => Expr.truthOn_rearranged commute _ inner row)
  · obtain ⟨_, paired, _⟩ := moved
    exact Connective.and.fold_of_paired (paired.mono fun _ _ _ _ inner => Clause.truthOn_rearranged d _ inner row)

-- Whatever the order, the same rows are found.
theorem found_rearranged {d : Database} (commute : d.JoinsCommute) {q other : CompiledQuery}
    (moved : q.Rearranged other) (outer : d.Row) : (q.found d outer).Perm (other.found d outer) := by
  have reordered : q.source.Reordered other.source := by
    cases q <;> cases other <;> first | cases moved; done | skip
    · exact moved.2.parts.1
    · exact ⟨moved.1, rfl, .refl _⟩
  simp only [found, truthOn_rearranged commute moved]
  exact (commute outer reordered).filter _

end CompiledQuery
end FilterQuery
