import FilterQuery.Query.Compiled

namespace FilterQuery

namespace Expr

-- A conjunction or disjunction has at least two members, also below a negation, and only what cannot take
-- the negation in is negated as a whole.
def Steady : Expr → Prop
  | and members => 2 ≤ members.length
  | or members => 2 ≤ members.length
  | not e => e.Steady ∧ e.negate = not e
  | _ => True

theorem negate_negate {e : Expr} (steady : e.Steady) : e.negate.negate = e := by
  cases e with
  | not e => exact steady.2
  | binary left op right =>
    cases op <;> rfl
  | isNull e negated | inList e list negated | existsIn body negated => simp only [negate, Bool.not_not]
  | constant b => simp only [negate, Bool.not_not]
  | _ => rfl

theorem all_singleton {e : Expr} (steady : e.Steady) : all [e] = e := by
  cases e with
  | constant b => cases b <;> rfl
  | and members =>
    match members, steady with
    | _ :: _ :: _, _ => simp [all, isConstant, andParts, conjunction]
  | _ => rfl

theorem any_singleton {e : Expr} (steady : e.Steady) : any [e] = e := by
  cases e with
  | constant b => cases b <;> rfl
  | or members =>
    match members, steady with
    | _ :: _ :: _, _ => simp [any, isConstant, orParts, disjunction]
  | _ => rfl

end Expr

namespace Clause

def Steady : Clause → Prop
  | and members => 2 ≤ members.length
  | or members => 2 ≤ members.length
  | not c => c.Steady ∧ c.negate = not c
  | _ => True

theorem negate_negate {c : Clause} (steady : c.Steady) : c.negate.negate = c := by
  cases c with
  | not c => exact steady.2
  | constant b => simp only [negate, Bool.not_not]
  | _ => rfl

theorem all_singleton {c : Clause} (steady : c.Steady) : all [c] = c := by
  cases c with
  | constant b => cases b <;> rfl
  | and members =>
    match members, steady with
    | _ :: _ :: _, _ => simp [all, isConstant, andParts, conjunction]
  | _ => rfl

theorem any_singleton {c : Clause} (steady : c.Steady) : any [c] = c := by
  cases c with
  | constant b => cases b <;> rfl
  | or members =>
    match members, steady with
    | _ :: _ :: _, _ => simp [any, isConstant, orParts, disjunction]
  | _ => rfl

end Clause

namespace Predicate

def Steady : Predicate → Prop
  | sql e => e.Steady
  | search c => c.Steady

theorem negate_negate {p : Predicate} (steady : p.Steady) : p.negate.negate = p := by
  cases p with
  | sql e => exact congrArg sql (Expr.negate_negate steady)
  | search c => exact congrArg search (Clause.negate_negate steady)

theorem join_singleton (op : Connective) {p : Predicate} (steady : p.Steady) : join p.kind op [p] = p := by
  cases p with
  | sql e =>
    cases op
    · exact congrArg sql (Expr.all_singleton steady)
    · exact congrArg sql (Expr.any_singleton steady)
  | search c =>
    cases op
    · exact congrArg search (Clause.all_singleton steady)
    · exact congrArg search (Clause.any_singleton steady)

end Predicate

namespace Expr

-- What may stand in a conjunction.
def fitsAnd : Expr → Bool
  | constant _ => false
  | and _ => false
  | _ => true

def fitsOr : Expr → Bool
  | constant _ => false
  | or _ => false
  | _ => true

-- A condition that no row meets stays, one that every row meets does not.
def fitsWhere : Expr → Bool
  | constant b => !b
  | and _ => false
  | _ => true

mutual
def Normal : Expr → Prop
  | and members => 2 ≤ members.length ∧ (∀ m ∈ members, m.fitsAnd = true) ∧ AllNormal members
  | or members => 2 ≤ members.length ∧ (∀ m ∈ members, m.fitsOr = true) ∧ AllNormal members
  | not e => e.Normal ∧ e.negate = not e
  | notTrue e => e.Normal ∧ e.violation = notTrue e
  | existsIn query _ => SelectNormal query
  | _ => True

def AllNormal : List Expr → Prop
  | [] => True
  | e :: rest => e.Normal ∧ AllNormal rest

def SelectNormal : Select → Prop
  | ⟨_, _, _, _, conditions, _, _, _⟩ => (∀ e ∈ conditions, e.fitsWhere = true) ∧ AllNormal conditions
end

theorem allNormal_exact {members : List Expr} : AllNormal members ↔ ∀ m ∈ members, m.Normal := by
  induction members with
  | nil => simp [AllNormal]
  | cons e rest ih => simp [AllNormal, ih]

theorem selectNormal_exact {s : Select} : SelectNormal s ↔ ∀ e ∈ s.conditions, e.fitsWhere = true ∧ e.Normal := by
  cases s
  simp only [SelectNormal, allNormal_exact, imp_and, forall_and]

theorem steady_of_normal {e : Expr} (normal : e.Normal) : e.Steady := by
  cases e with
  | and members => exact normal.1
  | or members => exact normal.1
  | not e => exact ⟨steady_of_normal normal.1, normal.2⟩
  | _ => trivial

theorem andParts_normal {e part : Expr} (normal : e.Normal) (live : e.isConstant false = false)
    (member : part ∈ e.andParts) : part.fitsAnd = true ∧ part.Normal := by
  cases e with
  | constant b =>
    cases b with
    | false => cases live
    | true => cases member
  | and members =>
    obtain ⟨_, flat, each⟩ := normal
    exact ⟨flat part member, allNormal_exact.mp each part member⟩
  | _ =>
    rw [List.mem_singleton.mp member]
    exact ⟨rfl, normal⟩

theorem orParts_normal {e part : Expr} (normal : e.Normal) (live : e.isConstant true = false)
    (member : part ∈ e.orParts) : part.fitsOr = true ∧ part.Normal := by
  cases e with
  | constant b =>
    cases b with
    | false => cases member
    | true => cases live
  | or members =>
    obtain ⟨_, flat, each⟩ := normal
    exact ⟨flat part member, allNormal_exact.mp each part member⟩
  | _ =>
    rw [List.mem_singleton.mp member]
    exact ⟨rfl, normal⟩

theorem normal_conjunction {parts : List Expr} (each : ∀ e ∈ parts, e.fitsAnd = true ∧ e.Normal) :
    (conjunction parts).Normal := by
  match parts with
  | [] => trivial
  | [e] => exact (each e (List.mem_singleton_self e)).2
  | first :: second :: rest =>
    exact ⟨by simp, fun m member => (each m member).1, allNormal_exact.mpr fun m member => (each m member).2⟩

theorem normal_disjunction {parts : List Expr} (each : ∀ e ∈ parts, e.fitsOr = true ∧ e.Normal) :
    (disjunction parts).Normal := by
  match parts with
  | [] => trivial
  | [e] => exact (each e (List.mem_singleton_self e)).2
  | first :: second :: rest =>
    exact ⟨by simp, fun m member => (each m member).1, allNormal_exact.mpr fun m member => (each m member).2⟩

theorem normal_all {members : List Expr} (normal : ∀ m ∈ members, m.Normal) : (all members).Normal := by
  unfold all
  split
  · trivial
  · rename_i undecided
    apply normal_conjunction
    intro part member
    obtain ⟨m, among, within⟩ := List.mem_flatMap.mp member
    exact andParts_normal (normal m among) (by simpa using List.any_eq_false.mp (by simpa using undecided) m among) within

theorem normal_any {members : List Expr} (normal : ∀ m ∈ members, m.Normal) : (any members).Normal := by
  unfold any
  split
  · trivial
  · rename_i undecided
    rw [Bool.or_eq_true, not_or] at undecided
    apply normal_disjunction
    intro part member
    obtain ⟨m, among, within⟩ := List.mem_flatMap.mp member
    exact orParts_normal (normal m among) (by simpa using List.any_eq_false.mp (by simpa using undecided.2) m among) within

theorem normal_negate {e : Expr} (normal : e.Normal) : e.negate.Normal := by
  cases e with
  | not e => exact normal.1
  | binary left op right =>
    simp only [negate]
    split
    · trivial
    · rename_i missing
      exact ⟨trivial, by simp only [negate, missing]⟩
  | constant _ | isNull _ _ | inList _ _ _ => trivial
  | existsIn query negated => exact normal
  | _ => exact ⟨normal, rfl⟩

theorem normal_violation {e : Expr} (normal : e.Normal) : e.violation.Normal := by
  cases e with
  | constant _ | isNull _ _ | existsIn _ _ | notTrue _ => exact normal_negate normal
  | _ => exact ⟨normal, rfl⟩

mutual
theorem conjuncts_normal (e : Expr) (normal : e.Normal) : ∀ c ∈ e.conjuncts, c.fitsWhere = true ∧ c.Normal := by
  cases e with
  | constant b =>
    cases b with
    | false => simp [conjuncts, fitsWhere, Normal]
    | true => simp [conjuncts]
  | and members => exact listConjuncts_normal members normal.2.2
  | _ =>
    intro c member
    rw [List.mem_singleton.mp member]
    exact ⟨rfl, normal⟩

theorem listConjuncts_normal (members : List Expr) (normal : AllNormal members) :
    ∀ c ∈ listConjuncts members, c.fitsWhere = true ∧ c.Normal := by
  cases members with
  | nil => simp [listConjuncts]
  | cons e rest =>
    intro c member
    rcases List.mem_append.mp member with here | later
    · exact conjuncts_normal e normal.1 c here
    · exact listConjuncts_normal rest normal.2 c later
end

theorem andWhere_normal {s : Select} {e : Expr} (normal : SelectNormal s) (own : e.Normal) :
    SelectNormal (s.andWhere e) := by
  rw [selectNormal_exact] at normal ⊢
  intro c member
  rcases List.mem_append.mp member with old | new
  · exact normal c old
  · exact conjuncts_normal e own c new

end Expr

namespace Clause

def fitsAnd : Clause → Bool
  | constant _ => false
  | and _ => false
  | _ => true

def fitsOr : Clause → Bool
  | constant _ => false
  | or _ => false
  | _ => true

def fitsWhere : Clause → Bool
  | constant b => !b
  | and _ => false
  | _ => true

mutual
def Normal : Clause → Prop
  | and members => 2 ≤ members.length ∧ (∀ m ∈ members, m.fitsAnd = true) ∧ AllNormal members
  | or members => 2 ≤ members.length ∧ (∀ m ∈ members, m.fitsOr = true) ∧ AllNormal members
  | not c => c.Normal ∧ c.negate = not c
  | nested _ c => c.Normal
  | _ => True

def AllNormal : List Clause → Prop
  | [] => True
  | c :: rest => c.Normal ∧ AllNormal rest
end

theorem allNormal_exact {members : List Clause} : AllNormal members ↔ ∀ m ∈ members, m.Normal := by
  induction members with
  | nil => simp [AllNormal]
  | cons c rest ih => simp [AllNormal, ih]

theorem steady_of_normal {c : Clause} (normal : c.Normal) : c.Steady := by
  cases c with
  | and members => exact normal.1
  | or members => exact normal.1
  | not c => exact ⟨steady_of_normal normal.1, normal.2⟩
  | _ => trivial

theorem andParts_normal {c part : Clause} (normal : c.Normal) (live : c.isConstant false = false)
    (member : part ∈ c.andParts) : part.fitsAnd = true ∧ part.Normal := by
  cases c with
  | constant b =>
    cases b with
    | false => cases live
    | true => cases member
  | and members =>
    obtain ⟨_, flat, each⟩ := normal
    exact ⟨flat part member, allNormal_exact.mp each part member⟩
  | _ =>
    rw [List.mem_singleton.mp member]
    exact ⟨rfl, normal⟩

theorem orParts_normal {c part : Clause} (normal : c.Normal) (live : c.isConstant true = false)
    (member : part ∈ c.orParts) : part.fitsOr = true ∧ part.Normal := by
  cases c with
  | constant b =>
    cases b with
    | false => cases member
    | true => cases live
  | or members =>
    obtain ⟨_, flat, each⟩ := normal
    exact ⟨flat part member, allNormal_exact.mp each part member⟩
  | _ =>
    rw [List.mem_singleton.mp member]
    exact ⟨rfl, normal⟩

theorem normal_conjunction {parts : List Clause} (each : ∀ c ∈ parts, c.fitsAnd = true ∧ c.Normal) :
    (conjunction parts).Normal := by
  match parts with
  | [] => trivial
  | [c] => exact (each c (List.mem_singleton_self c)).2
  | first :: second :: rest =>
    exact ⟨by simp, fun m member => (each m member).1, allNormal_exact.mpr fun m member => (each m member).2⟩

theorem normal_disjunction {parts : List Clause} (each : ∀ c ∈ parts, c.fitsOr = true ∧ c.Normal) :
    (disjunction parts).Normal := by
  match parts with
  | [] => trivial
  | [c] => exact (each c (List.mem_singleton_self c)).2
  | first :: second :: rest =>
    exact ⟨by simp, fun m member => (each m member).1, allNormal_exact.mpr fun m member => (each m member).2⟩

theorem normal_all {members : List Clause} (normal : ∀ m ∈ members, m.Normal) : (all members).Normal := by
  unfold all
  split
  · trivial
  · rename_i undecided
    apply normal_conjunction
    intro part member
    obtain ⟨m, among, within⟩ := List.mem_flatMap.mp member
    exact andParts_normal (normal m among) (by simpa using List.any_eq_false.mp (by simpa using undecided) m among) within

theorem normal_any {members : List Clause} (normal : ∀ m ∈ members, m.Normal) : (any members).Normal := by
  unfold any
  split
  · trivial
  · rename_i undecided
    rw [Bool.or_eq_true, not_or] at undecided
    apply normal_disjunction
    intro part member
    obtain ⟨m, among, within⟩ := List.mem_flatMap.mp member
    exact orParts_normal (normal m among) (by simpa using List.any_eq_false.mp (by simpa using undecided.2) m among) within

theorem normal_negate {c : Clause} (normal : c.Normal) : c.negate.Normal := by
  cases c with
  | not c => exact normal.1
  | constant b => trivial
  | _ => exact ⟨normal, rfl⟩

mutual
theorem conjuncts_normal (c : Clause) (normal : c.Normal) : ∀ m ∈ c.conjuncts, m.fitsWhere = true ∧ m.Normal := by
  cases c with
  | constant b =>
    cases b with
    | false => simp [conjuncts, fitsWhere, Normal]
    | true => simp [conjuncts]
  | and members => exact listConjuncts_normal members normal.2.2
  | _ =>
    intro m member
    rw [List.mem_singleton.mp member]
    exact ⟨rfl, normal⟩

theorem listConjuncts_normal (members : List Clause) (normal : AllNormal members) :
    ∀ m ∈ listConjuncts members, m.fitsWhere = true ∧ m.Normal := by
  cases members with
  | nil => simp [listConjuncts]
  | cons c rest =>
    intro m member
    rcases List.mem_append.mp member with here | later
    · exact conjuncts_normal c normal.1 m here
    · exact listConjuncts_normal rest normal.2 m later
end

end Clause

namespace Predicate

def Normal : Predicate → Prop
  | sql e => e.Normal
  | search c => c.Normal

theorem steady_of_normal {p : Predicate} (normal : p.Normal) : p.Steady := by
  cases p with
  | sql e => exact Expr.steady_of_normal normal
  | search c => exact Clause.steady_of_normal normal

theorem normal_negate {p : Predicate} (normal : p.Normal) : p.negate.Normal := by
  cases p with
  | sql e => exact Expr.normal_negate normal
  | search c => exact Clause.normal_negate normal

theorem normal_join (op : Connective) {members : List Predicate} (normal : ∀ p ∈ members, p.Normal) :
    (join k op members).Normal := by
  cases k with
  | sql =>
    have exprs : ∀ e ∈ members.filterMap expr?, e.Normal := by
      intro e member
      obtain ⟨p, among, same⟩ := List.mem_filterMap.mp member
      cases p with
      | sql inner =>
        cases Option.some.inj same
        exact normal _ among
      | search c => cases same
    cases op
    · exact Expr.normal_all exprs
    · exact Expr.normal_any exprs
  | search =>
    have clauses : ∀ c ∈ members.filterMap clause?, c.Normal := by
      intro c member
      obtain ⟨p, among, same⟩ := List.mem_filterMap.mp member
      cases p with
      | sql e => cases same
      | search inner =>
        cases Option.some.inj same
        exact normal _ among
    cases op
    · exact Clause.normal_all clauses
    · exact Clause.normal_any clauses

end Predicate

namespace CompiledQuery

-- Every condition is as a WHERE may hold it.
def Normal : CompiledQuery → Prop
  | sql _ s => Expr.SelectNormal s
  | search r => ∀ c ∈ r.filters, c.fitsWhere = true ∧ c.Normal

theorem normal_forQueryable (q : Queryable) : (forQueryable q).Normal := by
  unfold forQueryable
  split <;> simp [Normal, Expr.selectNormal_exact, Select.new, SearchRequest.new]

theorem normal_openScope (q : CompiledQuery) (related : Queryable) (binding : String) :
    (q.openScope related binding).Normal := by
  cases q <;> simp [openScope, Normal, Expr.selectNormal_exact, Select.new, SearchRequest.new]

theorem closeSelect_normal {s : Select} {e : Expr} (normal : Expr.SelectNormal s) (own : e.Normal) :
    (closeSelect s parent binding link mode e).Normal := by
  have correlated : Expr.SelectNormal (s.andWhere (correlation parent binding link)) :=
    Expr.andWhere_normal normal trivial
  cases mode with
  | anyMatch => exact Expr.andWhere_normal correlated own
  | allMatch => exact Expr.andWhere_normal correlated (Expr.normal_violation own)

theorem closeNested_normal {c : Clause} (own : c.Normal) : (closeNested binding mode c).Normal := by
  cases mode with
  | anyMatch => exact own
  | allMatch => exact ⟨Clause.normal_negate own, rfl⟩

theorem closeScope_normal {below : CompiledQuery} {p closed : Predicate} (normal : below.Normal) (own : p.Normal)
    (accepted : below.closeScope? parent binding link p mode = some closed) : closed.Normal := by
  cases below <;> cases p <;> cases accepted
  · exact closeSelect_normal normal own
  · exact closeNested_normal own

theorem andPredicate_normal {q narrowed : CompiledQuery} {p : Predicate} (normal : q.Normal) (own : p.Normal)
    (accepted : q.andPredicate? p = some narrowed) : narrowed.Normal := by
  cases q <;> cases p <;> cases accepted
  · exact Expr.andWhere_normal normal own
  · intro c member
    rcases List.mem_append.mp member with old | new
    · exact normal c old
    · exact Clause.conjuncts_normal _ own c new

end CompiledQuery
end FilterQuery
