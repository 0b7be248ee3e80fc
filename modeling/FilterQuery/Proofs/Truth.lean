import FilterQuery.Query.Predicate

namespace FilterQuery

-- Unknown is what a comparison with NULL comes to.
inductive Truth where
  | false
  | unknown
  | true
  deriving DecidableEq, Repr

namespace Truth

def ofBool : Bool → Truth
  | .true => true
  | .false => false

def not : Truth → Truth
  | true => false
  | unknown => unknown
  | false => true

def and : Truth → Truth → Truth
  | false, _ => false
  | _, false => false
  | true, true => true
  | _, _ => unknown

def or : Truth → Truth → Truth
  | true, _ => true
  | _, true => true
  | false, false => false
  | _, _ => unknown

-- Two-valued: false and unknown both count as not true.
def notTrue : Truth → Truth
  | true => false
  | _ => true

@[simp] theorem not_not (t : Truth) : t.not.not = t := by cases t <;> rfl

@[simp] theorem not_ofBool (b : Bool) : (ofBool b).not = ofBool (!b) := by cases b <;> rfl

theorem and_assoc (a b c : Truth) : (a.and b).and c = a.and (b.and c) := by
  cases a <;> cases b <;> cases c <;> rfl

theorem or_assoc (a b c : Truth) : (a.or b).or c = a.or (b.or c) := by
  cases a <;> cases b <;> cases c <;> rfl

theorem and_comm (a b : Truth) : a.and b = b.and a := by cases a <;> cases b <;> rfl

theorem or_comm (a b : Truth) : a.or b = b.or a := by cases a <;> cases b <;> rfl

@[simp] theorem true_and (a : Truth) : true.and a = a := by cases a <;> rfl

@[simp] theorem and_true (a : Truth) : a.and true = a := by cases a <;> rfl

@[simp] theorem false_or (a : Truth) : false.or a = a := by cases a <;> rfl

@[simp] theorem or_false (a : Truth) : a.or false = a := by cases a <;> rfl

@[simp] theorem false_and (a : Truth) : false.and a = false := by cases a <;> rfl

@[simp] theorem true_or (a : Truth) : true.or a = true := by cases a <;> rfl

theorem and_false (a : Truth) : a.and false = false := by cases a <;> rfl

theorem or_true (a : Truth) : a.or true = true := by cases a <;> rfl

end Truth

namespace Connective

def apply : Connective → Truth → Truth → Truth
  | and => Truth.and
  | or => Truth.or

def unit : Connective → Truth
  | and => .true
  | or => .false

-- What decides the connective whatever the other members are.
def absorbing : Connective → Truth
  | and => .false
  | or => .true

-- The constant that the connective passes over.
def neutral : Connective → Bool
  | and => true
  | or => false

def fold (op : Connective) (members : List Truth) : Truth := members.foldr op.apply op.unit

def value (op : Connective) : List Truth → Truth
  | [] => .true
  | first :: rest => op.fold (first :: rest)

theorem neutral_or_deciding (op : Connective) (b : Bool) : b = op.neutral ∨ b = !op.neutral := by
  cases b <;> cases op <;> simp [neutral]

theorem apply_assoc (op : Connective) (a b c : Truth) : op.apply (op.apply a b) c = op.apply a (op.apply b c) := by
  cases op
  · exact Truth.and_assoc a b c
  · exact Truth.or_assoc a b c

theorem apply_comm (op : Connective) (a b : Truth) : op.apply a b = op.apply b a := by
  cases op
  · exact Truth.and_comm a b
  · exact Truth.or_comm a b

@[simp] theorem unit_apply (op : Connective) (a : Truth) : op.apply op.unit a = a := by
  cases op <;> simp [apply, unit]

@[simp] theorem apply_unit (op : Connective) (a : Truth) : op.apply a op.unit = a := by
  cases op <;> simp [apply, unit]

@[simp] theorem fold_nil (op : Connective) : op.fold [] = op.unit := rfl

@[simp] theorem fold_cons (op : Connective) (t : Truth) (rest : List Truth) :
    op.fold (t :: rest) = op.apply t (op.fold rest) := rfl

theorem fold_append (op : Connective) (left right : List Truth) :
    op.fold (left ++ right) = op.apply (op.fold left) (op.fold right) := by
  induction left with
  | nil => simp
  | cons t rest ih => simp only [List.cons_append, fold_cons, ih, apply_assoc]

theorem fold_perm (op : Connective) {left right : List Truth} (moved : left.Perm right) :
    op.fold left = op.fold right := by
  induction moved with
  | nil => rfl
  | cons t _ ih => simp only [fold_cons, ih]
  | swap s t rest => simp only [fold_cons, ← apply_assoc, apply_comm op t s]
  | trans _ _ first second => exact first.trans second

theorem fold_absorbing (op : Connective) {members : List Truth} (decided : op.absorbing ∈ members) :
    op.fold members = op.absorbing := by
  induction members with
  | nil => cases decided
  | cons t rest ih =>
    rcases List.mem_cons.mp decided with here | later
    · rw [← here, fold_cons]
      cases op
      · exact Truth.false_and (fold and rest)
      · exact Truth.true_or (fold or rest)
    · rw [fold_cons, ih later]
      cases op
      · exact Truth.and_false t
      · exact Truth.or_true t

theorem value_of_ne_nil (op : Connective) {members : List Truth} (nonempty : members ≠ []) :
    op.value members = op.fold members := by
  cases members with
  | nil => exact absurd rfl nonempty
  | cons t rest => rfl

theorem value_and (members : List Truth) : and.value members = and.fold members := by
  cases members <;> rfl

theorem value_singleton (op : Connective) (t : Truth) : op.value [t] = t := by
  simp [value]

end Connective
end FilterQuery
