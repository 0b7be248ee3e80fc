import Mathlib.Data.List.Induction
import FilterQuery.Schema.Registry
import FilterQuery.Proofs.Tables

namespace FilterQuery

inductive RegistryCall where
  | register (q : Queryable)
  | implementor (interface id : String)
  | unregister (id : String)
  | clear

namespace RegistryCall

def Registers (id : String) : RegistryCall → Prop
  | .register q => q.id = id
  | _ => False

def Drops (id : String) : RegistryCall → Prop
  | .unregister dropped => dropped = id
  | .clear => True
  | _ => False

theorem registers_iff {c : RegistryCall} {id : String} : c.Registers id ↔ ∃ q, c = .register q ∧ q.id = id := by
  cases c <;> simp [Registers]

-- One of the calls did it and none behind that one undid it.
def Lasting (does undoes : RegistryCall → Prop) (calls : List RegistryCall) : Prop :=
  ∃ before c later, calls = before ++ c :: later ∧ does c ∧ ∀ d ∈ later, ¬undoes d

variable {does undoes : RegistryCall → Prop}

theorem not_lasting_nil : ¬Lasting does undoes [] := by
  rintro ⟨before, c, later, split, -⟩
  exact List.append_ne_nil_of_right_ne_nil before (List.cons_ne_nil c later) split.symm

theorem lasting_snoc (calls : List RegistryCall) (last : RegistryCall) :
    Lasting does undoes (calls ++ [last]) ↔ does last ∨ Lasting does undoes calls ∧ ¬undoes last := by
  constructor
  · rintro ⟨before, c, later, split, did, kept⟩
    rcases List.eq_nil_or_concat' later with rfl | ⟨earlier, d, rfl⟩
    · obtain ⟨-, own⟩ := List.append_inj' split rfl
      cases own
      exact .inl did
    · rw [← List.cons_append, ← List.append_assoc] at split
      obtain ⟨rfl, own⟩ := List.append_inj' split rfl
      cases own
      refine .inr ⟨⟨before, c, earlier, rfl, did, fun d among => kept d ?_⟩, kept last ?_⟩
      · exact List.mem_append_left _ among
      · exact List.mem_append_right _ List.mem_cons_self
  · rintro (did | ⟨⟨before, c, later, rfl, did, kept⟩, still⟩)
    · exact ⟨calls, last, [], rfl, did, fun _ among => nomatch among⟩
    · refine ⟨before, c, later ++ [last], by rw [List.append_assoc, List.cons_append], did, ?_⟩
      intro d among
      rcases List.mem_append.mp among with among | own
      · exact kept d among
      · rwa [List.mem_singleton.mp own]

end RegistryCall

namespace Registry
open RegistryCall

def call (r : Registry) : RegistryCall → Registry
  | .register q => r.register q
  | .implementor interface id => r.registerImplementor interface id
  | .unregister id => r.unregister id
  | .clear => .empty

def callAll (r : Registry) (calls : List RegistryCall) : Registry := calls.foldl call r

def after (calls : List RegistryCall) : Registry := empty.callAll calls

variable {r r' : Registry} {c : RegistryCall} {calls : List RegistryCall} {id other interface : String} {q : Queryable}

theorem callAll_append (r : Registry) (before later : List RegistryCall) :
    r.callAll (before ++ later) = (r.callAll before).callAll later := List.foldl_append

-- What some calls bring about and others end holds in the end if a call that brings it about lasts.
theorem holds_after {P : Registry → Prop} {does undoes : RegistryCall → Prop} (fresh : ¬P .empty)
    (step : ∀ r c, P (r.call c) ↔ does c ∨ P r ∧ ¬undoes c) (calls : List RegistryCall) :
    P (after calls) ↔ Lasting does undoes calls := by
  induction calls using List.reverseRecOn with
  | nil => exact iff_of_false fresh not_lasting_nil
  | append_singleton calls c ih =>
    have stepped : after (calls ++ [c]) = (after calls).call c := callAll_append ..
    rw [stepped, step, ih, lasting_snoc]

theorem get_register (r : Registry) (q : Queryable) (id : String) :
    (r.register q).get? id = if q.id = id then some q else r.get? id := by
  by_cases own : q.id = id
  · rw [if_pos own, ← own]
    exact Table.get_insert_self ..
  · rw [if_neg own]
    exact Table.get_insert_other _ (Ne.symm own) _

theorem get_unregister (r : Registry) (dropped id : String) :
    (r.unregister dropped).get? id = if dropped = id then none else r.get? id := by
  by_cases own : dropped = id
  · rw [if_pos own, own]
    exact Table.get_erase_self ..
  · rw [if_neg own]
    exact Table.get_erase_other _ (Ne.symm own)

theorem implementors_registerImplementor (r : Registry) (interface id asked : String) :
    (r.registerImplementor interface id).implementors asked =
      if interface = asked then insertName id (r.implementors asked) else r.implementors asked := by
  unfold registerImplementor implementors
  by_cases own : interface = asked
  · rw [if_pos own, own, Table.get_insert_self]
    cases r.interfaces.get? asked <;> rfl
  · rw [if_neg own, Table.get_insert_other _ (Ne.symm own)]

theorem implementors_unregister (r : Registry) (dropped asked : String) :
    (r.unregister dropped).implementors asked = (r.implementors asked).filter (· != dropped) := by
  unfold unregister implementors
  rw [Table.get_map]
  cases r.interfaces.get? asked <;> rfl

theorem get_call (r : Registry) (c : RegistryCall) (id : String) (q : Queryable) :
    (r.call c).get? id = some q ↔
      (c = .register q ∧ q.id = id) ∨ r.get? id = some q ∧ ¬(c.Registers id ∨ c.Drops id) := by
  cases c with
  | register given =>
    rw [call, get_register]
    by_cases own : given.id = id
    · simp only [own, Registers, if_true, true_or, not_true_eq_false, and_false, or_false, Option.some.injEq,
        RegistryCall.register.injEq]
      exact ⟨fun same => ⟨same, same ▸ own⟩, And.left⟩
    · simp only [own, Registers, Drops, if_false, or_self, not_false_eq_true, and_true, RegistryCall.register.injEq]
      refine ⟨.inr, fun either => either.resolve_left ?_⟩
      rintro ⟨rfl, same⟩
      exact own same
  | implementor interface name => simp [call, registerImplementor, get?, Registers, Drops]
  | unregister dropped =>
    rw [call, get_unregister]
    by_cases own : dropped = id <;> simp [own, Registers, Drops]
  | clear => simp [call, empty, get?, Table.empty, Table.get?, Drops]

theorem contains_iff : r.contains id = true ↔ ∃ q, r.get? id = some q := Option.isSome_iff_exists

theorem contains_call (r : Registry) (c : RegistryCall) (id : String) :
    (r.call c).contains id = true ↔ c.Registers id ∨ r.contains id = true ∧ ¬c.Drops id := by
  simp only [contains_iff, get_call, exists_or, exists_and_right, ← registers_iff]
  by_cases anew : c.Registers id <;> simp [anew]

theorem mem_implementors_call (r : Registry) (c : RegistryCall) (interface id : String) :
    id ∈ (r.call c).implementors interface ↔
      c = .implementor interface id ∨ id ∈ r.implementors interface ∧ ¬c.Drops id := by
  cases c with
  | register given => simp [call, register, implementors, Drops]
  | implementor given name =>
    rw [call, implementors_registerImplementor]
    by_cases own : given = interface
    · simp [own, mem_insertName, Drops, eq_comm (a := name)]
    · simp [own, Drops]
  | unregister dropped => simp [call, implementors_unregister, Drops, eq_comm (a := dropped)]
  | clear => simp [call, empty, implementors, Table.empty, Table.get?, Drops]

theorem sorted_call (sorted : ∀ i, (r.implementors i).Pairwise (· < ·)) (c : RegistryCall) (interface : String) :
    ((r.call c).implementors interface).Pairwise (· < ·) := by
  cases c with
  | register given => exact sorted interface
  | implementor given name =>
    rw [call, implementors_registerImplementor]
    split
    · exact sorted_insertName (sorted interface) name
    · exact sorted interface
  | unregister dropped =>
    rw [call, implementors_unregister]
    exact (sorted interface).filter _
  | clear => exact .nil

theorem sorted_callAll (calls : List RegistryCall) (sorted : ∀ i, (r.implementors i).Pairwise (· < ·)) :
    ∀ interface, ((r.callAll calls).implementors interface).Pairwise (· < ·) := by
  induction calls generalizing r with
  | nil => exact sorted
  | cons c rest ih => exact ih (sorted_call sorted c)

theorem mem_ids : id ∈ r.ids ↔ r.contains id = true := by
  rw [ids, ← List.contains_iff_mem]
  exact NameSet.contains_ofList.trans (Table.get_isSome_iff ..).symm

-- All that a registry tells, told by the calls alone.
structure Recounts (r : Registry) (calls : List RegistryCall) : Prop where
  defined : ∀ id q, r.get? id = some q ↔
    Lasting (fun c => c = .register q ∧ q.id = id) (fun c => c.Registers id ∨ c.Drops id) calls
  registered : ∀ id, r.contains id = true ↔ Lasting (·.Registers id) (·.Drops id) calls
  listed : ∀ interface id, id ∈ r.implementors interface ↔
    Lasting (· = .implementor interface id) (·.Drops id) calls
  sorted : ∀ interface, (r.implementors interface).Pairwise (· < ·)
  distinct : ∀ interface, (r.implementors interface).Nodup

theorem recounts_after (calls : List RegistryCall) : (after calls).Recounts calls := by
  have sorted := sorted_callAll (r := empty) calls fun _ => .nil
  refine ⟨fun id q => ?_, fun id => ?_, fun interface id => ?_, sorted, fun interface => ?_⟩
  · exact holds_after (P := fun r => r.get? id = some q) (nomatch ·) (fun r c => get_call r c id q) calls
  · exact holds_after (P := fun r => r.contains id = true) (nomatch ·) (fun r c => contains_call r c id) calls
  · exact holds_after (P := fun r => id ∈ r.implementors interface) (nomatch ·)
      (fun r c => mem_implementors_call r c interface id) calls
  · refine (sorted interface).imp ?_
    rintro name _ before rfl
    exact String.lt_irrefl name before

-- The two know the same of the id.
structure Agrees (id : String) (r r' : Registry) : Prop where
  definition : r'.get? id = r.get? id
  named : id ∈ r'.ids ↔ id ∈ r.ids
  roles : ∀ interface, id ∈ r'.implementors interface ↔ id ∈ r.implementors interface

theorem agrees_of (definition : r'.get? id = r.get? id)
    (roles : ∀ interface, id ∈ r'.implementors interface ↔ id ∈ r.implementors interface) : Agrees id r r' := by
  refine ⟨definition, ?_, roles⟩
  have contained : r'.contains id = r.contains id := congrArg Option.isSome definition
  rw [mem_ids, mem_ids, contained]

theorem agrees_unregister (r : Registry) (apart : other ≠ id) : Agrees other r (r.unregister id) := by
  refine agrees_of ?_ fun interface => ?_
  · rw [get_unregister, if_neg (Ne.symm apart)]
  · simp [implementors_unregister, apart]

theorem agrees_call (agreed : Agrees id r r') (c : RegistryCall) : Agrees id (r.call c) (r'.call c) := by
  refine agrees_of (Option.ext fun q => ?_) fun interface => ?_
  · rw [get_call, get_call, agreed.definition]
  · rw [mem_implementors_call, mem_implementors_call, agreed.roles]

theorem agrees_callAll (calls : List RegistryCall) (agreed : Agrees id r r') :
    Agrees id (r.callAll calls) (r'.callAll calls) := by
  induction calls generalizing r r' with
  | nil => exact agreed
  | cons c rest ih => exact ih (agrees_call agreed c)

-- An id is given a role only while it is registered.
def Orderly (r : Registry) : List RegistryCall → Prop
  | [] => True
  | c :: rest => (∀ interface id, c = .implementor interface id → r.contains id = true) ∧ Orderly (r.call c) rest

-- What has a role is registered.
def Housed (r : Registry) : Prop := ∀ interface, ∀ id ∈ r.implementors interface, r.contains id = true

theorem housed_call (housed : r.Housed)
    (allowed : ∀ interface id, c = .implementor interface id → r.contains id = true) : (r.call c).Housed := by
  intro interface id listed
  rcases (mem_implementors_call ..).mp listed with rfl | ⟨before, kept⟩
  · exact (contains_call ..).mpr (.inr ⟨allowed interface id rfl, not_false⟩)
  · exact (contains_call ..).mpr (.inr ⟨housed interface id before, kept⟩)

theorem housed_callAll (housed : r.Housed) (orderly : r.Orderly calls) : (r.callAll calls).Housed := by
  induction calls generalizing r with
  | nil => exact housed
  | cons c rest ih => exact ih (housed_call housed orderly.1) orderly.2

-- Whatever the calls: what the registry tells, what one more removal anywhere among them leaves to the other ids, and
-- that nothing has a role unregistered where roles are given to registered ids only.
theorem histories_exact (calls : List RegistryCall) :
    (after calls).Recounts calls ∧
    (∀ before later id other, calls = before ++ later → other ≠ id →
      Agrees other (after calls) (after (before ++ .unregister id :: later))) ∧
    (empty.Orderly calls → (after calls).Housed) := by
  refine ⟨recounts_after calls, ?_, housed_callAll fun _ _ listed => nomatch listed⟩
  rintro before later id other rfl apart
  rw [after, after, callAll_append, callAll_append]
  exact agrees_callAll later (agrees_unregister _ apart)

-- A definition that comes anew keeps its role; one that is gone loses its own.
def nodeHistory : List RegistryCall :=
  [.register (.new "User" "users" .postgres), .implementor "Node" "User", .register (.new "User" "people" .postgres),
    .register (.new "Post" "posts" .postgres), .implementor "Node" "Post", .unregister "Post"]

theorem nodeHistory_housed : empty.Orderly nodeHistory ∧ (after nodeHistory).implementors "Node" = ["User"] ∧
    (after nodeHistory).Housed := by
  have orderly : empty.Orderly nodeHistory := by
    refine ⟨?_, ?_, ?_, ?_, ?_, ?_, trivial⟩ <;> rintro _ _ ⟨⟩ <;> rfl
  exact ⟨orderly, by decide, (histories_exact nodeHistory).2.2 orderly⟩

end Registry
end FilterQuery
