import Mathlib.Data.List.Induction
import Mathlib.Data.List.Nodup
import FilterQuery.Proofs.OperatorOffers

namespace FilterQuery

section FirstOccurrences

variable [DecidableEq α] {xs : List α}

theorem eraseDups_snoc (xs : List α) (x : α) :
    (xs ++ [x]).eraseDups = if x ∈ xs then xs.eraseDups else xs.eraseDups ++ [x] := by
  rw [List.eraseDups_append, List.removeAll, List.filter_singleton]
  by_cases known : x ∈ xs
  · simp [known]
  · simp [known, List.eraseDups_cons]

-- What came first stands first, so nothing stands twice.
theorem eraseDups_ordered (xs : List α) :
    xs.eraseDups.Pairwise fun first next => xs.idxOf first < xs.idxOf next := by
  induction xs using List.reverseRecOn with
  | nil => exact .nil
  | append_singleton xs x ih =>
    have kept : xs.eraseDups.Pairwise fun first next => (xs ++ [x]).idxOf first < (xs ++ [x]).idxOf next := by
      refine ih.imp_of_mem fun {first next} here there before => ?_
      rwa [List.idxOf_append_of_mem (List.mem_eraseDups.mp here), List.idxOf_append_of_mem (List.mem_eraseDups.mp there)]
    rw [eraseDups_snoc]
    split
    · exact kept
    · rename_i fresh
      refine List.pairwise_append.mpr ⟨kept, List.pairwise_singleton _ x, ?_⟩
      intro first here last same
      have before := List.mem_eraseDups.mp here
      rw [List.mem_singleton.mp same, List.idxOf_append_of_mem before, List.idxOf_append_of_notMem fresh]
      exact Nat.lt_of_lt_of_le (List.idxOf_lt_length_of_mem before) (Nat.le_add_right _ _)

theorem nodup_eraseDups (xs : List α) : xs.eraseDups.Nodup :=
  (eraseDups_ordered xs).imp fun before same => Nat.ne_of_lt before (congrArg xs.idxOf same)

theorem eraseDups_of_nodup (distinct : xs.Nodup) : xs.eraseDups = xs := by
  induction xs using List.reverseRecOn with
  | nil => rfl
  | append_singleton xs x ih =>
    obtain ⟨before, -, apart⟩ := List.nodup_append.mp distinct
    have fresh : x ∉ xs := fun known => apart x known x (List.mem_singleton_self x) rfl
    rw [eraseDups_snoc, if_neg fresh, ih before]

end FirstOccurrences

structure RegisterCall where
  adapter : Adapter
  type : SemanticType
  operator : Operator
  requires : Option Feature

namespace RegisterCall

def isAt (a : Adapter) (ty : SemanticType) (c : RegisterCall) : Bool := c.adapter = a ∧ c.type = ty

def isFor (a : Adapter) (ty : SemanticType) (op : Operator) (c : RegisterCall) : Bool := c.isAt a ty && c.operator == op

-- The operators registered at a place, as often as they were.
def operatorsAt (a : Adapter) (ty : SemanticType) (calls : List RegisterCall) : List Operator :=
  (calls.filter (isAt a ty)).map (·.operator)

end RegisterCall

namespace OperatorRegistry
open RegisterCall

def record (g : OperatorRegistry) (c : RegisterCall) : OperatorRegistry :=
  g.register c.adapter c.type c.operator c.requires

def ofCalls (calls : List RegisterCall) : OperatorRegistry := calls.foldl record .empty

theorem ofCalls_snoc (calls : List RegisterCall) (c : RegisterCall) :
    ofCalls (calls ++ [c]) = (ofCalls calls).record c := by
  rw [ofCalls, List.foldl_append]
  rfl

variable {a : Adapter} {ty : SemanticType} {op : Operator} {calls : List RegisterCall}

theorem operators_of_put (r : Registration) (entries : List Registration) :
    (put r entries).map (·.operator) =
      if r.operator ∈ entries.map (·.operator) then entries.map (·.operator)
      else entries.map (·.operator) ++ [r.operator] := by
  induction entries with
  | nil => rfl
  | cons e rest ih =>
    by_cases own : e.operator = r.operator
    · simp [put, own]
    · rw [put, if_neg own, List.map_cons, List.map_cons, ih]
      simp only [List.mem_cons, or_iff_right (Ne.symm own), List.cons_append]
      split <;> rfl

theorem find_put (r : Registration) (entries : List Registration) (op : Operator) :
    (put r entries).find? (·.operator == op) =
      if r.operator = op then some r else entries.find? (·.operator == op) := by
  induction entries with
  | nil =>
    rw [put, List.find?_singleton]
    simp
  | cons e rest ih =>
    by_cases own : e.operator = r.operator
    · rw [put, if_pos own, List.find?_cons, List.find?_cons, own]
      by_cases asked : r.operator = op
      · simp [asked]
      · rw [if_neg asked, beq_false_of_ne asked]
    · rw [put, if_neg own, List.find?_cons, List.find?_cons, ih]
      by_cases asked : r.operator = op
      · have other : (e.operator == op) = false := by simpa [asked] using own
        simp [asked, other]
      · simp [asked]

theorem operatorsFor_record (g : OperatorRegistry) (c : RegisterCall) (a : Adapter) (ty : SemanticType) :
    (g.record c).operatorsFor ty a =
      if c.isAt a ty = true ∧ c.operator ∉ g.operatorsFor ty a then g.operatorsFor ty a ++ [c.operator]
      else g.operatorsFor ty a := by
  unfold operatorsFor record
  rw [entries_register]
  by_cases here : c.adapter = a ∧ c.type = ty
  · have placed : c.isAt a ty = true := by simpa [isAt] using here
    rw [if_pos here, operators_of_put]
    by_cases known : c.operator ∈ (g.entries a ty).map (·.operator)
    · rw [if_pos known, if_neg fun both => both.2 known]
    · rw [if_neg known, if_pos ⟨placed, known⟩]
  · have elsewhere : ¬c.isAt a ty = true := by simpa [isAt] using here
    rw [if_neg here, if_neg fun both => elsewhere both.1]

theorem requirement_record (g : OperatorRegistry) (c : RegisterCall) (a : Adapter) (ty : SemanticType) (op : Operator) :
    (g.record c).requirement a ty op =
      if c.isFor a ty op then some c.requires else g.requirement a ty op := by
  rw [requirement, record, entries_register, isFor, isAt]
  by_cases here : c.adapter = a ∧ c.type = ty
  · rw [if_pos here, find_put]
    by_cases asked : c.operator = op <;> simp [here, asked, requirement]
  · simp [here, requirement]

theorem operatorsFor_ofCalls (calls : List RegisterCall) (a : Adapter) (ty : SemanticType) :
    (ofCalls calls).operatorsFor ty a = (operatorsAt a ty calls).eraseDups := by
  induction calls using List.reverseRecOn with
  | nil => rfl
  | append_singleton calls c ih =>
    simp only [ofCalls_snoc, operatorsFor_record, ih, List.mem_eraseDups]
    by_cases here : c.isAt a ty = true
    · have longer : operatorsAt a ty (calls ++ [c]) = operatorsAt a ty calls ++ [c.operator] := by
        simp [operatorsAt, here]
      rw [longer, eraseDups_snoc]
      by_cases known : c.operator ∈ operatorsAt a ty calls <;> simp [here, known]
    · have same : operatorsAt a ty (calls ++ [c]) = operatorsAt a ty calls := by
        simp [operatorsAt, here]
      rw [same, if_neg (fun both => here both.1)]

theorem requirement_ofCalls (calls : List RegisterCall) (a : Adapter) (ty : SemanticType) (op : Operator) :
    (ofCalls calls).requirement a ty op = (calls.reverse.find? (isFor a ty op)).map (·.requires) := by
  induction calls using List.reverseRecOn with
  | nil => rfl
  | append_singleton calls c ih =>
    rw [ofCalls_snoc, requirement_record, ih, List.reverse_append, List.reverse_singleton, List.singleton_append,
      List.find?_cons]
    by_cases asked : c.isFor a ty op <;> simp [asked]

theorem mem_operatorsAt : op ∈ operatorsAt a ty calls ↔ ∃ c ∈ calls, c.isFor a ty op = true := by
  simp [operatorsAt, isFor, and_assoc]

-- Entries that differ in their operators are each the first one with theirs.
theorem find_of_mem {entries : List Registration} {e : Registration} (distinct : (entries.map (·.operator)).Nodup)
    (among : e ∈ entries) : entries.find? (·.operator == e.operator) = some e := by
  induction entries with
  | nil => cases among
  | cons first rest ih =>
    rw [List.map_cons, List.nodup_cons] at distinct
    rcases List.mem_cons.mp among with rfl | later
    · simp
    · have other : (first.operator == e.operator) = false :=
        beq_false_of_ne fun same => distinct.1 (same ▸ List.mem_map_of_mem later)
      rw [List.find?_cons, other]
      exact ih distinct.2 later

-- Nothing is required, or the backend has what is.
def Met (c : Capability) : Option (Option Feature) → Bool
  | some (some feature) => c.supports feature
  | some none => true
  | none => false

theorem availableFor_of_nodup {g : OperatorRegistry} {c : Capability} (distinct : (g.operatorsFor ty c.adapter).Nodup) :
    g.availableFor ty c =
      (g.operatorsFor ty c.adapter).filter fun op => Met c (g.requirement c.adapter ty op) := by
  unfold availableFor operatorsFor
  rw [List.filter_map]
  refine congrArg _ (List.filter_congr fun e among => ?_)
  rw [Function.comp_apply, requirement, find_of_mem distinct among, Option.map_some, available]
  cases e.requires <;> rfl

theorem mem_places {g : OperatorRegistry} : (a, ty) ∈ g.places op ↔ g.isRegistered a ty op = true := by
  have known : a ∈ Adapter.all := by cases a <;> decide
  simp [places, known, ty.mem_catalogue]

theorem spec_eq_some {g : OperatorRegistry} {s : OperatorSpec} (found : g.spec op = some s) :
    s.operator = op ∧ s.types = SemanticType.catalogue.filter (fun t => (g.places op).any (·.2 == t)) ∧
    s.adapters = Adapter.all.filter (fun b => (g.places op).any (·.1 == b)) := by
  unfold spec at found
  split at found
  · cases found
  · rename_i listed
    cases found
    rw [listed]
    exact ⟨rfl, rfl, rfl⟩

theorem spec_isSome {g : OperatorRegistry} : (g.spec op).isSome = true ↔ ∃ a ty, g.isRegistered a ty op = true := by
  simp only [← mem_places]
  unfold spec
  split
  · rename_i unlisted
    simp [unlisted]
  · rename_i a ty rest listed
    rw [listed]
    exact iff_of_true rfl ⟨a, ty, List.mem_cons_self⟩

-- What the operator was registered for, each type and each adapter once.
structure Describes (s : OperatorSpec) (op : Operator) (calls : List RegisterCall) : Prop where
  operator : s.operator = op
  types : s.types.Nodup ∧ ∀ ty, ty ∈ s.types ↔ ∃ c ∈ calls, c.operator = op ∧ c.type = ty
  adapters : s.adapters.Nodup ∧ ∀ a, a ∈ s.adapters ↔ ∃ c ∈ calls, c.operator = op ∧ c.adapter = a

-- All that a registry tells, told by the calls alone.
structure Reflects (g : OperatorRegistry) (calls : List RegisterCall) : Prop where
  listed : ∀ ty a op, op ∈ g.operatorsFor ty a ↔ ∃ c ∈ calls, c.isFor a ty op = true
  -- By their first registration, so no operator is there twice.
  ordered : ∀ ty a, (g.operatorsFor ty a).Pairwise fun first next =>
    (operatorsAt a ty calls).idxOf first < (operatorsAt a ty calls).idxOf next
  required : ∀ a ty op, g.requirement a ty op = (calls.reverse.find? (isFor a ty op)).map (·.requires)
  unregistered : ∀ a ty op, g.requirement a ty op = none ↔ ∀ c ∈ calls, c.isFor a ty op = false
  available : ∀ ty c, g.availableFor ty c =
    (g.operatorsFor ty c.adapter).filter fun op => Met c (g.requirement c.adapter ty op)
  described : ∀ op, (g.spec op).isSome = true ↔ ∃ c ∈ calls, c.operator = op
  spec : ∀ op s, g.spec op = some s → Describes s op calls

theorem isRegistered_ofCalls : (ofCalls calls).isRegistered a ty op = true ↔
    ∃ c ∈ calls, c.adapter = a ∧ c.type = ty ∧ c.operator = op := by
  rw [isRegistered, requirement_ofCalls, Option.isSome_map, List.find?_isSome]
  simp [isFor, isAt, and_assoc]

theorem describes_ofCalls {s : OperatorSpec} (found : (ofCalls calls).spec op = some s) : Describes s op calls := by
  obtain ⟨operator, types, adapters⟩ := spec_eq_some found
  have placed : ∀ a ty, (a, ty) ∈ (ofCalls calls).places op ↔
      ∃ c ∈ calls, c.adapter = a ∧ c.type = ty ∧ c.operator = op := fun a ty => mem_places.trans isRegistered_ofCalls
  refine ⟨operator, ⟨?_, fun ty => ?_⟩, ?_, fun a => ?_⟩
  · exact types ▸ List.Nodup.filter _ (by decide)
  · simp only [types, List.mem_filter, ty.mem_catalogue, true_and, List.any_eq_true, Prod.exists, placed, beq_iff_eq]
    constructor
    · rintro ⟨a, _, ⟨c, among, -, rfl, own⟩, rfl⟩
      exact ⟨c, among, own, rfl⟩
    · rintro ⟨c, among, own, rfl⟩
      exact ⟨c.adapter, c.type, ⟨c, among, rfl, rfl, own⟩, rfl⟩
  · exact adapters ▸ List.Nodup.filter _ (by decide)
  · have known : a ∈ Adapter.all := by cases a <;> decide
    simp only [adapters, List.mem_filter, known, true_and, List.any_eq_true, Prod.exists, placed, beq_iff_eq]
    constructor
    · rintro ⟨_, ty, ⟨c, among, rfl, -, own⟩, rfl⟩
      exact ⟨c, among, own, rfl⟩
    · rintro ⟨c, among, own, rfl⟩
      exact ⟨c.adapter, c.type, ⟨c, among, rfl, rfl, own⟩, rfl⟩

theorem reflects_ofCalls (calls : List RegisterCall) : (ofCalls calls).Reflects calls where
  listed ty a op := by rw [operatorsFor_ofCalls, List.mem_eraseDups, mem_operatorsAt]
  ordered ty a := by
    rw [operatorsFor_ofCalls]
    exact eraseDups_ordered _
  required := requirement_ofCalls calls
  unregistered a ty op := by
    rw [requirement_ofCalls, Option.map_eq_none_iff, List.find?_eq_none]
    simp
  available ty c := availableFor_of_nodup (operatorsFor_ofCalls calls c.adapter ty ▸ nodup_eraseDups _)
  described op := by
    simp only [spec_isSome, isRegistered_ofCalls]
    constructor
    · rintro ⟨_, _, c, among, -, -, own⟩
      exact ⟨c, among, own⟩
    · rintro ⟨c, among, own⟩
      exact ⟨c.adapter, c.type, c, among, rfl, rfl, own⟩
  spec op s := describes_ofCalls

end OperatorRegistry

-- An adapter as the registry sees it: its id and, for each type, the operators that it implements, none of them twice.
structure Listing where
  id : Adapter
  operatorsFor : SemanticType → List Operator
  requires : SemanticType → Operator → Option Feature
  distinct : ∀ ty, (operatorsFor ty).Nodup

namespace Listing
open RegisterCall OperatorRegistry

def callsFor (ty : SemanticType) (p : Listing) : List RegisterCall :=
  (p.operatorsFor ty).map fun op => ⟨p.id, ty, op, p.requires ty op⟩

def calls (p : Listing) : List RegisterCall := SemanticType.catalogue.flatMap fun ty => p.callsFor ty

-- An adapter of the same id gives way.
def register (set : List Listing) (p : Listing) : List Listing := set.filter (·.id != p.id) ++ [p]

def ofList (given : List Listing) : List Listing := given.foldl register []

def operatorRegistry (set : List Listing) : OperatorRegistry := ofCalls (set.flatMap calls)

variable {p : Listing} {a : Adapter} {ty : SemanticType} {op : Operator}

theorem ofList_snoc (given : List Listing) (p : Listing) : ofList (given ++ [p]) = register (ofList given) p := by
  rw [ofList, List.foldl_append]
  rfl

-- Of each id there is one adapter, the one that came last.
theorem filter_ofList (given : List Listing) (a : Adapter) :
    (ofList given).filter (·.id == a) = (given.reverse.find? (·.id == a)).toList := by
  induction given using List.reverseRecOn with
  | nil => rfl
  | append_singleton given p ih =>
    rw [ofList_snoc, register, List.filter_append, List.filter_filter, List.reverse_append, List.reverse_singleton,
      List.singleton_append, List.find?_cons]
    by_cases own : p.id = a
    · have gone : (ofList given).filter (fun q => q.id == a && q.id != p.id) = [] := by
        refine List.filter_eq_nil_iff.mpr fun q _ => ?_
        simp [own]
      rw [gone]
      simp [own]
    · have kept : (ofList given).filter (fun q => q.id == a && q.id != p.id) = (ofList given).filter (·.id == a) := by
        refine List.filter_congr fun q _ => ?_
        by_cases asked : q.id = a <;> simp [asked, Ne.symm own]
      rw [kept, ih, beq_false_of_ne own, List.filter_singleton, beq_false_of_ne own]
      exact List.append_nil _

-- Of a list without repetition one member counts.
theorem flatMap_single [DecidableEq α] {xs : List α} {x : α} (distinct : xs.Nodup) (among : x ∈ xs) (f : α → List β) :
    (xs.flatMap fun y => if y = x then f y else []) = f x := by
  induction xs with
  | nil => cases among
  | cons y rest ih =>
    obtain ⟨apart, distinct⟩ := List.nodup_cons.mp distinct
    rw [List.flatMap_cons]
    rcases List.mem_cons.mp among with rfl | later
    · have others : (rest.flatMap fun y => if y = x then f y else []) = [] := by
        refine List.flatMap_eq_nil_iff.mpr fun z member => if_neg ?_
        rintro rfl
        exact apart member
      rw [if_pos rfl, others, List.append_nil]
    · have other : y ≠ x := fun same => apart (same ▸ later)
      rw [if_neg other, List.nil_append, ih distinct later]

theorem filter_calls (p : Listing) (a : Adapter) (ty : SemanticType) :
    p.calls.filter (isAt a ty) = if p.id = a then p.callsFor ty else [] := by
  have each : ∀ t, (p.callsFor t).filter (isAt a ty) = if t = ty then if p.id = a then p.callsFor t else [] else [] := by
    intro t
    by_cases here : t = ty <;> by_cases own : p.id = a <;> simp [callsFor, isAt, here, own]
  rw [calls, List.filter_flatMap]
  exact (congrArg (SemanticType.catalogue.flatMap ·) (funext each)).trans
    (flatMap_single (by decide) ty.mem_catalogue fun t => if p.id = a then p.callsFor t else [])

theorem filter_registrations (set : List Listing) (a : Adapter) (ty : SemanticType) :
    (set.flatMap calls).filter (isAt a ty) = (set.filter (·.id == a)).flatMap (callsFor ty) := by
  induction set with
  | nil => rfl
  | cons p rest ih =>
    rw [List.flatMap_cons, List.filter_append, ih, filter_calls]
    by_cases own : p.id = a <;> simp [own]

theorem registrations_ofList (given : List Listing) (a : Adapter) (ty : SemanticType) :
    ((ofList given).flatMap calls).filter (isAt a ty) =
      (given.reverse.find? (·.id == a)).toList.flatMap (callsFor ty) := by
  rw [filter_registrations, filter_ofList]

theorem mem_registrations {given : List Listing} {c : RegisterCall} :
    c ∈ (ofList given).flatMap calls ∧ c.isAt a ty = true ↔
      ∃ p, given.reverse.find? (·.id == a) = some p ∧ ∃ op ∈ p.operatorsFor ty, c = ⟨p.id, ty, op, p.requires ty op⟩ := by
  rw [← List.mem_filter, registrations_ofList]
  simp [callsFor, eq_comm]

-- What a registry has for an adapter's id: just what that adapter lists, or nothing.
structure Mirrored (g : OperatorRegistry) (a : Adapter) (last : Option Listing) : Prop where
  operators : ∀ ty, g.operatorsFor ty a = last.elim [] (·.operatorsFor ty)
  required : ∀ ty op, g.requirement a ty op =
    last.bind fun p => if op ∈ p.operatorsFor ty then some (p.requires ty op) else none

theorem operators_ofList (given : List Listing) (a : Adapter) (ty : SemanticType) :
    (operatorRegistry (ofList given)).operatorsFor ty a =
      (given.reverse.find? (·.id == a)).elim [] (·.operatorsFor ty) := by
  rw [operatorRegistry, operatorsFor_ofCalls, operatorsAt, registrations_ofList]
  cases given.reverse.find? (·.id == a) with
  | none => rfl
  | some p =>
    have operators : (p.callsFor ty).map (·.operator) = p.operatorsFor ty := by
      rw [callsFor, List.map_map]
      exact List.map_id _
    simp only [Option.toList_some, List.flatMap_cons, List.flatMap_nil, List.append_nil, operators]
    exact eraseDups_of_nodup (p.distinct ty)

theorem mirrored_ofList (given : List Listing) (a : Adapter) :
    Mirrored (operatorRegistry (ofList given)) a (given.reverse.find? (·.id == a)) := by
  have reflects := reflects_ofCalls ((ofList given).flatMap calls)
  refine ⟨operators_ofList given a, fun ty op => ?_⟩
  cases found : (operatorRegistry (ofList given)).requirement a ty op with
  | none =>
    have unlisted : op ∉ (operatorRegistry (ofList given)).operatorsFor ty a := by
      intro listed
      obtain ⟨c, among, asked⟩ := (reflects.listed ty a op).mp listed
      cases asked.symm.trans ((reflects.unregistered a ty op).mp found c among)
    rw [operators_ofList] at unlisted
    cases last : given.reverse.find? (·.id == a) with
    | none => rfl
    | some p =>
      rw [last] at unlisted
      exact (if_neg unlisted).symm
  | some requires =>
    obtain ⟨c, among, rfl⟩ := Option.map_eq_some_iff.mp ((reflects.required a ty op).symm.trans found)
    have found : c.isFor a ty op = true := List.find?_some among
    have asked := Bool.and_eq_true_iff.mp found
    have called := List.mem_reverse.mp (List.mem_of_find?_eq_some among)
    obtain ⟨p, last, op', listed, rfl⟩ := mem_registrations.mp ⟨called, asked.1⟩
    obtain rfl : op' = op := beq_iff_eq.mp asked.2
    rw [last]
    exact (if_pos listed).symm

end Listing

def Adapter.listing (a : Adapter) : Listing where
  id := a
  operatorsFor := a.operatorsFor
  requires := a.requiredFeature
  distinct ty := by
    refine List.Nodup.filter _ ?_
    cases ty with
    | array element => cases element <;> decide
    | _ => decide

namespace AdapterSet
open OperatorRegistry

theorem operatorRegistry_eq (s : AdapterSet) :
    s.operatorRegistry = Listing.operatorRegistry (s.adapters.map Adapter.listing) := by
  have offers : ∀ g a ty, registerType g a ty = (a.listing.callsFor ty).foldl record g := by
    intro g a ty
    rw [Listing.callsFor, List.foldl_map]
    rfl
  have each : ∀ g a, registerAdapter g a = a.listing.calls.foldl record g := by
    intro g a
    rw [Listing.calls, List.foldl_flatMap]
    simp only [registerAdapter, offers]
  rw [operatorRegistry, Listing.operatorRegistry, ofCalls, List.foldl_flatMap, List.foldl_map]
  simp only [funext fun g => funext (each g)]

theorem ofList_adapters (given : List Adapter) :
    (ofList given).adapters.map Adapter.listing = Listing.ofList (given.map Adapter.listing) := by
  induction given using List.reverseRecOn with
  | nil => rfl
  | append_singleton given a ih =>
    have snoc : (ofList (given ++ [a])).adapters = (ofList given).adapters.filter (· != a) ++ [a] := by
      rw [ofList, List.foldl_append]
      rfl
    rw [snoc, List.map_append, List.map_append, List.map_singleton, Listing.ofList_snoc, Listing.register, ← ih,
      List.filter_map]
    rfl

theorem mirrored_ofList (given : List Adapter) (a : Adapter) :
    Listing.Mirrored (ofList given).operatorRegistry a (if a ∈ given then some a.listing else none) := by
  have own : (fun p : Listing => p.id == a) ∘ Adapter.listing = (· == a) := rfl
  have last : (given.map Adapter.listing).reverse.find? (·.id == a) = if a ∈ given then some a.listing else none := by
    rw [← List.map_reverse, List.find?_map, own]
    cases found : given.reverse.find? (· == a) with
    | none =>
      have absent : a ∉ given := fun among =>
        List.find?_eq_none.mp found a (List.mem_reverse.mpr among) (beq_self_eq_true a)
      rw [if_neg absent]
      rfl
    | some b =>
      obtain rfl : b = a := by simpa using List.find?_some (p := (· == a)) found
      rw [if_pos (List.mem_reverse.mp (List.mem_of_find?_eq_some found))]
      rfl
  rw [operatorRegistry_eq, ofList_adapters, ← last]
  exact Listing.mirrored_ofList _ a

end AdapterSet

-- For any registrations, for any adapters, and for the adapters that there are.
theorem registrations_exact :
    (∀ calls : List RegisterCall, (OperatorRegistry.ofCalls calls).Reflects calls) ∧
    (∀ (given : List Listing) (a : Adapter),
      Listing.Mirrored (Listing.operatorRegistry (Listing.ofList given)) a (given.reverse.find? (·.id == a))) ∧
    ∀ (given : List Adapter) (a : Adapter),
      Listing.Mirrored (AdapterSet.ofList given).operatorRegistry a (if a ∈ given then some a.listing else none) :=
  ⟨OperatorRegistry.reflects_ofCalls, Listing.mirrored_ofList, AdapterSet.mirrored_ofList⟩

end FilterQuery
