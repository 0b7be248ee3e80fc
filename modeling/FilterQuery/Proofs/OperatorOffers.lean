import FilterQuery.Adapter.Set

namespace FilterQuery

-- What one step brings about and every step keeps is there after the steps.
theorem foldl_brings {step : β → α → β} {good : β → Prop} {xs : List α} (brings : ∀ b, good (step b x))
    (keeps : ∀ b y, good b → good (step b y)) (member : x ∈ xs) (b : β) : good (xs.foldl step b) := by
  induction xs generalizing b with
  | nil => cases member
  | cons y rest ih =>
    rcases List.mem_cons.mp member with rfl | later
    · exact List.foldlRecOn rest step (brings b) fun b good y _ => keeps b y good
    · exact ih later (step b y)

-- No type is left without a place.
theorem SemanticType.mem_catalogue (ty : SemanticType) : ty ∈ catalogue := by
  cases ty with
  | array element => cases element <;> decide
  | _ => decide

theorem Adapter.mem_operatorsFor {a : Adapter} : op ∈ a.operatorsFor ty ↔ a.implements ty op = true := by
  rw [operatorsFor, List.mem_filter]
  constructor
  · exact And.right
  · intro offered
    refine ⟨?_, offered⟩
    rw [← List.contains_iff_mem]
    cases a with
    | postgres => exact offered
    | cockroachDb | mySql => exact (Bool.and_eq_true_iff.mp offered).1
    | sqlite | msSql | search => exact (Bool.and_eq_true_iff.mp offered).1

namespace OperatorRegistry

theorem mem_put_self (r : Registration) (entries : List Registration) : r ∈ put r entries := by
  induction entries with
  | nil => simp [put]
  | cons e rest ih =>
    rw [put]
    split
    · exact List.mem_cons_self ..
    · exact List.mem_cons_of_mem _ ih

theorem mem_of_mem_put {r : Registration} {entries : List Registration} (member : e ∈ put r entries) :
    e = r ∨ e ∈ entries := by
  induction entries with
  | nil => exact .inl (List.mem_singleton.mp member)
  | cons first rest ih =>
    rw [put] at member
    split at member
    · rcases List.mem_cons.mp member with own | later
      · exact .inl own
      · exact .inr (List.mem_cons_of_mem _ later)
    · rcases List.mem_cons.mp member with own | later
      · exact .inr (own ▸ List.mem_cons_self ..)
      · exact (ih later).imp_right (List.mem_cons_of_mem _)

-- Registering an operator again changes what it requires, so the place keeps its operators.
theorem operators_put {r : Registration} {entries : List Registration} (member : op ∈ entries.map (·.operator)) :
    op ∈ (put r entries).map (·.operator) := by
  induction entries with
  | nil => cases member
  | cons first rest ih =>
    rw [put]
    split
    · rename_i same
      rwa [List.map_cons, ← same]
    · rw [List.map_cons, List.mem_cons] at member ⊢
      exact member.imp_right ih

theorem entries_register (g : OperatorRegistry) (a b : Adapter) (ty t : SemanticType) (op : Operator)
    (requires : Option Feature) : (g.register a ty op requires).entries b t =
      if a = b ∧ ty = t then put ⟨op, requires⟩ (g.entries b t) else g.entries b t := by
  obtain ⟨slots⟩ := g
  simp only [register, entries]
  induction slots with
  | nil =>
    by_cases here : a = b ∧ ty = t
    · simp [putSlot, here, put]
    · simp [putSlot, here]
  | cons s rest ih =>
    rw [putSlot]
    by_cases own : s.adapter = a ∧ s.type = ty
    · obtain ⟨rfl, rfl⟩ := own
      by_cases here : s.adapter = b ∧ s.type = t
      · simp [here]
      · simp [here]
    · rw [if_neg own]
      by_cases here : s.adapter = b ∧ s.type = t
      · have elsewhere : ¬(a = b ∧ ty = t) := fun same => own ⟨here.1.trans same.1.symm, here.2.trans same.2.symm⟩
        simp [here, elsewhere]
      · simpa [List.find?_cons, here] using ih

-- What stands in the registry is offered by the adapter it stands for, under the adapter's requirement.
def Faithful (g : OperatorRegistry) : Prop :=
  ∀ a ty, ∀ e ∈ g.entries a ty, a.implements ty e.operator = true ∧ e.requires = a.requiredFeature ty e.operator

theorem register_faithful {g : OperatorRegistry} (faithful : g.Faithful) (offered : a.implements ty op = true) :
    (g.register a ty op (a.requiredFeature ty op)).Faithful := by
  intro b t e member
  rw [entries_register] at member
  split at member
  · rename_i here
    obtain ⟨rfl, rfl⟩ := here
    rcases mem_of_mem_put member with rfl | before
    · exact ⟨offered, rfl⟩
    · exact faithful a ty e before
  · exact faithful b t e member

def Offers (a : Adapter) (ty : SemanticType) (op : Operator) (g : OperatorRegistry) : Prop := op ∈ g.operatorsFor ty a

theorem register_brings (g : OperatorRegistry) (a : Adapter) (ty : SemanticType) (op : Operator)
    (requires : Option Feature) : Offers a ty op (g.register a ty op requires) := by
  rw [Offers, operatorsFor, entries_register, if_pos ⟨rfl, rfl⟩]
  exact List.mem_map_of_mem (mem_put_self _ _)

theorem register_keeps {g : OperatorRegistry} (b : Adapter) (t : SemanticType) (other : Operator)
    (requires : Option Feature) (offers : Offers a ty op g) : Offers a ty op (g.register b t other requires) := by
  rw [Offers, operatorsFor, entries_register]
  split
  · exact operators_put offers
  · exact offers

end OperatorRegistry

namespace AdapterSet
open OperatorRegistry

theorem registerType_keeps {g : OperatorRegistry} (b : Adapter) (t : SemanticType) (offers : Offers a ty op g) :
    Offers a ty op (registerType g b t) :=
  List.foldlRecOn _ _ offers fun _ offers other _ => register_keeps b t other _ offers

theorem registerAdapter_keeps {g : OperatorRegistry} (b : Adapter) (offers : Offers a ty op g) :
    Offers a ty op (registerAdapter g b) :=
  List.foldlRecOn _ _ offers fun _ offers t _ => registerType_keeps b t offers

theorem registerType_brings (g : OperatorRegistry) (offered : a.implements ty op = true) :
    Offers a ty op (registerType g a ty) := by
  refine foldl_brings ?_ ?_ (Adapter.mem_operatorsFor.mpr offered) g
  · exact fun g => register_brings g a ty op _
  · exact fun _ other offers => register_keeps a ty other _ offers

theorem registerAdapter_brings (g : OperatorRegistry) (offered : a.implements ty op = true) :
    Offers a ty op (registerAdapter g a) :=
  foldl_brings (fun g => registerType_brings g offered) (fun _ t offers => registerType_keeps a t offers)
    ty.mem_catalogue g

theorem registry_faithful (s : AdapterSet) : s.operatorRegistry.Faithful := by
  refine List.foldlRecOn _ _ (by intro a ty e member; cases member) ?_
  intro g faithful a _
  refine List.foldlRecOn _ _ faithful ?_
  intro g faithful ty _
  refine List.foldlRecOn _ _ faithful ?_
  intro g faithful op member
  exact register_faithful faithful (Adapter.mem_operatorsFor.mp member)

variable {s : AdapterSet}

theorem mem_of_forQueryable (served : s.forQueryable q = .ok a) : a ∈ s.adapters := by
  unfold forQueryable at served
  split at served
  · rename_i found
    cases served
    exact List.mem_of_find?_eq_some found
  · cases served

theorem operatorsFor_exact (registered : a ∈ s.adapters) :
    op ∈ s.operatorRegistry.operatorsFor ty a ↔ a.implements ty op = true := by
  constructor
  · intro member
    obtain ⟨e, among, rfl⟩ := List.mem_map.mp member
    exact (s.registry_faithful a ty e among).1
  · intro offered
    have offers : Offers a ty op s.operatorRegistry :=
      foldl_brings (fun g => registerAdapter_brings g offered) (fun _ b offers => registerAdapter_keeps b offers)
        registered _
    exact offers

theorem availableFor_exact {cap : Capability} (registered : cap.adapter ∈ s.adapters) :
    op ∈ s.operatorRegistry.availableFor ty cap ↔ cap.adapter.implements ty op = true ∧
      ∀ feature, cap.adapter.requiredFeature ty op = some feature → cap.supports feature = true := by
  have available_exact : ∀ e ∈ s.operatorRegistry.entries cap.adapter ty, (available cap e = true ↔
      ∀ feature, cap.adapter.requiredFeature ty e.operator = some feature → cap.supports feature = true) := by
    intro e among
    rw [available, (s.registry_faithful _ _ e among).2]
    split <;> simp [*]
  constructor
  · intro member
    obtain ⟨e, kept, rfl⟩ := List.mem_map.mp member
    obtain ⟨among, supported⟩ := List.mem_filter.mp kept
    exact ⟨(s.registry_faithful _ _ e among).1, (available_exact e among).mp supported⟩
  · rintro ⟨offered, supported⟩
    obtain ⟨e, among, rfl⟩ := List.mem_map.mp ((operatorsFor_exact registered).mpr offered)
    exact List.mem_map_of_mem (List.mem_filter.mpr ⟨among, (available_exact e among).mpr supported⟩)

end AdapterSet
end FilterQuery
