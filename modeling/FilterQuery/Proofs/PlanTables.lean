import FilterQuery.Complexity.Plan
import FilterQuery.Proofs.FloatOrder
import Mathlib.Data.List.Chain
import Mathlib.Data.List.Perm.Basic
import Mathlib.Data.List.Nodup

namespace FilterQuery

-- An object has no two members of one name.
inductive Json.Keyed : Json → Prop
  | object {members : List (String × Json)} (distinct : (members.map Prod.fst).Nodup)
      (each : ∀ member ∈ members, Keyed member.2) : Keyed (.obj members)
  | array {items : List Json} (each : ∀ item ∈ items, Keyed item) : Keyed (.arr items)
  | leaf {j : Json} (noMembers : j.members? = none) (noItems : j.items? = none) : Keyed j

theorem Json.Keyed.get? {j value : Json} {key : String} (keyed : j.Keyed) (found : j.get? key = some value) :
    value.Keyed := by
  have listed : ∀ members : List (String × Json), Json.lookup key members = some value → (key, value) ∈ members := by
    intro members
    induction members with
    | nil => exact nofun
    | cons member rest ih =>
      obtain ⟨k, v⟩ := member
      intro found
      rw [Json.lookup] at found
      split at found
      · rename_i same
        cases found
        exact List.mem_cons.mpr (.inl (congrArg (·, value) same.symm))
      · exact List.mem_cons_of_mem _ (ih found)
  cases keyed with
  | object _ each => exact each _ (listed _ found)
  | array => cases found
  | leaf noMembers =>
    cases j with
    | obj => cases noMembers
    | null | bool | num | str | arr => cases found

namespace MySqlPlan

inductive Step where
  | member (key : String)
  | item
  deriving DecidableEq

-- A table object and the way to it.
structure Occurrence where
  trail : List Step
  object : Json

def Occurrence.under (step : Step) (o : Occurrence) : Occurrence := ⟨step :: o.trail, o.object⟩

def here (key : String) (value : Json) : List Occurrence :=
  if key = "table" ∧ value.members?.isSome then [⟨[], value⟩] else []

mutual
-- The objects that are the value of a member named table, at any depth.
def occurrences : Json → List Occurrence
  | .obj members => occurrencesAmong members
  | .arr items => occurrencesOf items
  | _ => []

def occurrencesAmong : List (String × Json) → List Occurrence
  | [] => []
  | (key, value) :: rest =>
    (here key value ++ occurrences value).map (.under (.member key)) ++ occurrencesAmong rest

def occurrencesOf : List Json → List Occurrence
  | [] => []
  | item :: rest => (occurrences item).map (.under .item) ++ occurrencesOf rest
end

def Follows (s t : Step) : Prop :=
  s = .member "table" → t = .member "attached_subqueries" ∨ t = .member "materialized_from_subquery"

instance : DecidableRel Follows := fun s t =>
  inferInstanceAs (Decidable (s = .member "table" → t = .member "attached_subqueries" ∨
    t = .member "materialized_from_subquery"))

def Occurrence.Reached (o : Occurrence) : Prop := o.trail.IsChain Follows

instance (o : Occurrence) : Decidable o.Reached := inferInstanceAs (Decidable (o.trail.IsChain Follows))

def reached (os : List Occurrence) : List Json := (os.filter (·.Reached)).map Occurrence.object

variable {os os' : List Occurrence} {o : Occurrence} {key name : String} {value : Json}
  {members rest : List (String × Json)}

theorem occurrencesAmong_eq (members : List (String × Json)) : occurrencesAmong members =
    members.flatMap fun member => (here member.1 member.2 ++ occurrences member.2).map (.under (.member member.1)) := by
  induction members with
  | nil => rfl
  | cons member rest ih => rw [occurrencesAmong, ih, List.flatMap_cons]

theorem occurrencesOf_eq (items : List Json) :
    occurrencesOf items = items.flatMap fun item => (occurrences item).map (.under .item) := by
  induction items with
  | nil => rfl
  | cons item rest ih => rw [occurrencesOf, ih, List.flatMap_cons]

theorem tablesOf_eq (items : List Json) : tablesOf items = items.flatMap tables := by
  induction items with
  | nil => rfl
  | cons item rest ih => rw [tablesOf, ih, List.flatMap_cons]

theorem here_other (other : key ≠ "table") : here key value = [] := if_neg fun named => other named.1

section Ways

theorem reached_append : reached (os ++ os') = reached os ++ reached os' := by
  simp [reached]

theorem reached_flatMap {α : Type} (f : α → List Occurrence) (xs : List α) :
    reached (xs.flatMap f) = xs.flatMap fun x => reached (f x) := by
  simp [reached, List.filter_flatMap, List.map_flatMap]

theorem reached_under (step : Step) (os : List Occurrence) :
    reached (os.map (.under step)) = (os.filter fun o => (o.under step).Reached).map Occurrence.object := by
  unfold reached
  rw [List.filter_map, List.map_map]
  rfl

theorem Occurrence.reached_under_iff (step : Step) (o : Occurrence) :
    (o.under step).Reached ↔ (∀ next ∈ o.trail.head?, Follows step next) ∧ o.Reached :=
  List.isChain_cons

theorem reached_under_other {step : Step} (other : step ≠ .member "table") (os : List Occurrence) :
    reached (os.map (.under step)) = reached os := by
  have same : ∀ o : Occurrence, (o.under step).Reached ↔ o.Reached := fun o =>
    (o.reached_under_iff step).trans (and_iff_right fun _ _ table => absurd table other)
  simp only [reached_under, same]
  rfl

-- Only two ways lead on from a table.
theorem reached_beneath {step : Step} (os : List Occurrence) :
    reached ((os.map (.under step)).map (.under (.member "table"))) =
      if Follows (.member "table") step then reached (os.map (.under step)) else [] := by
  have way : ∀ o ∈ os.map (Occurrence.under step), (o.under (.member "table")).Reached ↔
      Follows (.member "table") step ∧ o.Reached := fun o among => by
    obtain ⟨o, _, rfl⟩ := List.mem_map.mp among
    rw [Occurrence.reached_under_iff]
    simp [Occurrence.under]
  rw [reached_under]
  split
  · rename_i onward
    have same : ∀ o ∈ os.map (Occurrence.under step), decide (o.under (.member "table")).Reached = decide o.Reached :=
      fun o among => decide_eq_decide.mpr ((way o among).trans (and_iff_right onward))
    rw [List.filter_congr same]
    rfl
  · rename_i closed
    have unreached : ∀ o ∈ os.map (Occurrence.under step), ¬ decide (o.under (.member "table")).Reached = true :=
      fun o among onward => closed ((way o among).mp (of_decide_eq_true onward)).1
    rw [List.filter_eq_nil_iff.mpr unreached, List.map_nil]

end Ways

section Members

variable {a b : String}

theorem own_absent (absent : "table" ∉ members.map Prod.fst) : own members = [] := by
  induction members with
  | nil => rfl
  | cons member rest ih =>
    obtain ⟨other, absent⟩ := not_or.mp (List.mem_cons.not.mp absent)
    rw [own, if_neg (Ne.symm other), ih absent]

theorem named_absent (absent : name ∉ members.map Prod.fst) : named name members = [] := by
  induction members with
  | nil => rfl
  | cons member rest ih =>
    obtain ⟨other, absent⟩ := not_or.mp (List.mem_cons.not.mp absent)
    rw [named, if_neg (Ne.symm other), ih absent]

theorem own_besides_perm (distinct : (members.map Prod.fst).Nodup) :
    (own members ++ besides members).Perm
      (members.flatMap fun member => if member.1 = "table" then table member.2 else tables member.2) := by
  induction members with
  | nil => exact .nil
  | cons member rest ih =>
    obtain ⟨key, value⟩ := member
    obtain ⟨fresh, distinct⟩ := List.nodup_cons.mp distinct
    have ih := ih distinct
    rw [List.flatMap_cons, own, besides]
    by_cases own? : key = "table"
    · subst own?
      rw [own_absent fresh, List.nil_append] at ih
      simp only [if_true]
      exact ih.append_left _
    · simp only [if_neg own?]
      exact (List.perm_append_comm_assoc _ _ _).trans (ih.append_left _)

theorem named_perm (different : a ≠ b) (distinct : (members.map Prod.fst).Nodup) :
    (named a members ++ named b members).Perm
      (members.flatMap fun member => if member.1 = a ∨ member.1 = b then tables member.2 else []) := by
  induction members with
  | nil => exact .nil
  | cons member rest ih =>
    obtain ⟨key, value⟩ := member
    obtain ⟨fresh, distinct⟩ := List.nodup_cons.mp distinct
    have ih := ih distinct
    rw [List.flatMap_cons, named, named]
    by_cases first : key = a
    · subst first
      rw [named_absent fresh, List.nil_append] at ih
      simp only [if_true, if_neg different, true_or]
      exact ih.append_left _
    · by_cases second : key = b
      · subst second
        rw [named_absent fresh, List.append_nil] at ih
        simp only [if_true, if_neg first, or_true]
        exact List.perm_append_comm.trans (ih.append_left _)
      · simp only [first, second, or_self, if_false, List.nil_append]
        exact ih

end Members

-- The walk finds what is reached, from a document and from one that stands for a table.
structure Found (j : Json) : Prop where
  within : (reached (occurrences j)).Perm (tables j)
  table : (reached ((here "table" j ++ occurrences j).map (.under (.member "table")))).Perm (table j)

theorem found_leaf {j : Json} (noMembers : j.members? = none) (noItems : j.items? = none) : Found j := by
  cases j with
  | obj => cases noMembers
  | arr => cases noItems
  | null | bool | num | str => exact ⟨.refl _, .refl _⟩

theorem found_array {items : List Json} (each : ∀ item ∈ items, Found item) : Found (.arr items) where
  within := by
    have item : Step.item ≠ .member "table" := nofun
    rw [occurrences, occurrencesOf_eq, reached_flatMap, tables, tablesOf_eq]
    simp only [reached_under_other item]
    exact .flatMap_left _ fun item member => (each item member).within
  table := by
    have tableless : here "table" (.arr items) = [] := if_neg nofun
    have closed : ¬ Follows (.member "table") .item := by decide
    rw [tableless, List.nil_append, occurrences, occurrencesOf_eq, List.map_flatMap, reached_flatMap]
    simp only [reached_beneath, if_neg closed]
    rw [List.flatMap_eq_nil_iff.mpr fun _ _ => rfl]
    exact .nil

theorem found_other {member : String × Json} (found : Found member.2) (other : member.1 ≠ "table") :
    (reached ((here member.1 member.2 ++ occurrences member.2).map (.under (.member member.1)))).Perm
      (tables member.2) := by
  have step : Step.member member.1 ≠ .member "table" := fun same => other (Step.member.inj same)
  rw [reached_under_other step, here_other other, List.nil_append]
  exact found.within

theorem follows_table_iff (key : String) : Follows (.member "table") (.member key) ↔
    key = "attached_subqueries" ∨ key = "materialized_from_subquery" := by
  simp [Follows]

theorem found_object (distinct : (members.map Prod.fst).Nodup) (each : ∀ member ∈ members, Found member.2) :
    Found (.obj members) where
  within := by
    rw [occurrences, occurrencesAmong_eq, reached_flatMap, tables]
    refine (List.Perm.flatMap_left _ fun member among => ?_).trans (own_besides_perm distinct).symm
    split
    · rename_i own
      rw [own]
      exact (each member among).table
    · rename_i other
      exact found_other (each member among) other
  table := by
    have top : here "table" (.obj members) = [⟨[], .obj members⟩] := if_pos ⟨rfl, rfl⟩
    have root : reached ([⟨[], .obj members⟩].map (.under (.member "table"))) = [.obj members] := rfl
    have different : "attached_subqueries" ≠ "materialized_from_subquery" := by decide
    rw [top, List.map_append, reached_append, root, occurrences, occurrencesAmong_eq, List.map_flatMap,
      reached_flatMap]
    refine .cons _ ((List.Perm.flatMap_left _ fun member among => ?_).trans (named_perm different distinct).symm)
    rw [reached_beneath]
    simp only [follows_table_iff]
    split
    · rename_i onward
      have other : member.1 ≠ "table" := by rcases onward with named | named <;> simp [named]
      exact found_other (each member among) other
    · exact .nil

theorem found_keyed {j : Json} (keyed : j.Keyed) : Found j := by
  induction keyed with
  | object distinct _ ih => exact found_object distinct ih
  | array _ ih => exact found_array ih
  | leaf noMembers noItems => exact found_leaf noMembers noItems

def isScan (table : Json) : Bool := textMember? "access_type" table == some "ALL"

theorem isSequential_access (table : Json) : (access table).isSequential = isScan table := by
  unfold access isScan
  cases textMember? "access_type" table with
  | none => rfl
  | some kind =>
    dsimp only
    by_cases all : kind = "ALL"
    · simp [all, PlanAccess.isSequential]
    · rw [if_neg all]
      split <;> simp [all, PlanAccess.isSequential]

-- What a summary tells about the tables of a plan. Without any row count the greatest is zero.
structure Counts (s : PlanSummary) (tables : List Json) : Prop where
  nodes : s.nodeCount = tables.length
  scans : s.sequentialScans = tables.countP isScan
  rows : Binary64.Greatest s.rows (0.0 :: tables.filterMap (estimateMember? "rows_examined_per_scan"))

theorem Counts.perm {s : PlanSummary} {tables tables' : List Json} (counts : Counts s tables)
    (same : tables.Perm tables') : Counts s tables' where
  nodes := counts.nodes.trans same.length_eq
  scans := counts.scans.trans (same.countP_eq isScan)
  rows := counts.rows.perm ((same.filterMap _).cons 0.0)

theorem foldl_greatest (tables : List Json) (most : Float) : tables.foldl greatest most =
    (tables.filterMap (estimateMember? "rows_examined_per_scan")).foldl Binary64.larger most := by
  induction tables generalizing most with
  | nil => rfl
  | cons table rest ih =>
    rw [List.foldl_cons, ih, greatest]
    cases rows : estimateMember? "rows_examined_per_scan" table with
    | none => rw [List.filterMap_cons_none rows]
    | some count => rw [List.filterMap_cons_some rows, List.foldl_cons, Binary64.larger]

theorem summary_counts {plan block : Json} (found : plan.get? "query_block" = some block) :
    ∃ s, PlanSummary.ofExplain .mySql plan = .ok s ∧ Counts s (tables block) := by
  have read : PlanSummary.ofExplain .mySql plan = .ok
      ⟨((block.get? "cost_info").bind (estimateMember? "query_cost")).getD 0.0, (tables block).foldl greatest 0.0,
        (tables block).map access⟩ := by
    show summary plan = _
    unfold summary
    rw [found]
  refine ⟨_, read, ?_, ?_, ?_⟩
  · exact List.length_map access
  · unfold PlanSummary.sequentialScans
    rw [List.countP_map]
    exact List.countP_congr fun table _ => by simp [isSequential_access]
  · show Binary64.Greatest ((tables block).foldl greatest 0.0) _
    rw [foldl_greatest]
    exact (Binary64.greatest_singleton 0.0).foldl_larger _

theorem Counts.whole_iff {s : PlanSummary} (counts : Counts s (reached os)) :
    Counts s (os.map Occurrence.object) ↔ ∀ o ∈ os, o.Reached := by
  constructor
  · intro whole
    have length : (os.filter (·.Reached)).length = os.length := by
      have same := counts.nodes.symm.trans whole.nodes
      rwa [reached, List.length_map, List.length_map] at same
    exact fun o among => of_decide_eq_true (List.length_filter_eq_length_iff.mp length o among)
  · intro all
    have same : reached os = os.map Occurrence.object := by
      rw [reached, List.filter_eq_self.mpr fun o among => decide_eq_true (all o among)]
    rwa [← same]

theorem Counts.scans_iff {s : PlanSummary} (counts : Counts s (reached os)) :
    s.sequentialScans = (os.map Occurrence.object).countP isScan ↔
      ∀ o ∈ os, isScan o.object = true → o.Reached := by
  have among : s.sequentialScans = ((os.filter (isScan ·.object)).filter (·.Reached)).length := by
    rw [counts.scans, reached, List.countP_map, List.countP_eq_length_filter, List.filter_comm]
    rfl
  have all : (os.map Occurrence.object).countP isScan = (os.filter (isScan ·.object)).length := by
    rw [List.countP_map, List.countP_eq_length_filter]
    rfl
  rw [among, all, List.length_filter_eq_length_iff]
  simp

-- The tables that are counted are those that are reached, each as often as it is there. All are counted just when all
-- are reached, and no scan escapes just when every scan is reached.
theorem tables_counted {plan block : Json} (keyed : plan.Keyed) (found : plan.get? "query_block" = some block) :
    ∃ s, PlanSummary.ofExplain .mySql plan = .ok s ∧
      Counts s (reached (occurrences block)) ∧
      (Counts s ((occurrences block).map Occurrence.object) ↔ ∀ o ∈ occurrences block, o.Reached) ∧
      (s.sequentialScans = ((occurrences block).map Occurrence.object).countP isScan ↔
        ∀ o ∈ occurrences block, isScan o.object = true → o.Reached) := by
  obtain ⟨s, read, counts⟩ := summary_counts found
  have counts := counts.perm (found_keyed (keyed.get? found)).within.symm
  exact ⟨s, read, counts, counts.whole_iff, counts.scans_iff⟩

namespace PlanExamples

def table (name access : String) (more : List (String × Json)) : Json :=
  .obj (("table_name", .str name) :: ("access_type", .str access) :: more)

def nestedLoop (tables : List Json) : Json := .single "nested_loop" (.arr (tables.map (Json.single "table")))

def plan (block : Json) : Json := .single "query_block" block

theorem keyed_single {value : Json} (keyed : value.Keyed) (key : String) : (Json.single key value).Keyed :=
  .object (List.nodup_singleton key) (List.forall_mem_singleton.mpr keyed)

theorem keyed_nestedLoop {tables : List Json} (keyed : ∀ table ∈ tables, table.Keyed) : (nestedLoop tables).Keyed := by
  refine keyed_single (.array fun item listed => ?_) "nested_loop"
  obtain ⟨table, among, rfl⟩ := List.mem_map.mp listed
  exact keyed_single (keyed table among) "table"

theorem keyed_table {name access : String} {more : List (String × Json)}
    (distinct : ("table_name" :: "access_type" :: more.map Prod.fst).Nodup) (each : ∀ member ∈ more, member.2.Keyed) :
    (table name access more).Keyed :=
  .object distinct (List.forall_mem_cons.mpr ⟨.leaf rfl rfl, List.forall_mem_cons.mpr ⟨.leaf rfl rfl, each⟩⟩)

def posts : Json := table "posts" "ALL" [("rows_examined_per_scan", .int 120)]

theorem keyed_subquery : (plan (nestedLoop [posts])).Keyed := by
  have keyed : posts.Keyed := keyed_table (by decide) (List.forall_mem_singleton.mpr (.leaf rfl rfl))
  exact keyed_single (keyed_nestedLoop (List.forall_mem_singleton.mpr keyed)) "query_block"

-- A subquery in the condition on the rows of a table.
def attached : Json :=
  nestedLoop [table "users" "ref" [("attached_subqueries", .arr [plan (nestedLoop [posts])])]]

theorem attached_counted : (plan attached).Keyed ∧ (plan attached).get? "query_block" = some attached ∧
    ∃ s, PlanSummary.ofExplain .mySql (plan attached) = .ok s ∧ s.nodeCount = 2 ∧ s.sequentialScans = 1 := by
  have keyed : (plan attached).Keyed := by
    have fed := Json.Keyed.array (List.forall_mem_singleton.mpr keyed_subquery)
    refine keyed_single (keyed_nestedLoop (List.forall_mem_singleton.mpr ?_)) "query_block"
    exact keyed_table (by decide) (List.forall_mem_singleton.mpr fed)
  have all : ∀ o ∈ occurrences attached, o.Reached := by decide +kernel
  obtain ⟨s, read, _, whole, _⟩ := tables_counted keyed rfl
  have counts := whole.mpr all
  exact ⟨keyed, rfl, s, read, counts.nodes.trans (by decide +kernel), counts.scans.trans (by decide +kernel)⟩

-- MariaDB reads the posts once and looks them up for each of the users.
def materialized : Json :=
  nestedLoop [table "users" "ALL" [],
    table "<subquery2>" "eq_ref" [("materialized", plan (nestedLoop [posts]))]]

theorem materialized_escapes : (plan materialized).Keyed ∧ (plan materialized).get? "query_block" = some materialized ∧
    ∃ s, PlanSummary.ofExplain .mySql (plan materialized) = .ok s ∧
      s.nodeCount = 2 ∧ (occurrences materialized).length = 3 ∧
      s.sequentialScans = 1 ∧ ((occurrences materialized).map Occurrence.object).countP isScan = 2 ∧
      ¬ Counts s ((occurrences materialized).map Occurrence.object) := by
  have keyed : (plan materialized).Keyed := by
    refine keyed_single (keyed_nestedLoop (List.forall_mem_cons.mpr ⟨?_, List.forall_mem_singleton.mpr ?_⟩))
      "query_block"
    · exact keyed_table (by decide) (List.forall_mem_nil _)
    · exact keyed_table (by decide) (List.forall_mem_singleton.mpr keyed_subquery)
  have found : (plan materialized).get? "query_block" = some materialized := rfl
  obtain ⟨s, read, counts⟩ := summary_counts found
  have nodes : s.nodeCount = 2 := counts.nodes.trans (by decide +kernel)
  have three : (occurrences materialized).length = 3 := by decide +kernel
  refine ⟨keyed, found, s, read, nodes, three, counts.scans.trans (by decide +kernel), by decide +kernel, ?_⟩
  intro whole
  have same := whole.nodes
  rw [nodes, List.length_map, three] at same
  cases same

end PlanExamples

end MySqlPlan
end FilterQuery
