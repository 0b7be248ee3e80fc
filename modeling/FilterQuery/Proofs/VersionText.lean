import Mathlib.Data.List.Chain
import Mathlib.Data.Prod.Lex
import FilterQuery.Capability.Detect
import FilterQuery.Proofs.DecimalDigits

namespace FilterQuery

-- The place of the digit in its run of ten.
def decimalDigitValue (c : Char) : Nat :=
  match digitZeros.find? fun first => first ≤ c.toNat && c.toNat < first + 10 with
  | some first => c.toNat - first
  | none => 0

def decimalValue (cs : List Char) : Nat := cs.foldl (fun n c => 10 * n + decimalDigitValue c) 0

-- A group of the pattern: digits of any script.
def DecimalRun (cs : List Char) : Prop := cs ≠ [] ∧ ∀ c ∈ cs, isDecimalDigit c = true

theorem isDecimalDigit_of_isDigit {c : Char} (digit : FilterQuery.isDigit c = true) : isDecimalDigit c = true := by
  rw [isDigit_eq, Char.isDigit_iff_toNat] at digit
  have bounds : 48 ≤ c.toNat ∧ c.toNat ≤ 57 := digit
  refine List.any_eq_true.mpr ⟨0x30, by decide, ?_⟩
  rw [Bool.and_eq_true, decide_eq_true_iff, decide_eq_true_iff]
  omega

theorem decimalDigitValue_of_isDigit {c : Char} (digit : FilterQuery.isDigit c = true) :
    decimalDigitValue c = digitValue c := by
  rw [isDigit_eq, Char.isDigit_iff_toNat] at digit
  have bounds : 48 ≤ c.toNat ∧ c.toNat ≤ 57 := digit
  have first : digitZeros.find? (fun first => first ≤ c.toNat && c.toNat < first + 10) = some 0x30 := by
    refine List.find?_cons_of_pos ?_
    rw [Bool.and_eq_true, decide_eq_true_iff, decide_eq_true_iff]
    omega
  rw [decimalDigitValue, first]
  rfl

theorem decimalValue_of_digits {cs : List Char} (digits : Digits cs) : decimalValue cs = digitsValue cs := by
  refine List.foldl_ext _ _ 0 fun n c member => ?_
  rw [decimalDigitValue_of_isDigit (digits c member)]

namespace DecimalRun

variable {cs : List Char}

theorem of_digits (digits : Digits cs) (filled : cs ≠ []) : DecimalRun cs :=
  ⟨filled, fun c member => isDecimalDigit_of_isDigit (digits c member)⟩

theorem toDigits (n : Nat) : DecimalRun (Nat.toDigits 10 n) := of_digits (Digits.toDigits n) Nat.toDigits_ne_nil

theorem of_takeWhile (filled : cs.takeWhile isDecimalDigit ≠ []) : DecimalRun (cs.takeWhile isDecimalDigit) :=
  ⟨filled, List.all_eq_true.mp List.all_takeWhile⟩

end DecimalRun

-- A number of 32 bits is read from ASCII digits only; digits of other scripts are part of a group and spoil it.
theorem readWord32?_run {cs : List Char} (run : DecimalRun cs) {n : Nat} :
    readWord32? cs = some n ↔ Digits cs ∧ decimalValue cs ≤ greatestWord32 ∧ n = decimalValue cs := by
  have unsigned : readWord32? cs = (readDigits? cs).bind fun n => if n ≤ greatestWord32 then some n else none := by
    unfold readWord32? readIntIn?
    split
    · exact absurd (run.2 '+' List.mem_cons_self) (by decide)
    · exact absurd (run.2 '-' List.mem_cons_self) (by decide)
    · cases readDigits? cs <;> simp
  rw [unsigned]
  by_cases digits : Digits cs
  · rw [readDigits?_of_digits digits run.1, decimalValue_of_digits digits, Option.bind_some]
    split
    · rename_i small
      simp [digits, small, eq_comm]
    · rename_i great
      exact iff_of_false nofun fun read => great read.2.1
  · have mixed : readDigits? cs = none := by
      refine if_pos ?_
      rw [Bool.or_eq_true, Bool.not_eq_true', ← Bool.not_eq_true]
      exact .inr fun all => digits (List.all_eq_true.mp all)
    rw [mixed]
    exact iff_of_false nofun fun read => digits read.1

namespace Version

def behindPoint : Option (List Char) → List Char
  | some digits => '.' :: digits
  | none => []

-- What an occurrence with these groups looks like.
def Groups.text (g : Groups) : List Char := g.major ++ '.' :: (g.minor ++ behindPoint g.patch)

def Groups.components (g : Groups) : List (List Char) := g.major :: g.minor :: g.patch.toList

structure Groups.Spelled (g : Groups) : Prop where
  major : DecimalRun g.major
  minor : DecimalRun g.minor
  patch : ∀ digits ∈ g.patch, DecimalRun digits

-- Longer groups are preferred, those of an earlier group before all; a third group that is there is longer than none.
def Groups.preference (g : Groups) : ℕ ×ₗ ℕ ×ₗ ℕ :=
  toLex (g.major.length, toLex (g.minor.length, (behindPoint g.patch).length))

-- The pattern matches right at the start of the text.
def Leads (g : Groups) (cs : List Char) : Prop := g.Spelled ∧ g.text <+: cs

-- The match that a search from left to right comes to first.
structure First (raw before : List Char) (g : Groups) : Prop where
  here : ∃ rest, raw = before ++ rest ∧ Leads g rest
  leftmost : ∀ sooner rest other, raw = sooner ++ rest → Leads other rest → before.length ≤ sooner.length
  greedy : ∀ rest other, raw = before ++ rest → Leads other rest → other.preference ≤ g.preference

variable {g : Groups} {v : Version} {raw cs major minor : List Char}

theorem takeWhile_point (cs : List Char) : ('.' :: cs).takeWhile isDecimalDigit = [] :=
  List.takeWhile_cons_of_neg (by decide)

theorem dropWhile_point (cs : List Char) : ('.' :: cs).dropWhile isDecimalDigit = '.' :: cs :=
  List.dropWhile_cons_of_neg (by decide)

theorem groupAfterPoint?_eq_some {taken : List Char × List Char} :
    groupAfterPoint? cs = some taken ↔ ∃ rest, cs = '.' :: rest ∧ rest.takeWhile isDecimalDigit ≠ [] ∧
      taken = (rest.takeWhile isDecimalDigit, rest.dropWhile isDecimalDigit) := by
  unfold groupAfterPoint?
  split
  · rename_i rest
    by_cases empty : rest.takeWhile isDecimalDigit = []
    · rw [if_pos (List.isEmpty_iff.mpr empty)]
      exact iff_of_false nofun fun ⟨_, same, filled, _⟩ => filled (by cases same; exact empty)
    · rw [if_neg (mt List.isEmpty_iff.mp empty)]
      constructor
      · rintro ⟨⟩
        exact ⟨rest, rfl, empty, rfl⟩
      · rintro ⟨_, ⟨⟩, -, rfl⟩
        rfl
  · rename_i other
    exact iff_of_false nofun fun ⟨rest, same, _⟩ => other rest same

theorem groupAfterPoint?_run (run : DecimalRun minor) (tail : List Char) :
    groupAfterPoint? ('.' :: (minor ++ tail)) =
      some (minor ++ tail.takeWhile isDecimalDigit, tail.dropWhile isDecimalDigit) := by
  refine groupAfterPoint?_eq_some.mpr ⟨_, rfl, ?_, ?_⟩
  · rw [List.takeWhile_append_of_pos run.2]
    exact fun empty => run.1 (List.append_eq_nil_iff.mp empty).1
  · rw [List.takeWhile_append_of_pos run.2, List.dropWhile_append_of_pos run.2]

theorem groupsHere?_run (first : DecimalRun major) (second : DecimalRun minor) (tail : List Char) :
    groupsHere? (major ++ '.' :: (minor ++ tail)) =
      some ⟨major, minor ++ tail.takeWhile isDecimalDigit,
        (groupAfterPoint? (tail.dropWhile isDecimalDigit)).map Prod.fst⟩ := by
  unfold groupsHere?
  rw [List.takeWhile_append_of_pos first.2, List.dropWhile_append_of_pos first.2, takeWhile_point, dropWhile_point,
    List.append_nil, groupAfterPoint?_run second]
  simp [first.1]

theorem optionalGroup_exact {cs : List Char} : behindPoint ((groupAfterPoint? cs).map Prod.fst) <+: cs ∧
    ∀ digits ∈ (groupAfterPoint? cs).map Prod.fst, DecimalRun digits := by
  cases taken : groupAfterPoint? cs with
  | none => exact ⟨List.nil_prefix, nofun⟩
  | some pair =>
    obtain ⟨rest, rfl, filled, rfl⟩ := groupAfterPoint?_eq_some.mp taken
    refine ⟨?_, ?_⟩
    · exact List.cons_prefix_cons.mpr ⟨rfl, List.takeWhile_prefix _⟩
    · rintro digits ⟨⟩
      exact .of_takeWhile filled

theorem leads_of_groupsHere? (found : groupsHere? cs = some g) : Leads g cs := by
  unfold groupsHere? at found
  by_cases empty : cs.takeWhile isDecimalDigit = []
  · simp [empty] at found
  · simp only [List.isEmpty_iff, empty, if_false] at found
    obtain ⟨taken, second, same⟩ := Option.bind_eq_some_iff.mp found
    obtain ⟨behind, dropped, filled, rfl⟩ := groupAfterPoint?_eq_some.mp second
    cases same
    refine ⟨⟨.of_takeWhile empty, .of_takeWhile filled, optionalGroup_exact.2⟩, ?_⟩
    have parts : cs = cs.takeWhile isDecimalDigit ++ '.' ::
        (behind.takeWhile isDecimalDigit ++ behind.dropWhile isDecimalDigit) := by
      rw [List.takeWhile_append_dropWhile, ← dropped, List.takeWhile_append_dropWhile]
    conv_rhs => rw [parts]
    refine List.prefix_append_right_inj _ |>.mpr (List.cons_prefix_cons.mpr ⟨rfl, ?_⟩)
    exact (List.prefix_append_right_inj _).mpr optionalGroup_exact.1

-- Whatever matches at the start, the search finds its groups, made longer where that can be.
theorem groupsHere?_of_leads (leads : Leads g cs) :
    ∃ found, groupsHere? cs = some found ∧ g.preference ≤ found.preference := by
  obtain ⟨⟨first, second, third⟩, after, rfl⟩ := leads
  obtain ⟨major, minor, patch⟩ := g
  have found := groupsHere?_run first second (behindPoint patch ++ after)
  refine ⟨_, (by simpa [Groups.text] using found), ?_⟩
  simp only [Groups.preference, Prod.Lex.toLex_le_toLex, lt_self_iff_false, true_and, false_or]
  cases patch with
  | some digits =>
    rw [behindPoint, List.cons_append, takeWhile_point, dropWhile_point, groupAfterPoint?_run (third digits rfl)]
    simp [behindPoint]
  | none =>
    rw [behindPoint, List.nil_append]
    cases more : after.takeWhile isDecimalDigit with
    | nil => simp
    | cons c later => simp

theorem not_leads_nil (g : Groups) : ¬Leads g [] := by
  rintro ⟨-, spelled⟩
  simp [Groups.text] at spelled

theorem not_leads_of_groupsHere? (missed : groupsHere? cs = none) (g : Groups) : ¬Leads g cs := by
  intro leads
  obtain ⟨found, here, -⟩ := groupsHere?_of_leads leads
  cases missed.symm.trans here

theorem find?_cons (c : Char) (rest : List Char) : find? (c :: rest) = (groupsHere? (c :: rest)).or (find? rest) := by
  rw [find?]
  exact Option.orElse_eq_or

theorem not_leads_of_find? (missed : find? raw = none) {before rest : List Char} (split : raw = before ++ rest)
    (g : Groups) : ¬Leads g rest := by
  induction raw generalizing before with
  | nil =>
    obtain ⟨rfl, rfl⟩ := List.append_eq_nil_iff.mp split.symm
    exact not_leads_nil g
  | cons c raw ih =>
    rw [find?_cons, Option.or_eq_none_iff] at missed
    cases before with
    | nil =>
      cases split
      exact not_leads_of_groupsHere? missed.1 g
    | cons d before =>
      cases split
      exact ih missed.2 rfl

theorem first_of_find? (found : find? raw = some g) : ∃ before, First raw before g := by
  induction raw with
  | nil => cases found
  | cons c raw ih =>
    rw [find?_cons, Option.or_eq_some_iff] at found
    rcases found with here | ⟨missed, later⟩
    · refine ⟨[], ⟨_, rfl, leads_of_groupsHere? here⟩, fun _ _ _ _ _ => Nat.zero_le _, ?_⟩
      intro rest other split leads
      obtain ⟨best, again, preferred⟩ := groupsHere?_of_leads leads
      cases split
      cases again.symm.trans here
      exact preferred
    · obtain ⟨before, ⟨rest, split, leads⟩, leftmost, greedy⟩ := ih later
      refine ⟨c :: before, ⟨rest, by rw [split]; rfl, leads⟩, ?_, ?_⟩
      · intro sooner rest other split leads
        cases sooner with
        | nil =>
          cases split
          exact absurd leads (not_leads_of_groupsHere? missed other)
        | cons d sooner =>
          cases split
          exact Nat.succ_le_succ (leftmost sooner rest other rfl leads)
      · intro rest other split leads
        cases split
        exact greedy rest other rfl leads

theorem pointed_injective : Function.Injective behindPoint := by
  intro a b same
  cases a <;> cases b <;> simp_all [behindPoint]

theorem Leads.unique {g' : Groups} (one : Leads g cs) (other : Leads g' cs) (alike : g.preference = g'.preference) :
    g = g' := by
  obtain ⟨major, minor, patch⟩ := g
  obtain ⟨major', minor', patch'⟩ := g'
  simp only [Groups.preference, toLex_inj, Prod.mk.injEq] at alike
  obtain ⟨majors, minors, patches⟩ := alike
  have texts : Groups.text ⟨major, minor, patch⟩ = Groups.text ⟨major', minor', patch'⟩ := by
    refine List.IsPrefix.eq_of_length (List.prefix_of_prefix_length_le one.2 other.2 ?_) ?_ <;>
      simp [Groups.text, majors, minors, patches]
  obtain ⟨rfl, behind⟩ := List.append_inj texts majors
  obtain ⟨rfl, last⟩ := List.append_inj (List.cons_inj_right _ |>.mp behind) minors
  obtain rfl : patch = patch' := pointed_injective last
  rfl

theorem First.unique {before before' : List Char} {g' : Groups} (one : First raw before g) (other : First raw before' g') :
    g = g' := by
  obtain ⟨⟨rest, split, leads⟩, leftmost, greedy⟩ := one
  obtain ⟨⟨rest', split', leads'⟩, leftmost', greedy'⟩ := other
  have places : before.length = before'.length :=
    Nat.le_antisymm (leftmost _ _ _ split' leads') (leftmost' _ _ _ split leads)
  obtain ⟨rfl, rfl⟩ := List.append_inj (split.symm.trans split') places
  exact leads.unique leads' (le_antisymm (greedy' _ _ split leads) (greedy _ _ split' leads'))

theorem find?_eq_some_iff : find? raw = some g ↔ ∃ before, First raw before g := by
  refine ⟨first_of_find?, ?_⟩
  rintro ⟨before, first⟩
  cases found : find? raw with
  | none =>
    obtain ⟨rest, split, leads⟩ := first.here
    exact absurd leads (not_leads_of_find? found split g)
  | some other =>
    obtain ⟨before', first'⟩ := first_of_find? found
    rw [first.unique first']

-- The numbers of the groups, if all of them have 32 bits. Without a third group the last number is nought.
structure Groups.Reads (g : Groups) (v : Version) : Prop where
  words : ∀ digits ∈ g.components, Digits digits ∧ decimalValue digits ≤ greatestWord32
  major : v.major = decimalValue g.major
  minor : v.minor = decimalValue g.minor
  patch : v.patch = (g.patch.map decimalValue).getD 0

theorem ofGroups?_eq_some_iff (spelled : g.Spelled) : ofGroups? g = some v ↔ g.Reads v := by
  have steps : ofGroups? g = (readWord32? g.major).bind fun major => (readWord32? g.minor).bind fun minor =>
      (match g.patch with
        | some digits => readWord32? digits
        | none => some 0).bind fun patch => some ⟨major, minor, patch⟩ := by
    unfold ofGroups?
    cases g.patch <;> rfl
  have third : ∀ n, (match g.patch with
      | some digits => readWord32? digits
      | none => some 0) = some n ↔ (∀ digits ∈ g.patch, Digits digits ∧ decimalValue digits ≤ greatestWord32) ∧
        n = (g.patch.map decimalValue).getD 0 := by
    intro n
    cases given : g.patch with
    | none => simp [eq_comm]
    | some digits => simp [readWord32?_run (spelled.patch digits given), and_assoc]
  simp only [steps, Option.bind_eq_some_iff, readWord32?_run spelled.major, readWord32?_run spelled.minor, third]
  constructor
  · rintro ⟨_, ⟨digits, small, rfl⟩, _, ⟨digits', small', rfl⟩, _, ⟨each, rfl⟩, ⟨⟩⟩
    refine ⟨?_, rfl, rfl, rfl⟩
    simp only [Groups.components, List.forall_mem_cons, Option.mem_toList]
    exact ⟨⟨digits, small⟩, ⟨digits', small'⟩, each⟩
  · rintro ⟨words, major, minor, patch⟩
    simp only [Groups.components, List.forall_mem_cons, Option.mem_toList] at words
    refine ⟨_, ⟨words.1.1, words.1.2, rfl⟩, _, ⟨words.2.1.1, words.2.1.2, rfl⟩, _, ⟨words.2.2, rfl⟩, ?_⟩
    rw [← major, ← minor, ← patch]

theorem ofText?_eq_some_iff {raw : String} : ofText? raw = some v ↔ ∃ before g, First raw.toList before g ∧ g.Reads v := by
  unfold ofText?
  rw [Option.bind_eq_some_iff]
  constructor
  · rintro ⟨g, found, read⟩
    obtain ⟨before, first⟩ := find?_eq_some_iff.mp found
    obtain ⟨_, _, leads⟩ := first.here
    exact ⟨before, g, first, (ofGroups?_eq_some_iff leads.1).mp read⟩
  · rintro ⟨before, g, first, reads⟩
    obtain ⟨_, _, leads⟩ := first.here
    exact ⟨g, find?_eq_some_iff.mpr ⟨before, first⟩, (ofGroups?_eq_some_iff leads.1).mpr reads⟩

-- What vendors write around a version: no digit stands right before a point, and none touches the version.
structure Noise (before after : List Char) : Prop where
  unpointed : before.IsChain fun c next => isDecimalDigit c = true → next ≠ '.'
  apart : ∀ c ∈ before.getLast?, isDecimalDigit c = false
  ends : ∀ c ∈ after.head?, isDecimalDigit c = false

theorem not_leads_noise {before cs : List Char} (filled : before ≠ [])
    (unpointed : before.IsChain fun c next => isDecimalDigit c = true → next ≠ '.')
    (apart : ∀ c ∈ before.getLast?, isDecimalDigit c = false) (g : Groups) : ¬Leads g (before ++ cs) := by
  rintro ⟨⟨⟨nonempty, digits⟩, -, -⟩, tail, spelled⟩
  have last := apart _ (List.getLast?_eq_getLast_of_ne_nil filled)
  rw [Groups.text, List.append_assoc, List.cons_append] at spelled
  rcases List.append_eq_append_iff.mp spelled with ⟨rest, split, behind⟩ | ⟨rest, split, -⟩
  · cases rest with
    | nil =>
      rw [List.append_nil] at split
      subst split
      exact absurd (digits _ (List.getLast_mem filled)) (Bool.eq_false_iff.mp last)
    | cons c rest =>
      obtain rfl : '.' = c := (List.cons_eq_cons.mp behind).1
      rw [split, List.isChain_append] at unpointed
      exact unpointed.2.2 _ (List.getLast?_eq_getLast_of_ne_nil nonempty) _ rfl (digits _ (List.getLast_mem nonempty)) rfl
  · have inside : before.getLast filled ∈ g.major := split ▸ List.mem_append_left _ (List.getLast_mem filled)
    exact absurd (digits _ inside) (Bool.eq_false_iff.mp last)

theorem find?_noise {before cs : List Char} (unpointed : before.IsChain fun c next => isDecimalDigit c = true → next ≠ '.')
    (apart : ∀ c ∈ before.getLast?, isDecimalDigit c = false) : find? (before ++ cs) = find? cs := by
  induction before with
  | nil => rfl
  | cons c before ih =>
    have missed : groupsHere? (c :: (before ++ cs)) = none := by
      cases found : groupsHere? (c :: (before ++ cs)) with
      | none => rfl
      | some g => exact absurd (leads_of_groupsHere? found) (not_leads_noise (List.cons_ne_nil c before) unpointed apart g)
    rw [List.cons_append, find?_cons, missed, Option.none_or]
    refine ih unpointed.tail ?_
    cases before with
    | nil => exact nofun
    | cons d before => rwa [List.getLast?_cons_cons] at apart

-- The version itself is the first occurrence behind the noise.
theorem find?_text (v : Version) {after : List Char} (ends : ∀ c ∈ after.head?, isDecimalDigit c = false) :
    find? (v.text.toList ++ after) =
      some ⟨Nat.toDigits 10 v.major, Nat.toDigits 10 v.minor, some (Nat.toDigits 10 v.patch)⟩ := by
  have letters : v.text.toList ++ after =
      Nat.toDigits 10 v.major ++ '.' :: (Nat.toDigits 10 v.minor ++ '.' :: (Nat.toDigits 10 v.patch ++ after)) := by
    simp [text, String.toList_append]
  have here : groupsHere? (v.text.toList ++ after) =
      some ⟨Nat.toDigits 10 v.major, Nat.toDigits 10 v.minor, some (Nat.toDigits 10 v.patch)⟩ := by
    have last : after.takeWhile isDecimalDigit = [] := by
      cases after with
      | nil => rfl
      | cons c rest => exact List.takeWhile_cons_of_neg (Bool.eq_false_iff.mp (ends c rfl))
    rw [letters, groupsHere?_run (.toDigits v.major) (.toDigits v.minor), takeWhile_point, dropWhile_point,
      groupAfterPoint?_run (.toDigits v.patch), last, List.append_nil, List.append_nil]
    rfl
  cases shape : v.text.toList ++ after with
  | nil =>
    rw [letters] at shape
    simp at shape
  | cons c rest => rw [find?_cons, ← shape, here, Option.some_or]

-- A point between two digits.
def PointBetween (digit : Char → Bool) (cs : List Char) : Prop :=
  ∃ a b, digit a = true ∧ digit b = true ∧ [a, '.', b] <:+: cs

theorem Leads.point {digit : Char → Bool} (leads : Leads g cs) (major : ∀ c ∈ g.major, digit c = true)
    (minor : ∀ c ∈ g.minor, digit c = true) : PointBetween digit cs := by
  obtain ⟨⟨⟨nonempty, -⟩, ⟨nonempty', -⟩, -⟩, tail, rfl⟩ := leads
  obtain ⟨front, a, shape⟩ := List.eq_nil_or_concat g.major |>.resolve_left nonempty
  obtain ⟨b, later, shape'⟩ := List.exists_cons_of_ne_nil nonempty'
  refine ⟨a, b, major a (by simp [shape]), minor b (by simp [shape']), front, later ++ behindPoint g.patch ++ tail, ?_⟩
  simp [Groups.text, shape, shape']

theorem ofText?_text (words : v.major ≤ greatestWord32 ∧ v.minor ≤ greatestWord32 ∧ v.patch ≤ greatestWord32)
    {before after : String} (noise : Noise before.toList after.toList) : ofText? (before ++ v.text ++ after) = some v := by
  have read : ∀ n, Digits (Nat.toDigits 10 n) ∧ decimalValue (Nat.toDigits 10 n) = n := fun n =>
    ⟨Digits.toDigits n, (decimalValue_of_digits (Digits.toDigits n)).trans (digitsValue_toDigits n)⟩
  unfold ofText?
  rw [String.toList_append, String.toList_append, List.append_assoc, find?_noise noise.unpointed noise.apart,
    find?_text v noise.ends, Option.bind_some]
  refine (ofGroups?_eq_some_iff ⟨.toDigits _, .toDigits _, ?_⟩).mpr ⟨?_, ?_, ?_, ?_⟩
  · rintro _ ⟨⟩
    exact .toDigits _
  · simpa [Groups.components, read] using words
  · exact (read v.major).2.symm
  · exact (read v.minor).2.symm
  · exact (read v.patch).2.symm

-- The digits of the pattern are those of every script, but a number is read from ASCII digits alone.
theorem ofText?_unpointed {raw : String} (unpointed : ¬PointBetween FilterQuery.isDigit raw.toList) : ofText? raw = none := by
  cases read : ofText? raw with
  | none => rfl
  | some v =>
    obtain ⟨before, g, ⟨⟨rest, split, leads⟩, -, -⟩, reads⟩ := ofText?_eq_some_iff.mp read
    have major := (reads.words g.major List.mem_cons_self).1
    have minor := (reads.words g.minor (List.mem_cons_of_mem _ List.mem_cons_self)).1
    obtain ⟨a, b, digit, digit', inside⟩ := leads.point major minor
    exact absurd ⟨a, b, digit, digit', split ▸ inside.trans (List.suffix_append before rest).isInfix⟩ unpointed

theorem ofText?_great {raw : String} {before : List Char} (first : First raw.toList before g)
    (great : ∃ digits ∈ g.components, greatestWord32 < decimalValue digits) : ofText? raw = none := by
  cases read : ofText? raw with
  | none => rfl
  | some v =>
    obtain ⟨before', g', first', reads⟩ := ofText?_eq_some_iff.mp read
    obtain rfl := first.unique first'
    obtain ⟨digits, among, great⟩ := great
    exact absurd (reads.words digits among).2 (Nat.not_le.mpr great)

-- A number too great is not passed over for one further on, and the backend then counts as offering nothing.
theorem texts_found :
    (∀ (v : Version) (before after : String),
      v.major ≤ greatestWord32 → v.minor ≤ greatestWord32 → v.patch ≤ greatestWord32 →
      Noise before.toList after.toList → ofText? (before ++ v.text ++ after) = some v) ∧
    (∀ raw : String, ¬PointBetween FilterQuery.isDigit raw.toList → ofText? raw = none) ∧
    ∀ (raw : String) (before : List Char) (g : Groups), First raw.toList before g →
      (∃ digits ∈ g.components, greatestWord32 < decimalValue digits) →
      ofText? raw = none ∧ ∀ (a : Adapter) (extensions : List String) (probed : Feature → Option Bool),
        Capability.ofReport a raw extensions probed = Capability.conservative a := by
  refine ⟨?_, fun raw => ofText?_unpointed, ?_⟩
  · intro v before after major minor patch noise
    exact ofText?_text ⟨major, minor, patch⟩ noise
  · intro raw before g first great
    have silent := ofText?_great first great
    refine ⟨silent, fun a extensions probed => ?_⟩
    rw [Capability.ofReport, silent]

theorem noisyTexts_found :
    (Noise "db 7b/2 v".toList ".5-rc1".toList ∧
      ofText? ("db 7b/2 v" ++ (⟨23, 1, 11⟩ : Version).text ++ ".5-rc1") = some ⟨23, 1, 11⟩) ∧
    (¬PointBetween FilterQuery.isDigit "v12".toList ∧ ofText? "v12" = none) ∧
    ∃ before g, First "4294967296.1, was 1.2.3".toList before g ∧
      (∃ digits ∈ g.components, greatestWord32 < decimalValue digits) ∧ ofText? "4294967296.1, was 1.2.3" = none := by
  have noise : Noise "db 7b/2 v".toList ".5-rc1".toList := by
    refine ⟨by decide, ?_, ?_⟩
    · rintro _ ⟨⟩
      decide
    · rintro _ ⟨⟩
      decide
  have unpointed : ¬PointBetween FilterQuery.isDigit "v12".toList := by
    rintro ⟨a, b, -, -, inside⟩
    have point : '.' ∈ "v12".toList := inside.subset (by simp)
    exact absurd point (by decide)
  have found : find? "4294967296.1, was 1.2.3".toList = some ⟨"4294967296".toList, "1".toList, none⟩ := by rfl
  obtain ⟨before, first⟩ := first_of_find? found
  have great : ∃ digits ∈ ["4294967296".toList, "1".toList], greatestWord32 < decimalValue digits := by decide
  exact ⟨⟨noise, texts_found.1 ⟨23, 1, 11⟩ _ _ (by decide) (by decide) (by decide) noise⟩,
    ⟨unpointed, texts_found.2.1 _ unpointed⟩, before, _, first, great, (texts_found.2.2 _ _ _ first great).1⟩

end Version
end FilterQuery
