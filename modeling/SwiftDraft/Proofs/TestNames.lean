import SwiftDraft.Proofs.Stamp
import SwiftDraft.Skeleton.Test
import Mathlib.Data.List.Forall2
import Mathlib.Data.List.Nodup
import Mathlib.Data.List.Perm.Subperm

/-!
# The names of tests

A unit test is named for its function, with a number behind it if an earlier test has the name
(`freshName_cases`), so no two unit tests share a name (`nodup_unitTests`). The integration test is
named without a look at the others: its name is also that of the unit test of a function
`integration`.
-/

namespace SwiftDraft.Skeleton

open Text
open Draft (DeclaredFunction)

theorem ofNat_injective : Function.Injective ofNat := by
  intro m n same
  rw [ofNat, ofNat, Nat.toList_repr, Nat.toList_repr] at same
  have values := congrArg (Nat.ofDigitChars 10 · 0) same
  simpa only [Nat.ofDigitChars_ten_toDigits] using values

theorem ofNat_ne_nil (n : Nat) : ofNat n ≠ [] := by
  rw [ofNat, Nat.toList_repr]
  exact Nat.toDigits_ne_nil

/-- The search stops at a number whose predecessors are taken, and with it only where the name is
free or the steps are used up. -/
theorem go_freshName (taken : List Text) (base : Text) (k n : Nat) :
    ∃ m, n ≤ m ∧ freshName.go taken base k n = base ++ ofNat m ∧
      (∀ i, n ≤ i → i < m → base ++ ofNat i ∈ taken) ∧ (base ++ ofNat m ∉ taken ∨ m = n + k) := by
  induction k generalizing n with
  | zero => exact ⟨n, Nat.le_refl n, rfl, fun i from_ below => by omega, Or.inr rfl⟩
  | succ k ih =>
    unfold freshName.go
    split
    · next here =>
      obtain ⟨m, le, found, below, free⟩ := ih (n + 1)
      refine ⟨m, by omega, found, fun i from_ less => ?_, free.imp_right (by omega)⟩
      rcases Nat.eq_or_lt_of_le from_ with rfl | later
      · exact here
      · exact below i later less
    · next free => exact ⟨n, Nat.le_refl n, rfl, fun i from_ below => by omega, Or.inl free⟩

/-- More names than are taken cannot all be taken. -/
theorem exists_free {taken : List Text} {base : Text} (plain : base ∈ taken) :
    ∃ n, 2 ≤ n ∧ n < 2 + taken.length ∧ base ++ ofNat n ∉ taken := by
  by_contra none
  push Not at none
  let names := base :: (List.range' 2 taken.length).map (base ++ ofNat ·)
  have distinct : names.Nodup := by
    refine List.nodup_cons.2 ⟨fun mem => ?_, (List.nodup_range' 1).map fun i j same => ?_⟩
    · obtain ⟨n, -, same⟩ := List.mem_map.1 mem
      exact ofNat_ne_nil n (List.append_right_eq_self.1 same)
    · exact ofNat_injective (List.append_cancel_left same)
  have allTaken : names ⊆ taken := by
    refine List.cons_subset.2 ⟨plain, fun name mem => ?_⟩
    obtain ⟨n, inRange, rfl⟩ := List.mem_map.1 mem
    obtain ⟨least, most⟩ := List.mem_range'_1.1 inRange
    exact none n least most
  have tooMany := (List.subperm_of_subset distinct allTaken).length_le
  rw [List.length_cons, List.length_map, List.length_range'] at tooMany
  omega

/-- A fresh name is the base, or the base with a number from 2 on if the base is taken. It is never
taken itself. -/
theorem freshName_cases (taken : List Text) (base : Text) :
    freshName taken base ∉ taken ∧
      (freshName taken base = base ∨
        base ∈ taken ∧ ∃ n, 2 ≤ n ∧ freshName taken base = base ++ ofNat n) := by
  unfold freshName
  split
  · next plain =>
    obtain ⟨m, least, found, below, free⟩ := go_freshName taken base taken.length 2
    have unused : base ++ ofNat m ∉ taken := by
      refine free.elim id fun last => ?_
      obtain ⟨n, from_, less, unused⟩ := exists_free plain
      exact absurd (below n from_ (last ▸ less)) unused
    rw [found]
    exact ⟨unused, Or.inr ⟨plain, m, least, rfl⟩⟩
  · next free => exact ⟨free, Or.inl rfl⟩

/-- The name of a function's unit test unless it is taken. -/
def baseName (f : DeclaredFunction) : Text := "test".toList ++ capitalized f.name

/-- A unit test of a function: named for it, if need be with a number, and made of its lines. -/
structure IsUnitTest (f : DeclaredFunction) (t : Test) : Prop where
  kind : t.kind = .unit
  body : t.body = method t.name (unitLines f)
  named : t.name = baseName f ∨ ∃ n, 2 ≤ n ∧ t.name = baseName f ++ ofNat n

theorem isUnitTest_unitTest (taken : List Text) (f : DeclaredFunction) :
    IsUnitTest f (unitTest taken f) :=
  ⟨rfl, rfl, (freshName_cases taken (baseName f)).2.imp_right And.right⟩

theorem isUnitTest_unitTests (taken : List Text) (fs : List DeclaredFunction) :
    List.Forall₂ IsUnitTest fs (unitTests taken fs) := by
  induction fs generalizing taken with
  | nil => exact .nil
  | cons f fs ih => exact .cons (isUnitTest_unitTest taken f) (ih _)

theorem exists_of_mem_unitTests {taken : List Text} {fs : List DeclaredFunction} {t : Test}
    (mem : t ∈ unitTests taken fs) : ∃ f ∈ fs, IsUnitTest f t := by
  induction fs generalizing taken with
  | nil => cases mem
  | cons f fs ih =>
    rcases List.mem_cons.1 mem with rfl | later
    · exact ⟨f, List.mem_cons_self, isUnitTest_unitTest taken f⟩
    · obtain ⟨g, inList, test⟩ := ih later
      exact ⟨g, List.mem_cons_of_mem f inList, test⟩

/-- Unit tests have names that are not taken, each a different one. -/
theorem nodup_unitTests (taken : List Text) (fs : List DeclaredFunction) :
    ((unitTests taken fs).map Test.name).Nodup ∧ ∀ t ∈ unitTests taken fs, t.name ∉ taken := by
  induction fs generalizing taken with
  | nil => exact ⟨List.nodup_nil, fun t mem => absurd mem List.not_mem_nil⟩
  | cons f fs ih =>
    obtain ⟨distinct, free⟩ := ih ((unitTest taken f).name :: taken)
    refine ⟨List.nodup_cons.2 ⟨fun mem => ?_, distinct⟩, List.forall_mem_cons.2 ⟨?_, ?_⟩⟩
    · obtain ⟨t, later, same⟩ := List.mem_map.1 mem
      exact free t later (same ▸ List.mem_cons_self)
    · exact (freshName_cases taken (baseName f)).1
    · exact fun t later inTaken => free t later (List.mem_cons_of_mem _ inTaken)

/-- The plain name for a function is taken before its turn or by it. -/
theorem baseName_mem {f : DeclaredFunction} {fs : List DeclaredFunction} (mem : f ∈ fs)
    (taken : List Text) :
    baseName f ∈ taken ∨ baseName f ∈ (unitTests taken fs).map Test.name := by
  induction fs generalizing taken with
  | nil => cases mem
  | cons g fs ih =>
    rcases List.mem_cons.1 mem with rfl | later
    · rcases (freshName_cases taken (baseName f)).2 with plain | ⟨inTaken, -⟩
      · exact Or.inr (List.mem_cons.2 (Or.inl plain.symm))
      · exact Or.inl inTaken
    · rcases ih later ((unitTest taken g).name :: taken) with inTaken | named
      · rcases List.mem_cons.1 inTaken with here | inTaken
        · exact Or.inr (List.mem_cons.2 (Or.inl here))
        · exact Or.inl inTaken
      · exact Or.inr (List.mem_cons_of_mem _ named)

def integrationName : Text := "testIntegration".toList

/-- The integration test of functions, if there are two. -/
def integrationTests : List DeclaredFunction → List Test
  | first :: second :: _ => [integrationTest first second]
  | _ => []

theorem names_integrationTests (fs : List DeclaredFunction) :
    (integrationTests fs).map Test.name = if 2 ≤ fs.length then [integrationName] else [] := by
  match fs with
  | [] => rfl
  | [_] => rfl
  | first :: second :: rest => exact (if_pos (Nat.le_add_left 2 rest.length)).symm

theorem kind_integrationTests {fs : List DeclaredFunction} {t : Test}
    (mem : t ∈ integrationTests fs) : t.kind = .integration := by
  unfold integrationTests at mem
  split at mem
  · rw [List.mem_singleton.1 mem]
    rfl
  · cases mem

/-- A function whose unit test is named as the integration test is. -/
def Namesake (f : DeclaredFunction) : Prop :=
  f.name = "integration".toList ∨ f.name = "Integration".toList

theorem toUpper_eq_iff {c : Char} : c.toUpper = 'I' ↔ c = 'i' ∨ c = 'I' := by
  have small : ∀ n < 123, (Char.ofNat n).toUpper = 'I' →
      Char.ofNat n = 'i' ∨ Char.ofNat n = 'I' := by decide
  refine ⟨fun upper => ?_, by rintro (rfl | rfl) <;> decide⟩
  by_cases letter : c.toNat < 123
  · have checked := small c.toNat letter
    rw [Char.ofNat_toNat] at checked
    exact checked upper
  · have same : c.toUpper = c := dif_neg fun range => letter (Nat.lt_succ_of_le range.2)
    exact Or.inr (same ▸ upper)

theorem baseName_eq_iff {f : DeclaredFunction} : baseName f = integrationName ↔ Namesake f := by
  have test : integrationName = "test".toList ++ 'I' :: "ntegration".toList := rfl
  have lower : "integration".toList = 'i' :: "ntegration".toList := rfl
  have upper : "Integration".toList = 'I' :: "ntegration".toList := rfl
  rw [baseName, test, List.append_right_inj, Namesake, lower, upper]
  cases f.name with
  | nil => simp [capitalized]
  | cons c r =>
    rw [capitalized, List.cons.injEq, List.cons.injEq, List.cons.injEq, toUpper_eq_iff,
      or_and_right]

/-- A number at its end tells a name from that of the integration test. -/
theorem numbered_ne (base : Text) (n : Nat) : base ++ ofNat n ≠ integrationName := by
  intro same
  have last : (ofNat n).getLast? = some 'n' := by
    have ends := congrArg List.getLast? same
    rwa [List.getLast?_append_of_ne_nil _ (ofNat_ne_nil n)] at ends
  exact absurd (isDigit_of_mem_ofNat (List.mem_of_getLast? last)) (by decide)

theorem integrationName_mem_iff (fs : List DeclaredFunction) :
    integrationName ∈ (unitTests [] fs).map Test.name ↔ ∃ f ∈ fs, Namesake f := by
  constructor
  · intro mem
    obtain ⟨t, made, same⟩ := List.mem_map.1 mem
    obtain ⟨f, inList, test⟩ := exists_of_mem_unitTests made
    rcases test.named with plain | ⟨n, -, numbered⟩
    · exact ⟨f, inList, baseName_eq_iff.1 (plain ▸ same)⟩
    · exact absurd (numbered ▸ same) (numbered_ne (baseName f) n)
  · rintro ⟨f, mem, namesake⟩
    rw [← baseName_eq_iff.2 namesake]
    exact (baseName_mem mem []).resolve_left List.not_mem_nil

/-- The tests of Swift text: one unit test for each function that is found, in order, and behind
them one integration test if there are at least two functions. No two unit tests share a name. All
names are different unless there are two functions and one of them is called as the integration test
is. -/
theorem tests_named (swift : Text) :
    let functions := (Draft.declarations swift).functions
    ∃ units, tests swift = units ++ integrationTests functions ∧
      List.Forall₂ IsUnitTest functions units ∧ (units.map Test.name).Nodup ∧
      (integrationTests functions).length = (if 2 ≤ functions.length then 1 else 0) ∧
      (∀ t ∈ integrationTests functions, t.kind = .integration) ∧
      (((tests swift).map Test.name).Nodup ↔
        (2 ≤ functions.length → ∀ f ∈ functions, ¬Namesake f)) := by
  intro functions
  have names := names_integrationTests functions
  have distinct := (nodup_unitTests [] functions).1
  have made : tests swift = unitTests [] functions ++ integrationTests functions := rfl
  refine ⟨unitTests [] functions, made, isUnitTest_unitTests [] functions, distinct, ?_, ?_, ?_⟩
  · have count := congrArg List.length names
    rw [List.length_map] at count
    rw [count]
    split <;> rfl
  · exact fun t => kind_integrationTests
  · rw [made, List.map_append, names]
    split
    · next many =>
      rw [← List.concat_eq_append, List.nodup_concat, integrationName_mem_iff]
      simp only [many, distinct, and_true, true_imp_iff, not_exists, not_and]
    · next few => simp only [List.append_nil, distinct, few, false_imp_iff]

/-- Swift text with a function `integration` and another one. -/
def integrationFunction : Text := "func integration() \x7b\n\x7d\nfunc run() \x7b\n\x7d\n".toList

/-- The unit test of a function `integration` and the integration test have the same name. -/
theorem integration_named_twice :
    (tests integrationFunction).map Test.name =
        ["testIntegration".toList, "testRun".toList, "testIntegration".toList] ∧
      ¬((tests integrationFunction).map Test.name).Nodup := by decide

end SwiftDraft.Skeleton
