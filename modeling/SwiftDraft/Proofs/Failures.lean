import SwiftDraft.Proofs.Outputs

/-!
# Failures in batches

Where no two files have a product path in common, it depends on the disk before the run whether the
export of a file fails, not on the files in front (`Passes.blocked_other`). A file that cannot be
read or converted keeps no other from being reported and exported. A failed export ends the run: the
files in front of it have been dealt with, those behind it are left out
(`isolated_up_to_failed_export`).
-/

namespace SwiftDraft.CommandLine

open Text
open Files (Disk)
open Workbench (Record Status Target Targets Trouble)

/-- The ways in which a file of a run fails. -/
inductive Arguments.Fails (a : Arguments) (world : World) (file : Text) : Prop
  | unread {t : Trouble} (made : a.made world file = .error t)
  | unconverted {r : Record} (made : a.made world file = .ok r) (failed : r.status ≠ .success)
  | unexported (blocked : a.Blocked world world.disk file)

/-- Two files have no product path in common. -/
def Arguments.Apart (a : Arguments) (world : World) (file other : Text) : Prop :=
  ∀ t ∈ a.products world file, ∀ u ∈ a.products world other, t.1 ≠ u.1

instance (a : Arguments) (world : World) (file other : Text) :
    Decidable (a.Apart world file other) :=
  inferInstanceAs
    (Decidable (∀ t ∈ a.products world file, ∀ u ∈ a.products world other, t.1 ≠ u.1))

section

variable {a : Arguments} {world : World} {file other : Text} {files : List Text} {b b' : Batch}

theorem fails_iff :
    a.Fails world file ↔ a.converts world file = false ∨ a.Blocked world world.disk file := by
  constructor
  · intro fails
    cases fails with
    | unread made => exact .inl (by rw [Arguments.converts, made])
    | unconverted made failed => exact .inl (by rw [Arguments.converts, made]; simpa using failed)
    | unexported blocked => exact .inr blocked
  · rintro (fails | blocked)
    · cases made : a.made world file with
      | error t => exact .unread made
      | ok r =>
        rw [Arguments.converts, made] at fails
        exact .unconverted made (by simpa using fails)
    · exact .unexported blocked

theorem Arguments.Apart.symm (apart : a.Apart world file other) : a.Apart world other file :=
  fun u hu t ht same => apart t ht u hu same.symm

theorem not_mem_of_apart (apart : a.Apart world file other) {u : Text × Text}
    (hu : u ∈ a.products world other) : u.1 ∉ (a.products world file).map Prod.fst := by
  intro mem
  obtain ⟨t, ht, same⟩ := List.mem_map.1 mem
  exact apart t ht u hu same

theorem Passes.free (h : Passes a world file b b') : ¬ a.Blocked world b.disk file := by
  rintro ⟨folder, out, some, blocked⟩
  rcases h.stored with ⟨none, -⟩ | ⟨_, _, given, fits, -⟩
  · exact some none
  · cases out.symm.trans given
    exact blocked fits

/-- Whether the export of a file fails does not depend on one in front. -/
theorem Passes.blocked_other (h : Passes a world file b b') (apart : a.Apart world file other) :
    a.Blocked world b'.disk other ↔ a.Blocked world b.disk other := by
  refine exists_congr fun folder => and_congr_right fun out => and_congr_right fun _ => not_congr ?_
  rcases h.stored with ⟨-, same⟩ | ⟨_, _, given, fits, wrote⟩
  · rw [same]
  · cases out.symm.trans given
    refine Workbench.exportable_other (products_targets out) fits.1 wrote ?_
    refine List.forall_mem_map.2 fun u hu => ?_
    exact ⟨(products_targets out).each u hu, not_mem_of_apart apart hu⟩

section

variable {d d' : Disk} (h : Writes a world file d d') (apart : a.Apart world file other)
  {u : Text × Text} (hu : u ∈ a.products world other) {content : Bytes}
include h apart hu

theorem Writes.read_apart (before : d.read u.1 = .ok content) : d'.read u.1 = .ok content := by
  obtain ⟨folder, out, target⟩ := out_of_mem_products hu
  exact h.read_other out target (not_mem_of_apart apart hu) before

theorem Writes.file_apart :
    d'.get? (d'.place u.1) = some (.file content) ↔
      d.get? (d.place u.1) = some (.file content) := by
  obtain ⟨folder, out, target⟩ := out_of_mem_products hu
  exact h.file_other out target (not_mem_of_apart apart hu)

end

namespace PassesAll

variable {u : Text × Text} {content : Bytes}

theorem blocked_other (h : PassesAll a world files b b')
    (apart : ∀ file ∈ files, a.Apart world file other) :
    a.Blocked world b'.disk other ↔ a.Blocked world b.disk other := by
  induction h with
  | nil => rfl
  | cons first _ ih =>
    obtain ⟨here, later⟩ := List.forall_mem_cons.1 apart
    rw [ih later, first.blocked_other here]

/-- A batch gets through files whose exports do not fail. -/
theorem free (h : PassesAll a world files b b') (apart : files.Pairwise (a.Apart world)) :
    ∀ file ∈ files, ¬ a.Blocked world b.disk file := by
  induction h with
  | nil => simp
  | cons first _ ih =>
    obtain ⟨here, later⟩ := List.pairwise_cons.1 apart
    refine List.forall_mem_cons.2 ⟨first.free, fun other mem => ?_⟩
    rw [← first.blocked_other (here other mem)]
    exact ih later other mem

theorem read_apart (h : PassesAll a world files b b')
    (apart : ∀ file ∈ files, a.Apart world file other) (hu : u ∈ a.products world other)
    (before : b.disk.read u.1 = .ok content) : b'.disk.read u.1 = .ok content := by
  induction h with
  | nil => exact before
  | cons first _ ih =>
    obtain ⟨here, later⟩ := List.forall_mem_cons.1 apart
    exact ih later (first.writes.read_apart here hu before)

theorem file_apart (h : PassesAll a world files b b')
    (apart : ∀ file ∈ files, a.Apart world file other) (hu : u ∈ a.products world other) :
    b'.disk.get? (b'.disk.place u.1) = some (.file content) ↔
      b.disk.get? (b.disk.place u.1) = some (.file content) := by
  induction h with
  | nil => rfl
  | cons first _ ih =>
    obtain ⟨here, later⟩ := List.forall_mem_cons.1 apart
    rw [ih later, first.writes.file_apart here hu]

/-- What was made of each of the files is there in the end. -/
theorem reads (h : PassesAll a world files b b') (apart : files.Pairwise (a.Apart world)) :
    ∀ file ∈ files, ∀ t ∈ a.products world file, b'.disk.read t.1 = .ok (encodeUtf8 t.2) := by
  induction h with
  | nil => simp
  | cons first others ih =>
    obtain ⟨here, later⟩ := List.pairwise_cons.1 apart
    refine List.forall_mem_cons.2 ⟨fun t ht => ?_, ih later⟩
    exact others.read_apart (fun other mem => (here other mem).symm) ht (first.read t ht)

/-- A batch that gets through its files counts no failure exactly if none of them fails. -/
theorem failed_eq_zero_iff (h : PassesAll a world files (.start world) b)
    (apart : files.Pairwise (a.Apart world)) :
    b.failed = 0 ↔ ∀ file ∈ files, ¬ a.Fails world file := by
  have counted : b.failed = 0 ↔ ∀ file ∈ files, a.converts world file = true := by
    simp [h.failed, Batch.start, List.countP_eq_zero]
  rw [counted]
  refine forall₂_congr fun file mem => ?_
  have free : ¬ a.Blocked world world.disk file := h.free apart file mem
  simp [fails_iff, free]

end PassesAll

/-- A batch that halts leaves the files behind alone. -/
theorem Halts.file_behind (halts : Halts a world file b b')
    (before : PassesAll a world files (.start world) b)
    (apart : ∀ f ∈ files, a.Apart world f other) (apartFile : a.Apart world file other)
    {t : Text × Text} (ht : t ∈ a.products world other) (content : Bytes) :
    b'.disk.get? (b'.disk.place t.1) = some (.file content) ↔
      world.disk.get? (world.disk.place t.1) = some (.file content) := by
  rw [halts.writes.file_apart apartFile ht, before.file_apart apart ht]
  rfl

end

/-- A run whose files are apart ends with code 0 exactly if none of them fails. Files that cannot be
read or converted keep no other from being reported and exported. A failed export ends the run: the
files in front have been reported and exported, its own summary has been printed, and the files
behind it are neither reported nor exported. -/
theorem isolated_up_to_failed_export (a : Arguments) (world : World) (given : a.files ≠ [])
    (apart : a.files.Pairwise (a.Apart world)) :
    let finished := runWith a world
    (finished.code = 0 ↔ a.config.bad? = none ∧ ∀ file ∈ a.files, ¬ a.Fails world file) ∧
    (a.config.bad? = none →
      ((∀ file ∈ a.files, ¬ a.Blocked world world.disk file) ∧
        finished.output = a.files.flatMap (a.account world) ∧
        ∀ file ∈ a.files, ∀ t ∈ a.products world file,
          finished.disk.read t.1 = .ok (encodeUtf8 t.2)) ∨
      ∃ front file behind path fault, a.files = front ++ file :: behind ∧
        (∀ f ∈ front, ¬ a.Blocked world world.disk f) ∧ a.Blocked world world.disk file ∧
        finished.output = front.flatMap (a.account world) ++ [a.headline world file,
          fatal ("exporting ".toList ++ file)
            [(Trouble.exporting path fault).message world.shown, fault.text]] ∧
        (∀ f ∈ front, ∀ t ∈ a.products world f,
          finished.disk.read t.1 = .ok (encodeUtf8 t.2)) ∧
        ∀ f ∈ behind, ∀ t ∈ a.products world f, ∀ content,
          finished.disk.get? (finished.disk.place t.1) = some (.file content) ↔
            world.disk.get? (world.disk.place t.1) = some (.file content)) := by
  intro finished
  cases usable : a.config.bad? with
  | some bad =>
    have refused : finished.code = 1 := by
      rw [show finished = runWith a world from rfl, runWith, usable]
    simp [refused]
  | none =>
    have ran : finished = Batch.run a world := runWith_of_usable given usable world
    rcases run_cases a world with ⟨b, all, ended⟩ |
      ⟨front, file, behind, mid, b, _, _, split, before, halts, said, ended⟩
    · have free := all.free apart
      have code : (if 0 < b.failed then 1 else 0) = 0 ↔ b.failed = 0 := by
        split <;> omega
      rw [ran, ended]
      refine ⟨?_, fun _ => .inl ⟨free, all.output, all.reads apart⟩⟩
      dsimp only
      rw [code, all.failed_eq_zero_iff apart]
      simp
    · rw [split] at apart
      obtain ⟨apartFront, apartBehind, across⟩ := List.pairwise_append.1 apart
      obtain ⟨apartFile, -⟩ := List.pairwise_cons.1 apartBehind
      have toFile : ∀ f ∈ front, a.Apart world f file := fun f mem =>
        across f mem file List.mem_cons_self
      have blocked : a.Blocked world world.disk file :=
        (before.blocked_other toFile).1 halts.blocked
      obtain ⟨path, fault, reason⟩ := halts.ended
      cases said.symm.trans reason
      rw [ran, ended]
      refine ⟨?_, fun _ => .inr ⟨front, file, behind, path, fault, split, before.free apartFront,
        blocked, ?_, ?_, ?_⟩⟩
      · have fails : file ∈ a.files ∧ a.Fails world file := ⟨by simp [split], .unexported blocked⟩
        simp only [Nat.one_ne_zero, true_and, false_iff]
        exact fun none => none file fails.1 fails.2
      · simp only [halts.output, before.output, List.append_assoc]
        rfl
      · intro f mem t ht
        exact halts.writes.read_apart (toFile f mem).symm ht (before.reads apartFront f mem t ht)
      · intro f mem t ht content
        have toBehind : ∀ g ∈ front, a.Apart world g f := fun g hg =>
          across g hg f (List.mem_cons_of_mem _ mem)
        exact halts.file_behind before toBehind (apartFile f mem) ht content

/-- Two files that are exported to one folder. -/
def twoFiles : Arguments :=
  ⟨["a.py".toList, "b.py".toList], some "o".toList, none, none, true, false⟩

/-- A world in which there is nothing but the given items. -/
def worldOf (items : List (Files.Location × Files.Item)) : World where
  disk := ⟨items, []⟩
  input := []
  generatedAt := "now".toList
  elapsed := 0
  interpreter _ := Workbench.Provider.sketching
  shown _ := []

/-- The first file is missing. -/
def firstMissing : World := worldOf [(["b.py".toList], .file [])]

theorem isolated_up_to_failed_export_of_firstMissing :
    let finished := runWith twoFiles firstMissing
    finished.code ≠ 0 ∧
      finished.disk.read "o/B.swift".toList =
        .ok (encodeUtf8 (Draft.ofScript 4 "now".toList []).text) := by
  intro finished
  let draft := (Draft.ofScript 4 "now".toList []).text
  obtain ⟨apart, fails, free, made⟩ :
      twoFiles.files.Pairwise (twoFiles.Apart firstMissing) ∧
      twoFiles.converts firstMissing "a.py".toList = false ∧
      (∀ file ∈ twoFiles.files, ¬ twoFiles.Blocked firstMissing firstMissing.disk file) ∧
      ("o/B.swift".toList, draft) ∈ twoFiles.products firstMissing "b.py".toList := by
    decide +kernel
  obtain ⟨code, dealt⟩ := isolated_up_to_failed_export twoFiles firstMissing (by decide) apart
  refine ⟨fun fine => ?_, ?_⟩
  · exact (code.1 fine).2 _ List.mem_cons_self (fails_iff.2 (.inl fails))
  · rcases dealt rfl with ⟨-, -, reads⟩ | ⟨front, file, behind, _, _, split, -, blocked, -⟩
    · exact reads "b.py".toList (by decide) _ made
    · exact absurd blocked (free file (by simp [split]))

/-- Where the first file would be exported to, there is a folder. -/
def firstBlocked : World :=
  worldOf [(["a.py".toList], .file []), (["b.py".toList], .file []), (["o".toList], .folder),
    (["o".toList, "A.swift".toList], .folder)]

/-- The second file converts and could be exported, but is not even reported. -/
theorem unreported_behind_failed_export :
    let finished := runWith twoFiles firstBlocked
    twoFiles.files.Pairwise (twoFiles.Apart firstBlocked) ∧
      ¬ twoFiles.Fails firstBlocked "b.py".toList ∧
      twoFiles.headline firstBlocked "b.py".toList ∉ finished.output ∧
      ∀ t ∈ twoFiles.products firstBlocked "b.py".toList,
        finished.disk.read t.1 ≠ .ok (encodeUtf8 t.2) := by
  intro finished
  obtain ⟨apart, converts, free, unsaid, unwritten⟩ :
      twoFiles.files.Pairwise (twoFiles.Apart firstBlocked) ∧
      twoFiles.converts firstBlocked "b.py".toList = true ∧
      ¬ twoFiles.Blocked firstBlocked firstBlocked.disk "b.py".toList ∧
      twoFiles.headline firstBlocked "b.py".toList ∉ finished.output ∧
      ∀ t ∈ twoFiles.products firstBlocked "b.py".toList,
        (finished.disk.read t.1).toOption ≠ some (encodeUtf8 t.2) := by
    decide +kernel
  refine ⟨apart, ?_, unsaid, fun t ht same => unwritten t ht (congrArg Except.toOption same)⟩
  rw [fails_iff]
  rintro (fails | blocked)
  · exact absurd (converts.symm.trans fails) (by decide)
  · exact free blocked

end SwiftDraft.CommandLine
