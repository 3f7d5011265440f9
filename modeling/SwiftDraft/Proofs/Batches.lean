import SwiftDraft.Proofs.Exporting
import SwiftDraft.Proofs.Loading

/-!
# Batches

A batch reports on one file after the other. It gets through a file (`Passes`), whether that one has
converted or not, unless there is an export that fails: then it halts (`Halts`). So a batch gets
through all of its files, or through those in front of one at which it halts (`reportAll_cases`).
-/

namespace SwiftDraft.CommandLine

open Text
open Files (Disk)
open Shell (Output)
open Workbench (Bench Exportable Id Record Targets Trouble Wrote)

/-- Whether a file can be read and converts. -/
def Arguments.converts (a : Arguments) (world : World) (file : Text) : Bool :=
  match a.made world file with
  | .ok r => r.status = .success
  | .error _ => false

/-- The files that a run writes for one of its files, with their contents. There are some if it
converts and is exported. -/
def Arguments.products (a : Arguments) (world : World) (file : Text) : List (Text × Text) :=
  match a.out, a.made world file with
  | some folder, .ok r =>
    match r.status, r.draft with
    | .success, some draft => r.targets draft folder
    | _, _ => []
  | _, _ => []

/-- What is said about a file first: its summary, or why it cannot be read. -/
def Arguments.headline (a : Arguments) (world : World) (file : Text) : Output :=
  match a.made world file with
  | .error t => .err (line (file ++ ": ".toList ++ t.message world.shown))
  | .ok r => .out (line (r.summary a.debug))

/-- All that is said about a file that a batch gets through. -/
def Arguments.account (a : Arguments) (world : World) (file : Text) : List Output :=
  a.headline world file ::
    (a.products world file).map fun p => .out (line ("  wrote ".toList ++ p.1))

/-- Whether the export of a file fails on a disk. -/
def Arguments.Blocked (a : Arguments) (world : World) (d : Disk) (file : Text) : Prop :=
  ∃ folder, a.out = some folder ∧ a.products world file ≠ [] ∧
    ¬ Exportable d folder ((a.products world file).map Prod.fst)

instance (a : Arguments) (world : World) (d : Disk) (file : Text) :
    Decidable (a.Blocked world d file) :=
  inferInstanceAs (Decidable (∃ folder, folder ∈ a.out ∧ _))

/-- A batch has got through a file. What it writes is in a folder that was made first; if it writes
nothing the disk is as it was. -/
structure Passes (a : Arguments) (world : World) (file : Text) (b b' : Batch) : Prop where
  stored : (a.products world file = [] ∧ b'.disk = b.disk) ∨
    ∃ folder backups, a.out = some folder ∧
      Exportable b.disk folder ((a.products world file).map Prod.fst) ∧
      Wrote (a.products world file) (b.disk.makeFolders folder).1 b'.disk backups
  output : b'.output = b.output ++ a.account world file
  failed : b'.failed = b.failed + if a.converts world file then 0 else 1
  going : b'.ended = none

/-- A batch has ended at a file, whose export failed. -/
structure Halts (a : Arguments) (world : World) (file : Text) (b b' : Batch) : Prop where
  blocked : a.Blocked world b.disk file
  output : b'.output = b.output ++ [a.headline world file]
  ended : ∃ path fault, b'.ended =
    some ("exporting ".toList ++ file,
      [(Trouble.exporting path fault).message world.shown, fault.text])
  begun : ∃ folder front backups, a.out = some folder ∧ front <+: a.products world file ∧
    Wrote front (b.disk.makeFolders folder).1 b'.disk backups

section

variable {a : Arguments} {world : World} {bench : Bench} {file : Text} {b b' : Batch}

/-- A record that a run makes has failed, or it has succeeded and has a draft. -/
theorem made_cases {r : Record} (made : a.made world file = .ok r) :
    r.status = .failed ∨ ∃ draft, r.status = .success ∧ r.draft = some draft := by
  unfold Arguments.made at made
  split at made
  · cases made
  · next source read =>
    cases made
    cases (a.provider world).tree source with
    | error e => exact .inl rfl
    | ok tree => exact .inr ⟨_, rfl, rfl⟩

theorem products_of_not_converts (fails : a.converts world file = false) :
    a.products world file = [] := by
  unfold Arguments.converts at fails
  unfold Arguments.products
  split
  · next made =>
    rw [made] at fails
    split
    · next success _ => simp [success] at fails
    · rfl
  · rfl

theorem products_of_out_none (out : a.out = none) : a.products world file = [] := by
  rw [Arguments.products, out]

theorem products_targets {folder : Text} (out : a.out = some folder) :
    Targets folder (a.products world file) := by
  unfold Arguments.products
  rw [out]
  split
  · next given made =>
    cases given
    split
    · exact Workbench.targets_targets _ _ _
    · exact ⟨by simp, by simp⟩
  · exact ⟨by simp, by simp⟩

/-- A file without products is got through without a change of the disk. -/
theorem passes_of_products_nil (none : a.products world file = []) (disk : b'.disk = b.disk)
    (output : b'.output = b.output ++ [a.headline world file])
    (failed : b'.failed = b.failed + if a.converts world file then 0 else 1)
    (going : b'.ended = .none) : Passes a world file b b' where
  stored := .inl ⟨none, disk⟩
  output := by rw [output, Arguments.account, none, List.map_nil]
  failed := failed
  going := going

/-- The export of a record that has succeeded writes all of its files, or ends the batch. -/
theorem exportRecord_cases {r : Record} {draft : Draft} (success : r.status = .success)
    (drafted : r.draft = some draft) (shown : Id → Text) (folder file : Text) (b : Batch) :
    let ts := r.targets draft folder
    let made := (b.disk.makeFolders folder).1
    let b' := b.exportRecord shown folder file r
    (Exportable b.disk folder (ts.map Prod.fst) ∧ (∃ backups, Wrote ts made b'.disk backups) ∧
      b'.output = b.output ++ (ts.map fun t => .out (line ("  wrote ".toList ++ t.1))) ∧
      b'.failed = b.failed ∧ b'.ended = b.ended) ∨
    (¬ Exportable b.disk folder (ts.map Prod.fst) ∧
      (∃ front backups, front <+: ts ∧ Wrote front made b'.disk backups) ∧
      b'.output = b.output ∧
      ∃ path fault, b'.ended = some ("exporting ".toList ++ file,
        [(Trouble.exporting path fault).message shown, fault.text])) := by
  intro ts made b'
  have unfolded : b' = b.exportRecord shown folder file r := rfl
  unfold Batch.exportRecord at unfolded
  obtain ⟨front, d', backups, start, wrote, ⟨blocked, path, f, failed⟩ | ⟨fits, rfl, exported⟩⟩ :=
    Workbench.export_cases success drafted folder b.disk
  · rw [failed] at unfolded
    rw [unfolded]
    exact .inr ⟨blocked, ⟨front, backups, start, wrote⟩, rfl, path, f, rfl⟩
  · rw [exported] at unfolded
    rw [unfolded]
    refine .inl ⟨fits, ⟨backups, wrote⟩, ?_, rfl, rfl⟩
    dsimp only
    rw [List.map_map]
    rfl

theorem passes_or_halts_of_export {r : Record} {draft : Draft} {folder : Text}
    (out : a.out = some folder) (success : r.status = .success) (drafted : r.draft = some draft)
    (products : a.products world file = r.targets draft folder)
    (fine : a.converts world file = true) (going : b.ended = none) :
    let told := b.print (a.headline world file)
    let b' := told.exportRecord world.shown folder file r
    Passes a world file b b' ∨ Halts a world file b b' := by
  intro told b'
  rcases exportRecord_cases success drafted world.shown folder file told with
    ⟨fits, ⟨backups, wrote⟩, output, failed, ended⟩ | ⟨blocked, begun, output, ended⟩
  · refine .inl ⟨.inr ⟨folder, backups, out, ?_, ?_⟩, ?_, ?_, ended.trans going⟩
    · rw [products]
      exact fits
    · rw [products]
      exact wrote
    · rw [output, Arguments.account, products]
      exact List.append_assoc b.output [_] _
    · rw [failed, fine]
      rfl
  · obtain ⟨front, backups, start, wrote⟩ := begun
    refine .inr ⟨⟨folder, out, ?_, ?_⟩, output, ended, folder, front, backups, out, ?_, wrote⟩
    · rw [products]
      exact List.cons_ne_nil _ _
    · rw [products]
      exact blocked
    · rw [products]
      exact start

/-- A batch gets through a file or halts at it. -/
theorem report_cases {loaded : Loaded} (found : Found a world bench file loaded)
    (going : b.ended = none) :
    let b' := b.report a (a.surroundings world) bench file loaded
    Passes a world file b b' ∨ Halts a world file b b' := by
  intro b'
  cases found with
  | @unread t made =>
    have fails : a.converts world file = false := by rw [Arguments.converts, made]
    refine .inl (passes_of_products_nil (products_of_not_converts fails) rfl ?_ ?_ going)
    · rw [Arguments.headline, made]
      rfl
    · rw [fails]
      rfl
  | @shelved id r made here =>
    let told := b.print (a.headline world file)
    have reported : b' =
        if r.status ≠ .success then told.fail
        else a.out.elim told fun folder =>
          told.exportRecord world.shown folder file { r with id } := by
      change Batch.report a (a.surroundings world) bench file (.ok id) b = _
      simp only [told, Arguments.headline, made, Batch.report, here]
      cases a.out <;> rfl
    have converts : a.converts world file = decide (r.status = .success) := by
      rw [Arguments.converts, made]
    rw [reported]
    rcases made_cases made with failed | ⟨draft, success, drafted⟩
    · have fails : a.converts world file = false := by simp [converts, failed]
      rw [if_pos (by simp [failed])]
      refine .inl (passes_of_products_nil (products_of_not_converts fails) rfl rfl ?_ going)
      rw [fails]
      rfl
    · have fine : a.converts world file = true := by simp [converts, success]
      rw [if_neg (by simp [success])]
      cases out : a.out with
      | none =>
        refine .inl (passes_of_products_nil (products_of_out_none out) rfl rfl ?_ going)
        rw [fine]
        rfl
      | some folder =>
        have products : a.products world file = r.targets draft folder := by
          simp [Arguments.products, out, made, success, drafted]
        exact passes_or_halts_of_export (r := { r with id }) out success drafted products fine going

end

/-- A batch has got through files one after the other. -/
inductive PassesAll (a : Arguments) (world : World) : List Text → Batch → Batch → Prop
  | nil (b : Batch) : PassesAll a world [] b b
  | cons {file : Text} {files : List Text} {b b' b'' : Batch} (first : Passes a world file b b')
      (others : PassesAll a world files b' b'') : PassesAll a world (file :: files) b b''

section

variable {a : Arguments} {world : World} {bench : Bench} {files : List Text} {b b' : Batch}

theorem reportAll_of_ended (rest : List (Text × Loaded)) (ended : b.ended.isSome) :
    Batch.reportAll a (a.surroundings world) bench rest b = b := by
  cases rest with
  | nil => rfl
  | cons => rw [Batch.reportAll, if_pos ended]

/-- A batch gets through all of its files, or halts at one after it got through those in front. -/
theorem reportAll_cases {loaded : List Loaded}
    (found : List.Forall₂ (Found a world bench) files loaded) (going : b.ended = none) :
    let b' := Batch.reportAll a (a.surroundings world) bench (files.zip loaded) b
    PassesAll a world files b b' ∨
      ∃ front file behind mid, files = front ++ file :: behind ∧ PassesAll a world front b mid ∧
        Halts a world file mid b' := by
  induction found generalizing b with
  | nil => exact .inl (.nil b)
  | @cons file l files loaded here _ ih =>
    rw [List.zip_cons_cons]
    unfold Batch.reportAll
    rw [if_neg (by simp [going])]
    rcases report_cases here going with passes | halts
    · rcases ih passes.going with all | ⟨front, other, behind, mid, rfl, before, halts⟩
      · exact .inl (.cons passes all)
      · exact .inr ⟨file :: front, other, behind, mid, rfl, .cons passes before, halts⟩
    · obtain ⟨path, fault, ended⟩ := halts.ended
      rw [reportAll_of_ended _ (by simp [ended])]
      exact .inr ⟨[], file, files, b, rfl, .nil b, halts⟩

namespace PassesAll

theorem going (h : PassesAll a world files b b') (before : b.ended = none) : b'.ended = none := by
  induction h with
  | nil => exact before
  | cons first _ ih => exact ih first.going

theorem output (h : PassesAll a world files b b') :
    b'.output = b.output ++ files.flatMap (a.account world) := by
  induction h with
  | nil => simp
  | cons first _ ih => rw [ih, first.output, List.flatMap_cons, List.append_assoc]

theorem failed (h : PassesAll a world files b b') :
    b'.failed = b.failed + files.countP fun file => !a.converts world file := by
  induction h with
  | nil => simp
  | @cons file _ _ _ _ first _ ih =>
    rw [ih, first.failed, List.countP_cons]
    cases a.converts world file
    · simp only [Bool.false_eq_true, if_false, Bool.not_false, if_true]
      omega
    · simp

end PassesAll

/-- A batch before its first file. -/
def Batch.start (world : World) : Batch := ⟨world.disk, [], 0, none⟩

/-- A run gets through all of its files, or halts at one and says so. -/
theorem run_cases (a : Arguments) (world : World) :
    let finished := Batch.run a world
    (∃ b, PassesAll a world a.files (.start world) b ∧
      finished = ⟨if 0 < b.failed then 1 else 0, b.output, b.disk⟩) ∨
    ∃ front file behind mid b message causes, a.files = front ++ file :: behind ∧
      PassesAll a world front (.start world) mid ∧ Halts a world file mid b ∧
      b.ended = some (message, causes) ∧
      finished = ⟨1, b.output ++ [fatal message causes], b.disk⟩ := by
  intro finished
  have ran : finished = Batch.run a world := rfl
  unfold Batch.run at ran
  obtain ⟨found, -⟩ := loadAll_found a world a.files Bench.empty Workbench.fresh_empty
  rcases loadAll (a.surroundings world) world.disk Bench.empty a.files with ⟨loaded, bench⟩
  dsimp only at found ran
  rcases reportAll_cases (b := .start world) found rfl with
    all | ⟨front, file, behind, mid, split, before, halts⟩
  · refine .inl ⟨_, all, ?_⟩
    rw [ran]
    have going := all.going rfl
    unfold Batch.start at going ⊢
    rw [going]
  · obtain ⟨path, fault, ended⟩ := halts.ended
    refine .inr ⟨front, file, behind, mid, _, _, _, split, before, halts, ended, ?_⟩
    unfold Batch.start at ended ⊢
    rw [ran, ended]

end

end SwiftDraft.CommandLine
