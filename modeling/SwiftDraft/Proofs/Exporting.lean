import SwiftDraft.Proofs.Replacing

/-!
# What an export does to a disk

An export makes its folder and replaces its files there, up to the first that cannot be replaced
(`export_cases`). No file that stood there is lost, and nothing else is touched (`export_spares`).
-/

namespace SwiftDraft.Workbench

open Text
open Files (Disk Location)

/-- The files that an export of a record may write to a folder. -/
def Record.files (r : Record) (folder : Text) : List Text :=
  [draftFile r.name, testsFile r.name].map (Files.join folder)

/-- Whether files can be written to a folder: the folder can be made, if it is not there, and then
each file can be replaced. -/
def Exportable (d : Disk) (folder : Text) (paths : List Text) : Prop :=
  (d.makeFolders folder).2 = none ∧ ∀ path ∈ paths, Replaceable (d.makeFolders folder).1 path

instance (d : Disk) (folder : Text) (paths : List Text) : Decidable (Exportable d folder paths) :=
  inferInstanceAs (Decidable (_ ∧ _))

section

variable {r : Record} {draft : Draft} {folder : Text}

theorem target_of_mem_files {path : Text} (mem : path ∈ r.files folder) : Target folder path := by
  simp only [Record.files, List.map_cons, List.map_nil, List.mem_cons, List.not_mem_nil,
    or_false] at mem
  rcases mem with rfl | rfl
  · exact ⟨_, swiftFile_draftFile r.name, rfl⟩
  · exact ⟨_, swiftFile_testsFile r.name, rfl⟩

theorem targets_sublist (r : Record) (draft : Draft) (folder : Text) :
    ((r.targets draft folder).map Prod.fst).Sublist (r.files folder) := by
  unfold Record.targets Record.files
  split <;> simp

theorem targets_targets (r : Record) (draft : Draft) (folder : Text) :
    Targets folder (r.targets draft folder) := by
  have sublist := targets_sublist r draft folder
  have distinct : (r.files folder).Nodup := by
    have apart : Files.join folder (draftFile r.name) ≠ Files.join folder (testsFile r.name) :=
      fun same => draftFile_ne_testsFile r.name (Files.join_inj same)
    simpa [Record.files] using apart
  refine ⟨fun t ht => ?_, distinct.sublist sublist⟩
  exact target_of_mem_files (sublist.subset (List.mem_map_of_mem ht))

/-- An export replaces its files one after the other in the folder it has made, all of them exactly
if they can be written, and otherwise those in front of the first that cannot. -/
theorem export_cases (success : r.status = .success) (drafted : r.draft = some draft)
    (folder : Text) (d : Disk) :
    let paths := (r.targets draft folder).map Prod.fst
    ∃ front d' backups, front <+: r.targets draft folder ∧
      Wrote front (d.makeFolders folder).1 d' backups ∧
      ((¬ Exportable d folder paths ∧
          ∃ path f, r.export true folder d = (d', .error (.exporting path f))) ∨
        (Exportable d folder paths ∧ front = r.targets draft folder ∧
          r.export true folder d = (d', .ok ⟨paths, backups⟩))) := by
  intro paths
  unfold Record.export Exportable
  rw [success, drafted]
  rcases made : d.makeFolders folder with ⟨d₁, _ | f⟩
  · dsimp only
    rcases writeTargets_cases (targets_targets r draft folder) d₁ ⟨[], []⟩ with
      ⟨⟨t, ht, blocked⟩, front, d', backups, path, f, start, wrote, failed⟩ |
      ⟨fits, d', backups, wrote, finished⟩
    · refine ⟨front, d', backups, start, wrote, .inl ⟨?_, path, f, failed⟩⟩
      rintro ⟨-, fits⟩
      exact blocked (fits t.1 (List.mem_map_of_mem ht))
    · refine ⟨_, d', backups, List.prefix_rfl, wrote, .inr ⟨⟨rfl, ?_⟩, rfl, finished⟩⟩
      exact List.forall_mem_map.2 fits
  · exact ⟨[], d₁, [], List.nil_prefix, .nil d₁, .inl ⟨nofun, folder, f, rfl⟩⟩

theorem export_unfinished (unfinished : ¬ (r.status = .success ∧ r.draft.isSome)) (folder : Text)
    (d : Disk) : r.export true folder d = (d, .error (.notFinished r.id r.status)) := by
  unfold Record.export
  split
  · next success drafted => exact absurd ⟨success, by simp [drafted]⟩ unfinished
  · rfl

end

section

variable {folder : Text} {ts : List (Text × Text)} {d d' : Disk} {backups : List Text}

/-- What has changed is a folder that was made, a file that was written or its backup. -/
theorem exists_of_changed (targets : Targets folder ts)
    (wrote : Wrote ts (d.makeFolders folder).1 d' backups) {at_ : Location}
    (changed : d'.get? at_ ≠ d.get? at_) :
    (d.Passes folder at_ ∧ d.get? at_ = none ∧ d'.get? at_ = some .folder) ∨
      ∃ t ∈ ts, at_ = d.place t.1 ∨ at_ = d.place (backupOf t.1) := by
  have furnished := d.furnished_makeFolders folder
  by_cases early : (d.makeFolders folder).1.get? at_ = d.get? at_
  · rw [← early] at changed
    obtain ⟨t, ht, here⟩ := wrote.exists_of_changed targets changed
    rw [furnished.grows.place, furnished.grows.place] at here
    exact .inr ⟨t, ht, here⟩
  · obtain ⟨here, free, made⟩ := furnished.made at_ early
    exact .inl ⟨here, free, (wrote.grows targets).folder at_ made⟩

/-- Whether other files can be written to the folder does not change. -/
theorem exportable_other (targets : Targets folder ts) (made : (d.makeFolders folder).2 = none)
    (wrote : Wrote ts (d.makeFolders folder).1 d' backups) {paths : List Text}
    (apart : ∀ path ∈ paths, Target folder path ∧ path ∉ ts.map Prod.fst) :
    Exportable d' folder paths ↔ Exportable d folder paths := by
  have again := Disk.makeFolders_of_grows made (wrote.grows targets)
  unfold Exportable
  rw [again, made]
  refine and_congr_right fun _ => forall₂_congr fun path mem => ?_
  obtain ⟨target, absent⟩ := apart path mem
  exact wrote.replaceable_other targets target absent

/-- Other files of the folder are what they were, and there are no new ones. -/
theorem file_other (targets : Targets folder ts)
    (wrote : Wrote ts (d.makeFolders folder).1 d' backups) {path : Text}
    (target : Target folder path) (absent : path ∉ ts.map Prod.fst) (content : Bytes) :
    d'.get? (d'.place path) = some (.file content) ↔
      d.get? (d.place path) = some (.file content) := by
  have furnished := d.furnished_makeFolders folder
  rw [(wrote.grows targets).place, (wrote.get?_place_other targets target absent).1,
    furnished.grows.place]
  refine ⟨fun here => ?_, furnished.get?_of_some⟩
  by_cases same : (d.makeFolders folder).1.get? (d.place path) = d.get? (d.place path)
  · rw [← same, here]
  · obtain ⟨-, -, made⟩ := furnished.made _ same
    rw [made] at here
    cases here

/-- Other files of the folder are read as before. -/
theorem read_other (targets : Targets folder ts)
    (wrote : Wrote ts (d.makeFolders folder).1 d' backups) {path : Text}
    (target : Target folder path) (absent : path ∉ ts.map Prod.fst) {content : Bytes}
    (before : d.read path = .ok content) : d'.read path = .ok content := by
  have furnished := d.furnished_makeFolders folder
  have grows := furnished.grows.trans (wrote.grows targets)
  obtain ⟨located, here⟩ := Disk.read_eq_ok_iff.1 before
  refine Disk.read_eq_ok_iff.2 ⟨?_, (file_other targets wrote target absent content).2 here⟩
  rw [grows.place]
  exact grows.locate located

end

/-- An export with backups loses no file and touches nothing else, whether it succeeds or not. What
has changed is that folders were made where the folder's path passes and nothing stood, and the two
files and their backups. A file that stood at one of the two is there still, or is its backup. An
export that succeeds has written its files, each with its content, and made backups of those that
stood there. -/
theorem export_spares (r : Record) (folder : Text) (d : Disk) :
    let outcome := r.export true folder d
    (¬ (r.status = .success ∧ r.draft.isSome) →
      outcome = (d, .error (.notFinished r.id r.status))) ∧
    ∀ draft, r.status = .success → r.draft = some draft →
      (∀ at_, outcome.1.get? at_ ≠ d.get? at_ →
        (d.Passes folder at_ ∧ d.get? at_ = none ∧ outcome.1.get? at_ = some .folder) ∨
        ∃ file ∈ r.files folder, at_ = d.place file ∨ at_ = d.place (backupOf file)) ∧
      (∀ file ∈ r.files folder, ∀ old, d.get? (d.place file) = some (.file old) →
        outcome.1.get? (d.place file) = some (.file old) ∨
        outcome.1.get? (d.place (backupOf file)) = some (.file old)) ∧
      ∀ done, outcome.2 = .ok done →
        done.written = (r.targets draft folder).map Prod.fst ∧
        (∀ t ∈ r.targets draft folder, outcome.1.read t.1 = .ok (encodeUtf8 t.2)) ∧
        done.backups =
          (done.written.filter fun path => (d.get? (d.place path)).isSome).map backupOf := by
  intro outcome
  refine ⟨fun unfinished => export_unfinished unfinished folder d, ?_⟩
  intro draft success drafted
  obtain ⟨front, d', backups, start, wrote, ending⟩ := export_cases success drafted folder d
  have furnished := d.furnished_makeFolders folder
  have targets := (targets_targets r draft folder).front start
  have disk : outcome.1 = d' := by
    rcases ending with ⟨-, path, f, failed⟩ | ⟨-, -, finished⟩
    · exact congrArg Prod.fst failed
    · exact congrArg Prod.fst finished
  rw [disk]
  refine ⟨?_, ?_, ?_⟩
  · intro at_ changed
    refine (exists_of_changed targets wrote changed).imp_right ?_
    rintro ⟨t, ht, here⟩
    exact ⟨t.1, (targets_sublist r draft folder).subset (List.mem_map_of_mem (start.subset ht)),
      here⟩
  · intro file mem old stood
    have kept := furnished.get?_of_some stood
    rw [← furnished.grows.place file, ← furnished.grows.place (backupOf file)]
    exact wrote.spares targets (target_of_mem_files mem) (furnished.grows.place file ▸ kept)
  · intro done finished
    rcases ending with ⟨-, path, f, failed⟩ | ⟨exportable, rfl, written⟩
    · rw [show outcome = _ from failed] at finished
      cases finished
    · rw [show outcome = _ from written] at finished
      cases finished
      refine ⟨rfl, wrote.read targets, ?_⟩
      have existed := List.filter_congr fun path mem =>
        furnished.isSome_of_accepts (exportable.2 path mem).1
      exact (wrote.backups_eq targets).trans (congrArg _ existed)

/-- A folder in which one of the two files of a finished record stands. -/
def draftStands : Disk :=
  ⟨[(["out".toList], .folder),
    (["out".toList, "Values.swift".toList], .file (encodeUtf8 "old".toList))], []⟩

def finishedValues : Record :=
  { Record.new 0 "values".toList "x = 1\n".toList none with
    status := .success
    draft := some ⟨"let x = 1\n".toList, []⟩
    tests := [⟨"testX".toList, [], .unit⟩] }

theorem export_spares_of_draftStands :
    let outcome := finishedValues.export true "out".toList draftStands
    let file := "out/Values.swift".toList
    (outcome.1.get? (draftStands.place file) = some (.file (encodeUtf8 "old".toList)) ∨
      outcome.1.get? (draftStands.place (backupOf file)) =
        some (.file (encodeUtf8 "old".toList))) ∧
      ∃ done, outcome.2 = .ok done ∧ done.backups = [backupOf file] := by
  intro outcome file
  obtain ⟨-, spares⟩ := export_spares finishedValues "out".toList draftStands
  obtain ⟨-, kept, written⟩ := spares _ rfl rfl
  refine ⟨kept file (by decide) _ (by decide), ?_⟩
  have finished : outcome.2 = .ok
      ⟨[file, "out/ValuesTests.swift".toList], [backupOf file]⟩ := rfl
  exact ⟨_, finished, (written _ finished).2.2.trans (by decide)⟩

end SwiftDraft.Workbench
