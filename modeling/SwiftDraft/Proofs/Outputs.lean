import SwiftDraft.Proofs.Batches

/-!
# What batches leave on the disk

A file that a batch gets through leaves its products on the disk (`Passes.read`), and no file touches
what is not among its own products (`Writes.read_other`). So behind several files each path holds the
product that was written there last (`PassesAll.read`).
-/

namespace SwiftDraft.CommandLine

open Text
open Files (Disk)
open Workbench (Setting Target Wrote)

section

variable {a : Arguments} {world : World} {file : Text} {files : List Text} {b b' : Batch}

theorem out_of_mem_products {t : Text × Text} (mem : t ∈ a.products world file) :
    ∃ folder, a.out = some folder ∧ Target folder t.1 := by
  cases out : a.out with
  | none =>
    rw [products_of_out_none out] at mem
    cases mem
  | some folder => exact ⟨folder, rfl, (products_targets out).each t mem⟩

/-- The files that a script is exported to, with their contents: its draft and, if it has tests,
their suite. -/
def exportedAs (setting : Setting) (name source folder : Text) : List (Text × Text) :=
  let draft := Draft.ofScript setting.unit setting.generatedAt source
  let tests := Skeleton.tests draft.text
  (Files.join folder (Workbench.draftFile name), draft.text) ::
    (if tests.isEmpty then []
    else
      [(Files.join folder (Workbench.testsFile name),
        Skeleton.suite (Workbench.testsName name) tests)])

/-- A file converts if it can be read and there is a syntax tree for it. -/
theorem converts_iff : a.converts world file = true ↔
    ∃ source tree, world.disk.readText file = .ok source ∧
      (a.provider world).tree source = .ok tree := by
  unfold Arguments.converts Arguments.made
  cases world.disk.readText file with
  | error fault => simp
  | ok source =>
    cases grown : (a.provider world).tree source with
    | error e => simp [Workbench.Job.outcome, Workbench.Job.failed, grown]
    | ok tree => simp [Workbench.Job.outcome, Workbench.Job.succeeded, grown]

theorem products_of_read {source : Text} {tree : Tree}
    (read : world.disk.readText file = .ok source)
    (grown : (a.provider world).tree source = .ok tree) :
    a.products world file = a.out.toList.flatMap
      (exportedAs (a.surroundings world).setting (Workbench.scriptName file) source) := by
  cases out : a.out with
  | none => exact products_of_out_none out
  | some folder =>
    simp only [Arguments.products, Arguments.made, out, read, grown]
    exact (List.append_nil _).symm

/-- Nothing but products of a file has been written. -/
def Writes (a : Arguments) (world : World) (file : Text) (d d' : Disk) : Prop :=
  d' = d ∨ ∃ folder front backups, a.out = some folder ∧ front <+: a.products world file ∧
    Wrote front (d.makeFolders folder).1 d' backups

namespace Writes

variable {d d' : Disk} {folder path : Text} {content : Bytes}

/-- What else is read in the folder stays as it is. -/
theorem read_other (h : Writes a world file d d') (out : a.out = some folder)
    (target : Target folder path) (absent : path ∉ (a.products world file).map Prod.fst)
    (before : d.read path = .ok content) : d'.read path = .ok content := by
  rcases h with rfl | ⟨_, front, _, given, start, wrote⟩
  · exact before
  · cases out.symm.trans given
    refine Workbench.read_other ((products_targets out).front start) wrote target ?_ before
    exact fun mem => absent ((start.map _).subset mem)

/-- Other files of the folder are what they were, and there are no new ones. -/
theorem file_other (h : Writes a world file d d') (out : a.out = some folder)
    (target : Target folder path) (absent : path ∉ (a.products world file).map Prod.fst) :
    d'.get? (d'.place path) = some (.file content) ↔
      d.get? (d.place path) = some (.file content) := by
  rcases h with rfl | ⟨_, front, _, given, start, wrote⟩
  · rfl
  · cases out.symm.trans given
    refine Workbench.file_other ((products_targets out).front start) wrote target ?_ content
    exact fun mem => absent ((start.map _).subset mem)

end Writes

theorem Halts.writes (h : Halts a world file b b') : Writes a world file b.disk b'.disk :=
  .inr h.begun

namespace Passes

theorem writes (h : Passes a world file b b') : Writes a world file b.disk b'.disk := by
  rcases h.stored with ⟨-, same⟩ | ⟨folder, backups, out, -, wrote⟩
  · exact .inl same
  · exact .inr ⟨folder, _, backups, out, List.prefix_rfl, wrote⟩

/-- The products of a file hold what was made of it. -/
theorem read (h : Passes a world file b b') :
    ∀ t ∈ a.products world file, b'.disk.read t.1 = .ok (encodeUtf8 t.2) := by
  rcases h.stored with ⟨none, -⟩ | ⟨folder, _, out, -, wrote⟩
  · simp [none]
  · exact wrote.read (products_targets out)

end Passes

namespace PassesAll

variable {folder path : Text}

theorem read_other (h : PassesAll a world files b b') (out : a.out = some folder)
    (target : Target folder path)
    (absent : path ∉ (files.flatMap (a.products world)).map Prod.fst) {content : Bytes}
    (before : b.disk.read path = .ok content) : b'.disk.read path = .ok content := by
  induction h with
  | nil => exact before
  | cons first _ ih =>
    rw [List.flatMap_cons, List.map_append, List.mem_append, not_or] at absent
    exact ih absent.2 (first.writes.read_other out target absent.1 before)

/-- A path holds the product that was written there last. -/
theorem read (h : PassesAll a world files b b') {content : Text}
    (last : (files.flatMap (a.products world)).reverse.lookup path = some content) :
    b'.disk.read path = .ok (encodeUtf8 content) := by
  induction h with
  | nil => simp at last
  | @cons file rest _ _ _ first others ih =>
    rw [List.flatMap_cons, List.reverse_append, List.lookup_append, Option.or_eq_some_iff] at last
    rcases last with later | ⟨absent, here⟩
    · exact ih later
    · obtain ⟨before, behind, split, -⟩ := List.lookup_eq_some_iff.1 here
      have mem : (path, content) ∈ a.products world file := by
        rw [← List.mem_reverse, split]
        simp
      obtain ⟨folder, out, target⟩ := out_of_mem_products mem
      refine others.read_other out target ?_ (first.read _ mem)
      rw [List.lookup_eq_none_iff] at absent
      intro elsewhere
      obtain ⟨t, ht, rfl⟩ := List.mem_map.1 elsewhere
      simpa using absent t (List.mem_reverse.2 ht)

end PassesAll

end

theorem runWith_of_usable {a : Arguments} (given : a.files ≠ []) (usable : a.config.bad? = none)
    (world : World) : runWith a world = Batch.run a world := by
  rw [runWith, usable]
  dsimp only
  rw [if_neg (by simpa using given)]

/-- A run without failures gets through its files, all of which convert. -/
theorem passesAll_of_code {a : Arguments} {world : World} (given : a.files ≠ [])
    (fine : (runWith a world).code = 0) :
    ∃ b, PassesAll a world a.files (.start world) b ∧
      runWith a world = ⟨0, b.output, b.disk⟩ ∧ ∀ file ∈ a.files, a.converts world file = true := by
  cases usable : a.config.bad? with
  | some bad => simp [runWith, usable] at fine
  | none =>
    rw [runWith_of_usable given usable] at fine ⊢
    rcases run_cases a world with ⟨b, all, ran⟩ | ⟨_, _, _, _, _, _, _, _, _, _, _, ran⟩
    · rw [ran] at fine ⊢
      have failed : b.failed = 0 := by
        dsimp only at fine
        split at fine <;> omega
      refine ⟨b, all, by rw [failed]; rfl, ?_⟩
      rw [all.failed] at failed
      have none := List.countP_eq_zero.1 (Nat.eq_zero_of_add_eq_zero_left failed)
      simpa using none
    · simp [ran] at fine

/-- A run that ends with code 0 has read and converted all of its files, and reports for each of
them what it wrote: its draft and its suite. In the end a path that was reported holds what was
written there last. So each file's own products are there if and only if no two products of one path
differ. -/
theorem reported_paths_hold_last (a : Arguments) (world : World) (given : a.files ≠ [])
    (fine : (runWith a world).code = 0) :
    let finished := runWith a world
    let products := a.files.flatMap (a.products world)
    (∀ file ∈ a.files, ∃ source, world.disk.readText file = .ok source ∧
      a.products world file = a.out.toList.flatMap
        (exportedAs (a.surroundings world).setting (Workbench.scriptName file) source)) ∧
    finished.output = a.files.flatMap (a.account world) ∧
    (∀ t ∈ products, ∃ content, products.reverse.lookup t.1 = some content ∧
      finished.disk.read t.1 = .ok (encodeUtf8 content)) ∧
    ((∀ t ∈ products, finished.disk.read t.1 = .ok (encodeUtf8 t.2)) ↔
      ∀ t ∈ products, ∀ u ∈ products, t.1 = u.1 → encodeUtf8 t.2 = encodeUtf8 u.2) := by
  intro finished products
  obtain ⟨b, all, ran, converts⟩ := passesAll_of_code given fine
  have output : finished.output = a.files.flatMap (a.account world) := by
    rw [show finished = _ from ran]
    exact all.output
  have disk : finished.disk = b.disk := by rw [show finished = _ from ran]
  have last : ∀ t ∈ products, ∃ content, products.reverse.lookup t.1 = some content ∧
      finished.disk.read t.1 = .ok (encodeUtf8 content) := by
    intro t mem
    have found : (products.reverse.lookup t.1).isSome :=
      List.lookup_isSome_iff.2 ⟨t, List.mem_reverse.2 mem, beq_self_eq_true t.1⟩
    obtain ⟨content, here⟩ := Option.isSome_iff_exists.1 found
    exact ⟨content, here, disk ▸ all.read here⟩
  refine ⟨?_, output, last, ?_, ?_⟩
  · intro file mem
    obtain ⟨source, tree, read, grown⟩ := converts_iff.1 (converts file mem)
    exact ⟨source, read, products_of_read read grown⟩
  · intro own t ht u hu same
    have read := own t ht
    rw [same, own u hu] at read
    exact (Except.ok.inj read).symm
  · intro agree t ht
    obtain ⟨content, here, read⟩ := last t ht
    obtain ⟨before, behind, split, -⟩ := List.lookup_eq_some_iff.1 here
    have mem : (t.1, content) ∈ products := by
      rw [← List.mem_reverse, split]
      simp
    rw [read, agree t ht _ mem rfl]

/-- Two files whose names differ in the case of one letter. -/
def namesakes : Arguments :=
  ⟨["a.py".toList, "A.py".toList], some "o".toList, none, none, true, false⟩

def namesakesWorld : World where
  disk := ⟨[(["a.py".toList], .file []), (["A.py".toList], .file (encodeUtf8 "x".toList))], []⟩
  input := []
  generatedAt := "now".toList
  elapsed := 0
  interpreter _ := Workbench.Provider.sketching
  shown _ := []

theorem reported_paths_hold_last_of_namesakes :
    (runWith namesakes namesakesWorld).disk.read "o/A.swift".toList =
      .ok (encodeUtf8 (Draft.ofScript 4 "now".toList "x".toList).text) := by
  let products := namesakes.files.flatMap (namesakes.products namesakesWorld)
  let draft := (Draft.ofScript 4 "now".toList "x".toList).text
  obtain ⟨fine, mem, found⟩ : (runWith namesakes namesakesWorld).code = 0 ∧
      ("o/A.swift".toList, draft) ∈ products ∧
      products.reverse.lookup "o/A.swift".toList = some draft := by decide +kernel
  obtain ⟨-, -, last, -⟩ := reported_paths_hold_last namesakes namesakesWorld (by decide) fine
  obtain ⟨content, here, read⟩ := last _ mem
  cases found.symm.trans here
  exact read

/-- What was made of the first of two namesakes is reported and yet overwritten. -/
theorem namesake_overwritten :
    let finished := runWith namesakes namesakesWorld
    let draft := (Draft.ofScript 4 "now".toList []).text
    finished.code = 0 ∧
      ("o/A.swift".toList, draft) ∈ namesakes.products namesakesWorld "a.py".toList ∧
      .out (line "  wrote o/A.swift".toList) ∈ finished.output ∧
      finished.disk.read "o/A.swift".toList ≠ .ok (encodeUtf8 draft) := by
  intro finished draft
  obtain ⟨fine, made, reported, differs⟩ : finished.code = 0 ∧
      ("o/A.swift".toList, draft) ∈ namesakes.products namesakesWorld "a.py".toList ∧
      .out (line "  wrote o/A.swift".toList) ∈ finished.output ∧
      (finished.disk.read "o/A.swift".toList).toOption ≠ some (encodeUtf8 draft) := by
    decide +kernel
  exact ⟨fine, made, reported, fun same => differs (congrArg Except.toOption same)⟩

end SwiftDraft.CommandLine
