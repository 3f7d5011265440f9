import SwiftDraft.Proofs.Folders
import SwiftDraft.Proofs.Words
import SwiftDraft.Workbench.Export

/-!
# Files replaced one after the other

An export writes files whose names are type names with an ending, so that the files and their
backups all have places of their own. A file is replaced as a whole, after a copy of what it held,
or nothing is changed (`writeTarget_cases`); `Wrote` is what becomes of a disk when several are
replaced.
-/

namespace SwiftDraft.Workbench

open Text
open Files (Disk Fault Location PlainName)

theorem isAlphanum_of_mem_capitalizedWord {word : Text} (plain : ∀ c ∈ word, c.isAlphanum) :
    ∀ c ∈ capitalizedWord word, c.isAlphanum := by
  cases word with
  | nil => simp [capitalizedWord]
  | cons c r =>
    obtain ⟨first, rest⟩ := List.forall_mem_cons.1 plain
    exact List.forall_mem_cons.2 ⟨isAlphanum_toUpper first, rest⟩

/-- A type name has ASCII letters and digits only. -/
theorem isAlphanum_of_mem_typeName (name : Text) : ∀ c ∈ typeName name, c.isAlphanum := by
  have joined : ∀ c ∈ ((name.splitOnP fun c => !c.isAlphanum).map capitalizedWord).flatten,
      c.isAlphanum := by
    simp only [List.mem_flatten, List.mem_map]
    rintro c ⟨_, ⟨word, mem, rfl⟩, hc⟩
    refine isAlphanum_of_mem_capitalizedWord ?_ c hc
    exact fun d hd => by simpa using of_mem_splitOnP mem d hd
  have script : ∀ c ∈ "Script".toList, c.isAlphanum := List.all_eq_true.1 (by decide)
  unfold typeName
  dsimp only
  generalize ((name.splitOnP fun c => !c.isAlphanum).map capitalizedWord).flatten = word at joined
  split
  · exact script
  · split
    · intro c hc
      rcases List.mem_append.1 hc with front | behind
      · exact script c front
      · exact joined c behind
    · exact joined

/-- A name of a file that an export writes. -/
def SwiftFile (n : Text) : Prop :=
  ∃ base : Text, (∀ c ∈ base, c.isAlphanum) ∧ n = base ++ ".swift".toList

theorem swiftFile_draftFile (name : Text) : SwiftFile (draftFile name) :=
  ⟨typeName name, isAlphanum_of_mem_typeName name, rfl⟩

theorem swiftFile_testsFile (name : Text) : SwiftFile (testsFile name) := by
  refine ⟨testsName name, ?_, rfl⟩
  intro c hc
  rcases List.mem_append.1 hc with front | behind
  · exact isAlphanum_of_mem_typeName name c front
  · have tests : ∀ c ∈ "Tests".toList, c.isAlphanum := List.all_eq_true.1 (by decide)
    exact tests c behind

theorem draftFile_ne_testsFile (name : Text) : draftFile name ≠ testsFile name := by
  intro same
  have short := congrArg List.length same
  simp [draftFile, testsFile, testsName] at short

section

variable {n m : Text}

theorem plainName_append {base ending : Text} (letters : ∀ c ∈ base, c.isAlphanum)
    (noSlash : '/' ∉ ending) (long : 2 < ending.length) : PlainName (base ++ ending) := by
  have length : 2 < (base ++ ending).length := by
    rw [List.length_append]
    omega
  refine ⟨?_, ?_, ?_, ?_⟩
  · intro mem
    rcases List.mem_append.1 mem with front | behind
    · exact absurd (letters _ front) (by decide)
    · exact noSlash behind
  all_goals
    intro same
    rw [same] at length
    simp at length

theorem SwiftFile.plain (h : SwiftFile n) : PlainName n := by
  obtain ⟨base, letters, rfl⟩ := h
  exact plainName_append letters (by decide) (by decide)

theorem SwiftFile.plain_backup (h : SwiftFile n) : PlainName (backupOf n) := by
  obtain ⟨base, letters, rfl⟩ := h
  rw [backupOf, List.append_assoc]
  exact plainName_append letters (by decide) (by decide)

/-- No file of an export has the name of a backup. -/
theorem SwiftFile.ne_backup (h : SwiftFile n) : n ≠ backupOf m := by
  obtain ⟨base, -, rfl⟩ := h
  intro same
  have last := congrArg List.getLast? same
  simp [backupOf, List.getLast?_append] at last

end

/-- A path of a file that an export writes to a folder. -/
def Target (folder path : Text) : Prop := ∃ n, SwiftFile n ∧ path = Files.join folder n

section

variable {d d' : Disk} {folder path other : Text}

theorem backupOf_join (n : Text) :
    backupOf (Files.join folder n) = Files.join folder (backupOf n) :=
  Files.join_append folder _

theorem Target.place_inj (d : Disk) (h : Target folder path) (h' : Target folder other)
    (same : d.place path = d.place other) : path = other := by
  obtain ⟨n, swift, rfl⟩ := h
  obtain ⟨m, swift', rfl⟩ := h'
  rw [d.place_join folder swift.plain, d.place_join folder swift'.plain] at same
  simp only [List.append_cancel_left_eq, List.cons.injEq, and_true] at same
  rw [same]

theorem Target.place_backup_inj (d : Disk) (h : Target folder path) (h' : Target folder other)
    (same : d.place (backupOf path) = d.place (backupOf other)) : path = other := by
  obtain ⟨n, swift, rfl⟩ := h
  obtain ⟨m, swift', rfl⟩ := h'
  rw [backupOf_join, backupOf_join, d.place_join folder swift.plain_backup,
    d.place_join folder swift'.plain_backup] at same
  simp only [List.append_cancel_left_eq, List.cons.injEq, and_true, backupOf,
    List.append_cancel_right_eq] at same
  rw [same]

theorem Target.place_ne_backup (d : Disk) (h : Target folder path) (h' : Target folder other) :
    d.place path ≠ d.place (backupOf other) := by
  obtain ⟨n, swift, rfl⟩ := h
  obtain ⟨m, swift', rfl⟩ := h'
  rw [backupOf_join, d.place_join folder swift.plain, d.place_join folder swift'.plain_backup]
  simp only [ne_eq, List.append_cancel_left_eq, List.cons.injEq, and_true]
  exact swift.ne_backup

/-- A path in a folder that is there can be followed on any disk with the folder, or on none. -/
theorem Target.locate_congr (h : Target folder path)
    (there : d.isFolder (Files.isAbsolute folder) (Files.steps folder) = true)
    (grows : d.Grows d') : d'.locate path = d.locate path := by
  obtain ⟨n, swift, rfl⟩ := h
  have same : d'.place folder = d.place folder := grows.place folder
  rw [Disk.locate_join there swift.plain, Disk.locate_join (grows.isFolder there) swift.plain, same]

theorem Target.locate_backup_congr (h : Target folder path)
    (there : d.isFolder (Files.isAbsolute folder) (Files.steps folder) = true)
    (grows : d.Grows d') : d'.locate (backupOf path) = d.locate (backupOf path) := by
  obtain ⟨n, swift, rfl⟩ := h
  have same : d'.place folder = d.place folder := grows.place folder
  rw [backupOf_join, Disk.locate_join there swift.plain_backup,
    Disk.locate_join (grows.isFolder there) swift.plain_backup, same]

theorem Target.isFolder (h : Target folder path) (accepts : d.Accepts path) :
    d.isFolder (Files.isAbsolute folder) (Files.steps folder) = true := by
  obtain ⟨n, swift, rfl⟩ := h
  exact Disk.isFolder_of_locate_join swift.plain accepts.1

end

/-- Whether a file can be replaced: one can be written there and, if one stands there, a backup can
be written beside it. -/
def Replaceable (d : Disk) (path : Text) : Prop :=
  d.Accepts path ∧ (d.has path = true → d.Accepts (backupOf path))

instance (d : Disk) (path : Text) : Decidable (Replaceable d path) :=
  inferInstanceAs (Decidable (_ ∧ (_ → _)))

/-- A file has taken the place of what stood at a path, which is now in the backups. -/
inductive Replaced (path : Text) (content : Bytes) (d : Disk) : Disk → List Text → Prop
  | fresh (accepts : d.Accepts path) (free : d.get? (d.place path) = none) :
      Replaced path content d (d.put (d.place path) (.file content)) []
  | kept {old : Bytes} (accepts : d.Accepts path)
      (stood : d.get? (d.place path) = some (.file old)) (room : d.Accepts (backupOf path)) :
      Replaced path content d
        ((d.put (d.place (backupOf path)) (.file old)).put (d.place path) (.file content))
        [backupOf path]

section

variable {d d' : Disk} {folder path other : Text} {content : Bytes} {backups : List Text}

/-- A file is replaced as a whole, or nothing is changed. -/
theorem writeTarget_cases (target : Target folder path) (text : Text) (d : Disk) (done : Exported) :
    (¬ Replaceable d path ∧
      ∃ f, writeTarget true path text d done = (d, .error (.exporting path f))) ∨
    (Replaceable d path ∧ ∃ d' backups, Replaced path (encodeUtf8 text) d d' backups ∧
      writeTarget true path text d done =
        (d', .ok ⟨done.written ++ [path], done.backups ++ backups⟩)) := by
  unfold writeTarget
  rw [Bool.true_and]
  by_cases stands : d.has path = true
  · rw [if_pos stands]
    obtain ⟨located, there⟩ := Disk.has_iff.1 stands
    obtain ⟨item, found⟩ := Option.isSome_iff_exists.1 there
    cases copied : d.copy path (backupOf path) with
    | error f =>
      refine .inl ⟨?_, f, rfl⟩
      rintro ⟨accepts, room⟩
      cases item with
      | folder => exact accepts.2 found
      | file old =>
        have copies := Disk.copy_eq_ok_iff.2
          ⟨old, Disk.read_eq_ok_iff.2 ⟨located, found⟩, Disk.write_eq_ok_iff.2 ⟨room stands, rfl⟩⟩
        rw [copied] at copies
        cases copies
    | ok d' =>
      obtain ⟨old, read, written⟩ := Disk.copy_eq_ok_iff.1 copied
      obtain ⟨-, stood⟩ := Disk.read_eq_ok_iff.1 read
      obtain ⟨room, rfl⟩ := Disk.write_eq_ok_iff.1 written
      have free : d.get? (d.place path) ≠ some .folder := by simp [stood]
      have apart : d.place path ≠ d.place (backupOf path) := target.place_ne_backup d target
      have grows := Disk.grows_put_file room.2 old
      have accepts : Disk.Accepts (d.put (d.place (backupOf path)) (.file old)) path := by
        rw [Disk.Accepts, grows.place, Disk.get?_put _ room.below, if_neg apart]
        exact ⟨grows.locate located, free⟩
      have rewritten : Disk.write _ path (encodeUtf8 text) = .ok _ :=
        Disk.write_eq_ok_iff.2 ⟨accepts, rfl⟩
      dsimp only
      rw [rewritten]
      exact .inr ⟨⟨⟨located, free⟩, fun _ => room⟩, _, _, .kept ⟨located, free⟩ stood room, rfl⟩
  · rw [if_neg stands]
    dsimp only
    cases written : d.write path (encodeUtf8 text) with
    | error f =>
      refine .inl ⟨?_, f, rfl⟩
      rintro ⟨accepts, -⟩
      rw [Disk.write_eq_ok_iff.2 ⟨accepts, rfl⟩] at written
      cases written
    | ok d' =>
      obtain ⟨accepts, rfl⟩ := Disk.write_eq_ok_iff.1 written
      have free : d.get? (d.place path) = none := by
        have missing := mt Disk.has_iff.2 stands
        simpa [accepts.1] using missing
      refine .inr ⟨⟨accepts, fun h => absurd h stands⟩, _, _, .fresh accepts free, ?_⟩
      rw [List.append_nil]

namespace Replaced

theorem accepts (h : Replaced path content d d' backups) : d.Accepts path := by
  cases h <;> assumption

theorem grows (target : Target folder path) (h : Replaced path content d d' backups) :
    d.Grows d' := by
  cases h with
  | fresh accepts free => exact Disk.grows_put_file accepts.2 content
  | @kept old accepts stood room =>
    have copied := Disk.grows_put_file room.2 old
    refine copied.trans (Disk.grows_put_file ?_ content)
    rw [Disk.get?_put _ room.below, if_neg (target.place_ne_backup d target)]
    exact accepts.2

theorem get?_other (h : Replaced path content d d' backups) {at_ : Location}
    (apart : at_ ≠ d.place path) (apartBackup : at_ ≠ d.place (backupOf path)) :
    d'.get? at_ = d.get? at_ := by
  have below := h.accepts.below
  cases h with
  | fresh => rw [Disk.get?_put _ below, if_neg apart]
  | kept _ _ room =>
    rw [Disk.get?_put _ below, if_neg apart, Disk.get?_put _ room.below, if_neg apartBackup]

theorem get?_self (h : Replaced path content d d' backups) :
    d'.get? (d.place path) = some (.file content) := by
  have below := h.accepts.below
  cases h <;> rw [Disk.get?_put _ below, if_pos rfl]

theorem read (target : Target folder path) (h : Replaced path content d d' backups) :
    d'.read path = .ok content := by
  have grows := h.grows target
  refine Disk.read_eq_ok_iff.2 ?_
  rw [grows.place]
  exact ⟨grows.locate h.accepts.1, h.get?_self⟩

/-- What stood at the path is in the backup. -/
theorem get?_backup (target : Target folder path) (h : Replaced path content d d' backups)
    {old : Bytes} (stood : d.get? (d.place path) = some (.file old)) :
    d'.get? (d.place (backupOf path)) = some (.file old) := by
  have apart : d.place (backupOf path) ≠ d.place path := (target.place_ne_backup d target).symm
  have below := h.accepts.below
  cases h with
  | fresh _ free =>
    rw [free] at stood
    cases stood
  | kept _ stood' room =>
    rw [stood'] at stood
    cases stood
    rw [Disk.get?_put _ below, if_neg apart, Disk.get?_put _ room.below, if_pos rfl]

theorem backups_eq (h : Replaced path content d d' backups) :
    backups = if (d.get? (d.place path)).isSome then [backupOf path] else [] := by
  cases h with
  | fresh _ free => simp [free]
  | kept _ stood => simp [stood]

variable (target : Target folder path) (target' : Target folder other) (ne : other ≠ path)
include target target' ne

/-- Another file of the folder and its backup are as they were. -/
theorem get?_place_other (h : Replaced path content d d' backups) :
    d'.get? (d.place other) = d.get? (d.place other) :=
  h.get?_other (fun same => ne (target'.place_inj d target same)) (target'.place_ne_backup d target)

theorem get?_backup_other (h : Replaced path content d d' backups) :
    d'.get? (d.place (backupOf other)) = d.get? (d.place (backupOf other)) :=
  h.get?_other (target.place_ne_backup d target').symm
    fun same => ne (target'.place_backup_inj d target same)

/-- Whether another file of the folder can be replaced is as it was. -/
theorem replaceable_other (h : Replaced path content d d' backups) :
    Replaceable d' other ↔ Replaceable d other := by
  have grows := h.grows target
  have there := target.isFolder h.accepts
  have accepts : d'.Accepts other ↔ d.Accepts other := by
    rw [Disk.Accepts, Disk.Accepts, grows.place, target'.locate_congr there grows,
      h.get?_place_other target target' ne]
  have room : d'.Accepts (backupOf other) ↔ d.Accepts (backupOf other) := by
    rw [Disk.Accepts, Disk.Accepts, grows.place, target'.locate_backup_congr there grows,
      h.get?_backup_other target target' ne]
  have has : d'.has other = true ↔ d.has other = true := by
    rw [Disk.has_iff, Disk.has_iff, grows.place, target'.locate_congr there grows,
      h.get?_place_other target target' ne]
  rw [Replaceable, Replaceable, accepts, room, has]

end Replaced

end

/-- Files have been replaced one after the other, with the backups that were made. -/
inductive Wrote : List (Text × Text) → Disk → Disk → List Text → Prop
  | nil (d : Disk) : Wrote [] d d []
  | cons {path text : Text} {rest : List (Text × Text)} {d d' d'' : Disk} {backups more : List Text}
      (first : Replaced path (encodeUtf8 text) d d' backups) (others : Wrote rest d' d'' more) :
      Wrote ((path, text) :: rest) d d'' (backups ++ more)

/-- Different files that an export writes to a folder. -/
structure Targets (folder : Text) (ts : List (Text × Text)) : Prop where
  each : ∀ t ∈ ts, Target folder t.1
  distinct : (ts.map Prod.fst).Nodup

section

variable {folder : Text} {t : Text × Text} {ts : List (Text × Text)} {d d' : Disk}
  {backups : List Text}

theorem Targets.head (h : Targets folder (t :: ts)) : Target folder t.1 :=
  h.each t List.mem_cons_self

theorem Targets.tail (h : Targets folder (t :: ts)) : Targets folder ts :=
  ⟨fun u hu => h.each u (List.mem_cons_of_mem _ hu), (List.nodup_cons.1 h.distinct).2⟩

theorem Targets.ne_head (h : Targets folder (t :: ts)) {u : Text × Text} (hu : u ∈ ts) :
    u.1 ≠ t.1 := by
  intro same
  exact (List.nodup_cons.1 h.distinct).1 (same ▸ List.mem_map_of_mem hu)

theorem Targets.front {front : List (Text × Text)} (h : Targets folder ts)
    (start : front <+: ts) : Targets folder front :=
  ⟨fun u hu => h.each u (start.subset hu), h.distinct.sublist (start.map _).sublist⟩

theorem writeTargets_cases (targets : Targets folder ts) (d : Disk) (done : Exported) :
    ((∃ t ∈ ts, ¬ Replaceable d t.1) ∧ ∃ front d' backups path f, front <+: ts ∧
      Wrote front d d' backups ∧
      writeTargets true ts d done = (d', .error (.exporting path f))) ∨
    ((∀ t ∈ ts, Replaceable d t.1) ∧ ∃ d' backups, Wrote ts d d' backups ∧
      writeTargets true ts d done =
        (d', .ok ⟨done.written ++ ts.map Prod.fst, done.backups ++ backups⟩)) := by
  induction ts generalizing d done with
  | nil => exact .inr ⟨by simp, d, [], .nil d, by simp [writeTargets]⟩
  | cons t ts ih =>
    obtain ⟨path, text⟩ := t
    unfold writeTargets
    rcases writeTarget_cases targets.head text d done with
      ⟨blocked, f, failed⟩ | ⟨fits, d', backups, replaced, written⟩
    · refine .inl ⟨⟨_, List.mem_cons_self, blocked⟩, [], d, [], path, f, List.nil_prefix, .nil d, ?_⟩
      rw [failed]
    · rw [written]
      dsimp only
      have later : ∀ u ∈ ts, (Replaceable d' u.1 ↔ Replaceable d u.1) := fun u hu =>
        replaced.replaceable_other targets.head (targets.tail.each u hu) (targets.ne_head hu)
      rcases ih targets.tail d' ⟨done.written ++ [path], done.backups ++ backups⟩ with
        ⟨⟨u, hu, blocked⟩, front, d'', more, path', f, start, wrote, failed⟩ |
        ⟨fit, d'', more, wrote, finished⟩
      · refine .inl ⟨⟨u, List.mem_cons_of_mem _ hu, fun fits => blocked ((later u hu).2 fits)⟩,
          (path, text) :: front, d'', backups ++ more, path', f, ?_, .cons replaced wrote, failed⟩
        exact List.cons_prefix_cons.2 ⟨rfl, start⟩
      · refine .inr ⟨?_, d'', backups ++ more, .cons replaced wrote, ?_⟩
        · exact List.forall_mem_cons.2 ⟨fits, fun u hu => (later u hu).1 (fit u hu)⟩
        · simpa using finished

namespace Wrote

theorem grows (targets : Targets folder ts) (h : Wrote ts d d' backups) : d.Grows d' := by
  induction h with
  | nil d => exact .refl d
  | cons first _ ih => exact (first.grows targets.head).trans (ih targets.tail)

theorem get?_other (targets : Targets folder ts) (h : Wrote ts d d' backups) {at_ : Location}
    (apart : ∀ t ∈ ts, at_ ≠ d.place t.1 ∧ at_ ≠ d.place (backupOf t.1)) :
    d'.get? at_ = d.get? at_ := by
  induction h with
  | nil => rfl
  | cons first _ ih =>
    obtain ⟨here, later⟩ := List.forall_mem_cons.1 apart
    have grows := first.grows targets.head
    rw [ih targets.tail ?_, first.get?_other here.1 here.2]
    intro u hu
    rw [grows.place, grows.place]
    exact later u hu

/-- What has changed is a file that was written or its backup. -/
theorem exists_of_changed (targets : Targets folder ts) (h : Wrote ts d d' backups)
    {at_ : Location} (changed : d'.get? at_ ≠ d.get? at_) :
    ∃ t ∈ ts, at_ = d.place t.1 ∨ at_ = d.place (backupOf t.1) := by
  refine Classical.byContradiction fun untouched => changed (h.get?_other targets fun t ht => ?_)
  exact ⟨fun same => untouched ⟨t, ht, .inl same⟩, fun same => untouched ⟨t, ht, .inr same⟩⟩

/-- A file of the folder that is not among those written is as it was, and so is its backup. -/
theorem get?_place_other (targets : Targets folder ts) (h : Wrote ts d d' backups) {other : Text}
    (target : Target folder other) (absent : other ∉ ts.map Prod.fst) :
    d'.get? (d.place other) = d.get? (d.place other) ∧
      d'.get? (d.place (backupOf other)) = d.get? (d.place (backupOf other)) := by
  have ne {t : Text × Text} (ht : t ∈ ts) : other ≠ t.1 := by
    rintro rfl
    exact absent (List.mem_map_of_mem ht)
  refine ⟨h.get?_other targets fun t ht => ⟨?_, ?_⟩, h.get?_other targets fun t ht => ⟨?_, ?_⟩⟩
  · exact fun same => ne ht (target.place_inj d (targets.each t ht) same)
  · exact target.place_ne_backup d (targets.each t ht)
  · exact ((targets.each t ht).place_ne_backup d target).symm
  · exact fun same => ne ht (target.place_backup_inj d (targets.each t ht) same)

/-- Whether a file of the folder that is not among those written can be replaced is as it was. -/
theorem replaceable_other (targets : Targets folder ts) (h : Wrote ts d d' backups) {other : Text}
    (target : Target folder other) (absent : other ∉ ts.map Prod.fst) :
    Replaceable d' other ↔ Replaceable d other := by
  induction h with
  | nil => rfl
  | cons first _ ih =>
    rw [List.map_cons, List.mem_cons, not_or] at absent
    rw [ih targets.tail absent.2, first.replaceable_other targets.head target absent.1]

/-- Each file that was written holds its content. -/
theorem read (targets : Targets folder ts) (h : Wrote ts d d' backups) :
    ∀ t ∈ ts, d'.read t.1 = .ok (encodeUtf8 t.2) := by
  induction h with
  | nil => simp
  | @cons path text rest d d₁ d₂ _ _ first others ih =>
    have absent : path ∉ rest.map Prod.fst := (List.nodup_cons.1 targets.distinct).1
    have grows := others.grows targets.tail
    refine List.forall_mem_cons.2 ⟨?_, ih targets.tail⟩
    obtain ⟨located, here⟩ := Disk.read_eq_ok_iff.1 (first.read targets.head)
    refine Disk.read_eq_ok_iff.2 ?_
    rw [grows.place, (others.get?_place_other targets.tail targets.head absent).1]
    exact ⟨grows.locate located, here⟩

/-- No file of the folder is lost: what it held is there, or in its backup. -/
theorem spares (targets : Targets folder ts) (h : Wrote ts d d' backups) {path : Text}
    (target : Target folder path) {old : Bytes} (stood : d.get? (d.place path) = some (.file old)) :
    d'.get? (d.place path) = some (.file old) ∨
      d'.get? (d.place (backupOf path)) = some (.file old) := by
  induction h with
  | nil => exact .inl stood
  | @cons first text rest d d₁ d₂ _ _ replaced others ih =>
    have grows := replaced.grows targets.head
    by_cases here : path = first
    · subst here
      have absent : path ∉ rest.map Prod.fst := (List.nodup_cons.1 targets.distinct).1
      right
      have kept := (others.get?_place_other targets.tail target absent).2
      rw [grows.place] at kept
      rw [kept]
      exact replaced.get?_backup target stood
    · have stood' : d₁.get? (d₁.place path) = some (.file old) := by
        rw [grows.place, replaced.get?_place_other targets.head target here, stood]
      have spared := ih targets.tail stood'
      rw [grows.place, grows.place] at spared
      exact spared

/-- The backups are those of the files that stood there before. -/
theorem backups_eq (targets : Targets folder ts) (h : Wrote ts d d' backups) :
    backups =
      ((ts.map Prod.fst).filter fun path => (d.get? (d.place path)).isSome).map backupOf := by
  induction h with
  | nil => rfl
  | @cons path text rest d d₁ d₂ _ _ replaced _ ih =>
    have grows := replaced.grows targets.head
    have same : ∀ other ∈ rest.map Prod.fst,
        (d₁.get? (d₁.place other)).isSome = (d.get? (d.place other)).isSome := by
      intro other mem
      obtain ⟨u, hu, rfl⟩ := List.mem_map.1 mem
      rw [grows.place, replaced.get?_place_other targets.head (targets.tail.each u hu)
        (targets.ne_head hu)]
    rw [ih targets.tail, replaced.backups_eq, List.filter_congr same, List.map_cons,
      List.filter_cons]
    split <;> rfl

end Wrote

end

end SwiftDraft.Workbench
