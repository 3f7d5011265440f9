import SwiftDraft.Proofs.Loading
import SwiftDraft.Shell.Session

/-!
# What commands do to a session

In a session the ids of the records stay distinct and the next id stays new, whatever is typed and
pasted (`sound_of_reachable`). So a load adds one record behind the others, a removal takes away the
one at the given position, and no other command touches the records. A command that fails leaves
everything but the disk as it was (`command_effects`).
-/

namespace SwiftDraft

namespace Workbench

open Interpreter (TreeError)

section

variable {setting : Setting} {job : Job} {bench bench' : Bench} {stage : Stage} {rs : List Record}
  {id : Id}

theorem take_ne_begin (next : Status) (f : Record → Option Record) :
    (job.take bench next f).2 ≠ .begin := by
  unfold Job.take
  split <;> nofun

/-- A load begins only once. -/
theorem step_ne_begin (later : stage ≠ .begin) : (job.step setting bench stage).2 ≠ .begin := by
  cases stage with
  | begin => exact absurd rfl later
  | announce status => exact after_ne_begin status
  | survey =>
    unfold Job.step
    dsimp only
    split <;> nofun
  | ask | select | done => nofun
  | convert | fail | test | succeed => exact take_ne_begin _ _

theorem changeIn_concat {f : Record → Option Record} {r : Record} (front : ∀ x ∈ rs, x.id ≠ id)
    (own : r.id = id) :
    Shelf.changeIn id f (rs ++ [r]) = (f r).map fun r' => rs ++ [r'] := by
  induction rs with
  | nil => simp [Shelf.changeIn, own]
  | cons x rs ih =>
    obtain ⟨other, front⟩ := List.forall_mem_cons.1 front
    rw [List.cons_append, Shelf.changeIn, if_neg other, ih front, Option.map_map]
    rfl

/-- The last record belongs to a job, and the others are given. -/
def EndsIn (job : Job) (rs : List Record) (bench : Bench) : Prop :=
  ∃ r, bench.shelf.records = rs ++ [r] ∧ r.id = job.id

theorem Effect.endsIn (e : Effect job bench stage bench') (later : stage ≠ .begin)
    (front : ∀ x ∈ rs, x.id ≠ job.id) (ends : EndsIn job rs bench) : EndsIn job rs bench' := by
  cases e with
  | nothing | announce | select => exact ends
  | push => exact absurd rfl later
  | change _ keeps changed =>
    obtain ⟨r, shape, own⟩ := ends
    obtain ⟨records, found, rfl⟩ := Option.map_eq_some_iff.1 changed
    rw [shape, changeIn_concat front own] at found
    obtain ⟨r', made, rfl⟩ := Option.map_eq_some_iff.1 found
    exact ⟨r', rfl, (congrArg Job.id (keeps r r' made)).trans own⟩

theorem endsIn_run (n : Nat) (later : stage ≠ .begin) (front : ∀ x ∈ rs, x.id ≠ job.id)
    (ends : EndsIn job rs bench) : EndsIn job rs (job.run setting n (bench, stage)).1 := by
  induction n generalizing bench stage with
  | zero => exact ends
  | succ n ih =>
    rw [run_succ]
    exact ih (step_ne_begin later) ((step_effect setting job bench stage).endsIn later front ends)

/-- A load adds the record of its outcome behind the others. -/
theorem load_records (fresh : bench.Fresh) (provider : Text → Except TreeError Tree)
    (name source : Text) (origin : Option Text) :
    (bench.load setting provider name source origin).2.shelf.records =
      bench.shelf.records ++
        [Job.outcome setting ⟨bench.nextId, name, source, origin⟩ (provider source)] := by
  let job : Job := ⟨bench.nextId, name, source, origin⟩
  have front : ∀ x ∈ bench.shelf.records, x.id ≠ job.id :=
    Shelf.get?_eq_none_iff.1 (fresh _ (Nat.le_refl _))
  obtain ⟨-, -, found, -⟩ := load_outcome setting bench fresh provider name source origin
  have ends : EndsIn job bench.shelf.records
      (bench.load setting provider name source origin).2 := by
    apply endsIn_run _ (answered_ne_begin _) front
    have announces : Stage.announce .analyzing ≠ .begin := nofun
    rw [Job.enough, run_succ]
    apply endsIn_run 15 announces front
    exact ⟨Record.new job.id job.name job.source job.origin, rfl, rfl⟩
  obtain ⟨r, shape, own⟩ := ends
  have skipped : bench.shelf.records.find? (fun x => x.id = bench.nextId) = none := by
    simpa using front
  have last : r = job.outcome setting (provider source) := by
    have here : r.id = bench.nextId := own
    rw [Shelf.get?, shape, List.find?_append, skipped, Option.none_or] at found
    simpa [here] using found
  rw [shape, last]

theorem id_outcome (setting : Setting) (job : Job) (answer : Except TreeError Tree) :
    (job.outcome setting answer).id = job.id := by
  cases answer <;> rfl

theorem eraseP_eq_eraseIdx (nodup : (rs.map Record.id).Nodup) {i : Nat} {r : Record}
    (stands : rs[i]? = some r) : rs.eraseP (fun x => x.id = r.id) = rs.eraseIdx i := by
  induction rs generalizing i with
  | nil => cases stands
  | cons x rs ih =>
    obtain ⟨apart, nodup⟩ := List.nodup_cons.1 nodup
    cases i with
    | zero =>
      cases stands
      rw [List.eraseP_cons_of_pos (by simp), List.eraseIdx_cons_zero]
    | succ i =>
      have other : x.id ≠ r.id := by
        intro same
        exact apart (same ▸ List.mem_map_of_mem (List.mem_of_getElem? stands))
      rw [List.eraseP_cons_of_neg (by simpa using other), List.eraseIdx_cons_succ, ih nodup stands]

theorem records_remove_at {s : Shelf} (distinct : s.Distinct) {i : Nat} {r : Record}
    (stands : s.records[i]? = some r) : (s.remove r.id).records = s.records.eraseIdx i := by
  have found := Shelf.get?_of_mem distinct (List.mem_of_getElem? stands)
  rw [← eraseP_eq_eraseIdx distinct stands, Shelf.remove, found]
  rfl

/-- The ids of the records are distinct, and the next ones are not in use. -/
structure Bench.Sound (bench : Bench) : Prop where
  distinct : bench.shelf.Distinct
  fresh : bench.Fresh

theorem sound_empty : Bench.empty.Sound := ⟨List.nodup_nil, fresh_empty⟩

theorem sound_load (sound : bench.Sound) (provider : Text → Except TreeError Tree)
    (name source : Text) (origin : Option Text) :
    (bench.load setting provider name source origin).2.Sound := by
  refine ⟨?_, fresh_load sound.fresh provider name source origin⟩
  have new := Shelf.get?_eq_none_iff.1 (sound.fresh _ (Nat.le_refl _))
  rw [Shelf.Distinct, load_records sound.fresh, List.map_append, List.map_singleton, id_outcome,
    ← List.concat_eq_append]
  refine sound.distinct.concat ?_
  intro used
  obtain ⟨r, mem, same⟩ := List.mem_map.1 used
  exact new r mem same

theorem sound_remove (sound : bench.Sound) (id : Id) : (bench.remove id).2.Sound := by
  have kept : (bench.shelf.remove id).records = bench.shelf.records.filter fun r => r.id ≠ id :=
    Shelf.records_remove sound.distinct id
  constructor
  · change ((bench.shelf.remove id).records.map Record.id).Nodup
    rw [kept]
    exact sound.distinct.sublist (List.filter_sublist.map Record.id)
  · intro later used
    rw [Shelf.get?_eq_none_iff]
    intro r mem
    have stood : r ∈ bench.shelf.records := (List.mem_filter.1 (kept ▸ mem)).1
    exact Shelf.get?_eq_none_iff.1 (sound.fresh later used) r stood

end

end Workbench

namespace Shell

open Text
open Files (Disk)
open Workbench (Bench Job Record)

namespace Session

/-- A command that only looks at the session. -/
def Looks : Command → Prop
  | .quit | .quiet | .load _ | .remove _ | .export _ _ => False
  | _ => True

/-- What a command makes of a session, and what it answers. -/
inductive Handled (env : Surroundings) (s : Session) :
    Command → Session → Except Problem Text → Prop
  | looked {c : Command} {answer : Except Problem Text} (looks : Looks c) : Handled env s c s answer
  | quit {text : Text} : Handled env s .quit { s with running := false } (.ok text)
  | quiet {text : Text} : Handled env s .quiet { s with quiet := !s.quiet } (.ok text)
  | loaded {path source text : Text} (read : s.disk.readText path = .ok source) :
      Handled env s (.load path)
        { s with
          bench := (s.bench.load env.setting env.provider.tree (Workbench.scriptName path) source
            (some path)).2 }
        (.ok text)
  | unread {path : Text} {fault : Files.Fault} (read : s.disk.readText path = .error fault) :
      Handled env s (.load path) s (.error (.trouble (.reading path fault)))
  | removed {i : Nat} {r : Record} {text : Text} (stands : s.records[i]? = some r) :
      Handled env s (.remove (i + 1)) { s with bench := (s.bench.remove r.id).2 } (.ok text)
  | missing {n : Nat} {p : Problem} (beyond : s.records.length < n ∨ n = 0) :
      Handled env s (.remove n) s (.error p)
  | exported {n : Nat} {folder : Text} {disk : Disk} {answer : Except Problem Text} :
      Handled env s (.export n folder) { s with disk } answer

section

variable {env : Surroundings} {s s' : Session} {c : Command} {answer : Except Problem Text}

theorem nth_eq_ok {n : Nat} {r : Record} (h : s.nth n = .ok r) :
    ∃ i, n = i + 1 ∧ s.records[i]? = some r := by
  cases n with
  | zero => cases h
  | succ i =>
    rw [nth] at h
    split at h
    · next r' stands =>
      cases h
      exact ⟨i, rfl, stands⟩
    · cases h

theorem nth_eq_error {n : Nat} {p : Problem} (h : s.nth n = .error p) :
    s.records.length < n ∨ n = 0 := by
  cases n with
  | zero => exact Or.inr rfl
  | succ i =>
    rw [nth] at h
    split at h
    · cases h
    · next absent =>
      have beyond := List.getElem?_eq_none_iff.1 absent
      exact Or.inl (by omega)

theorem load_of_unread {path : Text} {fault : Files.Fault}
    (read : s.disk.readText path = .error fault) :
    s.load env path = (s, .error (.trouble (.reading path fault))) := by
  rw [load, Bench.loadFile, read]

/-- The record of a load is there when it is asked for. -/
theorem load_of_read (env : Surroundings) (sound : s.bench.Sound) {path source : Text}
    (read : s.disk.readText path = .ok source) :
    ∃ text, s.load env path =
      ({ s with
          bench := (s.bench.load env.setting env.provider.tree (Workbench.scriptName path) source
            (some path)).2 },
        .ok text) := by
  obtain ⟨named, -, found, -⟩ := Workbench.load_outcome env.setting s.bench sound.fresh
    env.provider.tree (Workbench.scriptName path) source (some path)
  rw [← named] at found
  rw [load, Bench.loadFile, read]
  simp only [Bench.require, found]
  exact ⟨_, rfl⟩

theorem remove_of_stands (sound : s.bench.Sound) {i : Nat} {r : Record}
    (stands : s.records[i]? = some r) :
    ∃ text, s.remove r = ({ s with bench := (s.bench.remove r.id).2 }, .ok text) := by
  have found := Workbench.Shelf.get?_of_mem sound.distinct (List.mem_of_getElem? stands)
  rw [remove, Bench.remove, found]
  exact ⟨_, rfl⟩

theorem exists_exportTo (s : Session) (r : Record) (folder : Text) :
    ∃ disk answer, s.exportTo r folder = ({ s with disk }, answer) := by
  unfold exportTo
  split
  · next disk done _ => exact ⟨disk, _, rfl⟩
  · next disk t _ => exact ⟨disk, _, rfl⟩

/-- A command does one of these things in a session whose bench is in order. -/
theorem handled (sound : s.bench.Sound) (env : Surroundings) (c : Command) :
    Handled env s c (s.handle env c).1 (s.handle env c).2 := by
  cases c with
  | quit => exact .quit
  | quiet => exact .quiet
  | help | paste | list | summary | draft | tests | tree => exact .looked trivial
  | load path =>
    change Handled env s (.load path) (s.load env path).1 (s.load env path).2
    cases read : s.disk.readText path with
    | error fault =>
      rw [load_of_unread read]
      exact .unread read
    | ok source =>
      obtain ⟨text, made⟩ := load_of_read env sound read
      rw [made]
      exact .loaded read
  | remove n =>
    cases here : s.nth n with
    | error p =>
      simp only [handle, here]
      exact .missing (nth_eq_error here)
    | ok r =>
      obtain ⟨i, rfl, stands⟩ := nth_eq_ok here
      obtain ⟨text, made⟩ := remove_of_stands sound stands
      simp only [handle, here, made]
      exact .removed stands
  | «export» n folder =>
    cases here : s.nth n with
    | error p =>
      simp only [handle, here]
      exact .exported
    | ok r =>
      obtain ⟨disk, answer, made⟩ := exists_exportTo s r folder
      simp only [handle, here, made]
      exact .exported

end

namespace Handled

variable {env : Surroundings} {s s' : Session} {c : Command} {answer : Except Problem Text}
  {p : Problem}

theorem of_error (h : Handled env s c s' (.error p)) :
    s'.running = s.running ∧ s'.quiet = s.quiet ∧ s'.bench.shelf = s.bench.shelf := by
  cases h with
  | looked | unread | missing | exported => exact ⟨rfl, rfl, rfl⟩

theorem running_eq (h : Handled env s c s' answer) :
    s'.running = if c = .quit then false else s.running := by
  cases h with
  | quit => rfl
  | quiet | loaded | unread | removed | missing | exported => rfl
  | looked looks =>
    have other : c ≠ .quit := by
      rintro rfl
      exact looks
    rw [if_neg other]

theorem quiet_eq (h : Handled env s c s' answer) :
    s'.quiet = if c = .quiet then !s.quiet else s.quiet := by
  cases h with
  | quiet => rfl
  | quit | loaded | unread | removed | missing | exported => rfl
  | looked looks =>
    have other : c ≠ .quiet := by
      rintro rfl
      exact looks
    rw [if_neg other]

theorem of_load {path : Text} (h : Handled env s (.load path) s' answer) (fresh : s.bench.Fresh) :
    match s.disk.readText path with
    | .error fault => s' = s ∧ answer = .error (.trouble (.reading path fault))
    | .ok source => (∃ text, answer = .ok text) ∧
      s'.records = s.records ++
        [Job.outcome env.setting ⟨s.bench.nextId, Workbench.scriptName path, source, some path⟩
          (env.provider.tree source)] := by
  cases h with
  | looked looks => exact looks.elim
  | unread read =>
    rw [read]
    exact ⟨rfl, rfl⟩
  | loaded read =>
    rw [read]
    exact ⟨⟨_, rfl⟩, Workbench.load_records fresh _ _ _ _⟩

theorem of_remove {n : Nat} (h : Handled env s (.remove n) s' answer)
    (distinct : s.bench.shelf.Distinct) :
    if 1 ≤ n ∧ n ≤ s.records.length then
      (∃ text, answer = .ok text) ∧ s'.records = s.records.eraseIdx (n - 1)
    else (∃ p, answer = .error p) ∧ s' = s := by
  cases h with
  | looked looks => exact looks.elim
  | removed stands =>
    have within := List.getElem?_eq_some_iff.1 stands
    obtain ⟨bound, -⟩ := within
    rw [if_pos (by omega)]
    exact ⟨⟨_, rfl⟩, Workbench.records_remove_at distinct stands⟩
  | missing beyond =>
    rw [if_neg (by omega)]
    exact ⟨⟨_, rfl⟩, rfl⟩

theorem shelf_eq (h : Handled env s c s' answer) (noLoad : ∀ path, c ≠ .load path)
    (noRemoval : ∀ n, c ≠ .remove n) : s'.bench.shelf = s.bench.shelf := by
  cases h with
  | looked | quit | quiet | unread | missing | exported => rfl
  | loaded => exact absurd rfl (noLoad _)
  | removed => exact absurd rfl (noRemoval _)

theorem sound (h : Handled env s c s' answer) (sound : s.bench.Sound) : s'.bench.Sound := by
  cases h with
  | looked | quit | quiet | unread | missing | exported => exact sound
  | loaded => exact Workbench.sound_load sound _ _ _ _
  | removed => exact Workbench.sound_remove sound _

end Handled

/-- The sessions that commands and conversions lead to. Between them the disk may change in any way
and the session may be made quiet. -/
inductive Reachable : Session → Prop
  | start (disk : Disk) (verbose : Bool) : Reachable (start disk verbose)
  | command {s : Session} (env : Surroundings) (c : Command) (reached : Reachable s) :
      Reachable (s.handle env c).1
  | conversion {s : Session} (env : Surroundings) (name source : Text) (reached : Reachable s) :
      Reachable (s.convert env name source).1
  | disk {s : Session} (disk : Disk) (reached : Reachable s) : Reachable { s with disk }
  | quiet {s : Session} (quiet : Bool) (reached : Reachable s) : Reachable { s with quiet }

theorem bench_convert (env : Surroundings) (s : Session) (name source : Text) :
    (s.convert env name source).1.bench =
      (s.bench.load env.setting env.provider.tree name source none).2 := by
  unfold convert
  dsimp only
  split <;> rfl

theorem sound_of_reachable {s : Session} (reached : Reachable s) : s.bench.Sound := by
  induction reached with
  | start => exact Workbench.sound_empty
  | command env c _ ih => exact (handled ih env c).sound ih
  | conversion env name source _ ih =>
    rw [bench_convert]
    exact Workbench.sound_load ih _ name source none
  | disk | quiet => assumption

/-- What a command does to a reachable session. If it fails, the switches, the records and the
pointer are as they were. Only `.quit` ends the session and only `.quiet` changes whether it is
quiet. A load adds one record behind the others, if its file can be read; a removal takes away the
record at its position, if there is one; any other command leaves the records and the pointer
alone. -/
theorem command_effects (env : Surroundings) (c : Command) {s : Session} (reached : Reachable s) :
    let s' := (s.handle env c).1
    let answer := (s.handle env c).2
    ((∃ p, answer = .error p) →
      s'.running = s.running ∧ s'.quiet = s.quiet ∧ s'.bench.shelf = s.bench.shelf) ∧
    s'.running = (if c = .quit then false else s.running) ∧
    s'.quiet = (if c = .quiet then !s.quiet else s.quiet) ∧
    (∀ path, c = .load path → match s.disk.readText path with
      | .error fault => s' = s ∧ answer = .error (.trouble (.reading path fault))
      | .ok source => (∃ text, answer = .ok text) ∧
        s'.records = s.records ++
          [Job.outcome env.setting
            ⟨s.bench.nextId, Workbench.scriptName path, source, some path⟩
            (env.provider.tree source)]) ∧
    (∀ n, c = .remove n →
      if 1 ≤ n ∧ n ≤ s.records.length then
        (∃ text, answer = .ok text) ∧ s'.records = s.records.eraseIdx (n - 1)
      else (∃ p, answer = .error p) ∧ s' = s) ∧
    ((∀ path, c ≠ .load path) → (∀ n, c ≠ .remove n) → s'.bench.shelf = s.bench.shelf) := by
  intro s' answer
  have sound := sound_of_reachable reached
  have step : Handled env s c s' answer := handled sound env c
  refine ⟨?_, step.running_eq, step.quiet_eq, ?_, ?_, step.shelf_eq⟩
  · rintro ⟨p, failed⟩
    rw [failed] at step
    exact step.of_error
  · rintro path rfl
    exact step.of_load sound.fresh
  · rintro n rfl
    exact step.of_remove sound.distinct

/-- Surroundings in which trees are sketched. -/
def sketchingSurroundings : Surroundings :=
  ⟨⟨4, []⟩, Workbench.Provider.sketching, fun _ => [], 0⟩

/-- A session in which one script was pasted. -/
def onePasted : Session :=
  ((start (Disk.atFolder []) false).convert sketchingSurroundings "a".toList "x = 1".toList).1

theorem length_records_onePasted : onePasted.records.length = 1 := by
  rw [records, onePasted, bench_convert]
  change (Bench.load _ _ Bench.empty _ _ _).2.shelf.records.length = 1
  rw [Workbench.load_records Workbench.fresh_empty]
  rfl

/-- The only record is removed. -/
theorem command_effects_of_onePasted :
    Reachable onePasted ∧
      (onePasted.handle sketchingSurroundings (.remove 1)).1.records =
        onePasted.records.eraseIdx 0 := by
  have reached : Reachable onePasted := .conversion _ _ _ (.start _ _)
  obtain ⟨-, -, -, -, removal, -⟩ := command_effects sketchingSurroundings (.remove 1) reached
  have taken := removal 1 rfl
  rw [length_records_onePasted, if_pos (by decide)] at taken
  exact ⟨reached, taken.2⟩

end Session

end Shell

end SwiftDraft
