import SwiftDraft.CommandLine.Run
import SwiftDraft.Proofs.Isolation

/-!
# What becomes of the files of a run

A load that is run to its end leaves the record of its outcome on the bench and no other record
changed (`load_outcome`). So what a run makes of a file depends on this file alone
(`Arguments.made`): whichever files are loaded besides, its record is on the bench in the end, under
an id of its own (`loadAll_found`).
-/

namespace SwiftDraft.Workbench

open Interpreter (TreeError)

/-- The ids that come next are not in use. -/
def Bench.Fresh (bench : Bench) : Prop := ∀ id, bench.nextId ≤ id → bench.shelf.get? id = none

theorem fresh_empty : Bench.empty.Fresh := fun _ _ => rfl

section

variable {setting : Setting} {job : Job} {bench : Bench} {stage : Stage}

theorem nextId_run (n : Nat) (bench : Bench) (stage : Stage) :
    (job.run setting n (bench, stage)).1.nextId = bench.nextId := by
  induction n generalizing bench stage with
  | zero => rfl
  | succ n ih =>
    rw [run_succ, ih]
    exact (step_effect setting job bench stage).nextId

theorem get?_run_other (n : Nat) (bench : Bench) (stage : Stage) {id : Id} (ne : id ≠ job.id) :
    (job.run setting n (bench, stage)).1.shelf.get? id = bench.shelf.get? id := by
  induction n generalizing bench stage with
  | zero => rfl
  | succ n ih =>
    rw [run_succ, ih]
    exact (step_effect setting job bench stage).get?_other ne

/-- A status that the record may take is announced, and the load goes on from there. -/
theorem run_take {next : Status} {fill : Record → Record} {r : Record} (r' : Record)
    (takes : job.step setting bench stage = job.take bench next (Record.advance next fill))
    (keeps : ∀ r, (fill r).job = r.job) (found : bench.shelf.get? job.id = some r)
    (advanced : Record.advance next fill r = some r') (n : Nat) :
    ∃ bench', bench'.shelf.get? job.id = some r' ∧
      job.run setting (n + 2) (bench, stage) =
        job.run setting n (bench', job.after setting next) := by
  obtain ⟨shelf, changed, now⟩ :=
    Shelf.exists_change (keepsJob_advance next fill keeps) found advanced
  have taken : job.take bench next (Record.advance next fill) =
      ({ bench with shelf }, .announce next) := by
    simp [Job.take, Job.change, changed]
  refine ⟨{ bench with shelf, announced := bench.announced ++ [⟨job.id, next⟩] }, now, ?_⟩
  rw [run_succ, takes, taken, run_succ]
  rfl

theorem run_done (n : Nat) (bench : Bench) : job.run setting n (bench, .done) = (bench, .done) := by
  cases n <;> rfl

/-- The tests are left open here: with a program in their place, `rfl` would run it. -/
theorem job_withTests (r : Record) (tests : List Skeleton.Test) :
    ({ r with tests } : Record).job = r.job := rfl

/-- A load that is answered makes all of its record. -/
theorem finish_outcome (found : bench.shelf.get? job.id = some job.surveyed)
    (answer : Except TreeError Tree) :
    (bench.finish setting job answer).shelf.get? job.id = some (job.outcome setting answer) := by
  unfold Bench.finish
  cases answer with
  | error error =>
    have fails : job.step setting bench (.fail error) = _ := rfl
    obtain ⟨failed, now, ran⟩ := run_take (job.failed error) fails (fun _ => rfl) found rfl 14
    rw [Job.answered, Job.enough, ran, Job.after, run_done]
    exact now
  | ok tree =>
    have converts : job.step setting bench (.convert tree) = _ := rfl
    obtain ⟨converted, now, ran⟩ :=
      run_take (job.converted tree) converts (fun _ => rfl) found rfl 14
    have tests : job.step setting converted .test = _ := rfl
    obtain ⟨tested, now, ran'⟩ :=
      run_take (job.tested setting tree) tests (fun _ => rfl) now rfl 12
    have succeeds :
      job.step setting tested (.succeed (Skeleton.tests (job.draft setting).text)) = _ := rfl
    obtain ⟨succeeded, now, ran''⟩ :=
      run_take (job.succeeded setting tree) succeeds (fun r => job_withTests r _) now rfl 10
    rw [Job.answered, Job.enough, ran, Job.after, ran', Job.after, ran'', Job.after, run_succ]
    change (job.run setting 9 (_, .done)).1.shelf.get? job.id = _
    rw [run_done]
    exact now

theorem outcome_id (job : Job) (id : Id) (answer : Except TreeError Tree) :
    Job.outcome setting { job with id } answer = { job.outcome setting answer with id } := by
  cases answer <;> rfl

/-- A load makes the record of its outcome, under the next id, and leaves the others alone. -/
theorem load_outcome (setting : Setting) (bench : Bench) (fresh : bench.Fresh)
    (provider : Text → Except TreeError Tree) (name source : Text) (origin : Option Text) :
    let loaded := bench.load setting provider name source origin
    let job : Job := ⟨bench.nextId, name, source, origin⟩
    loaded.1 = bench.nextId ∧ loaded.2.nextId = bench.nextId + 1 ∧
      loaded.2.shelf.get? bench.nextId = some (job.outcome setting (provider source)) ∧
      ∀ id, id ≠ bench.nextId → loaded.2.shelf.get? id = bench.shelf.get? id := by
  intro loaded job
  let taken : Bench := { bench with nextId := bench.nextId + 1 }
  have new : taken.shelf.get? job.id = none := fresh _ (Nat.le_refl _)
  obtain ⟨asked, ran, found⟩ := @run_begin setting job taken new
  have started : (job.run setting Job.enough (taken, .begin)).1 = asked := congrArg Prod.fst ran
  have finished : loaded.2 = asked.finish setting job (provider source) := by
    rw [← started]
    rfl
  have before : asked.nextId = bench.nextId + 1 := by
    rw [← started, nextId_run]
  rw [finished]
  refine ⟨rfl, ?_, finish_outcome found _, ?_⟩
  · rw [Bench.finish, nextId_run, before]
  · intro id ne
    rw [Bench.finish, get?_run_other _ _ _ ne, ← started, get?_run_other _ _ _ ne]

theorem fresh_load (fresh : bench.Fresh) (provider : Text → Except TreeError Tree)
    (name source : Text) (origin : Option Text) :
    (bench.load setting provider name source origin).2.Fresh := by
  obtain ⟨-, next, -, others⟩ := load_outcome setting bench fresh provider name source origin
  intro id used
  rw [next] at used
  have later : bench.nextId < id := used
  rw [others id (Nat.ne_of_gt later)]
  exact fresh id (Nat.le_of_lt later)

end

end SwiftDraft.Workbench

namespace SwiftDraft.CommandLine

open Workbench (Bench Id Job Record Trouble)

/-- What a run makes of one of its files, whatever the others are: a record, or the trouble with
reading it. The id of the record is left open. -/
def Arguments.made (a : Arguments) (world : World) (file : Text) : Except Trouble Record :=
  match world.disk.readText file with
  | .error fault => .error (.reading file fault)
  | .ok source =>
    let job : Job := ⟨0, Workbench.scriptName file, source, some file⟩
    .ok (job.outcome (a.surroundings world).setting ((a.provider world).tree source))

/-- A file has become what a run makes of it. -/
inductive Found (a : Arguments) (world : World) (bench : Bench) (file : Text) : Loaded → Prop
  | unread {t : Trouble} (made : a.made world file = .error t) : Found a world bench file (.error t)
  | shelved {id : Id} {r : Record} (made : a.made world file = .ok r)
      (here : bench.shelf.get? id = some { r with id }) : Found a world bench file (.ok id)

/-- When files are loaded, each of them becomes what the run makes of it, and the records that are
there are kept. -/
theorem loadAll_found (a : Arguments) (world : World) (files : List Text) (bench : Bench)
    (fresh : bench.Fresh) :
    let loaded := loadAll (a.surroundings world) world.disk bench files
    List.Forall₂ (Found a world loaded.2) files loaded.1 ∧
      ∀ id r, bench.shelf.get? id = some r → loaded.2.shelf.get? id = some r := by
  induction files generalizing bench with
  | nil => exact ⟨.nil, fun _ _ here => here⟩
  | cons file rest ih =>
    unfold loadAll Bench.loadFile
    cases read : world.disk.readText file with
    | error fault =>
      obtain ⟨others, keeps⟩ := ih bench fresh
      refine ⟨.cons (.unread ?_) others, keeps⟩
      rw [Arguments.made, read]
    | ok source =>
      let env := a.surroundings world
      let name := Workbench.scriptName file
      let loaded := bench.load env.setting env.provider.tree name source (some file)
      obtain ⟨named, -, here, apart⟩ :=
        Workbench.load_outcome env.setting bench fresh env.provider.tree name source (some file)
      have fresh' : loaded.2.Fresh := Workbench.fresh_load fresh _ name source (some file)
      obtain ⟨others, keeps⟩ := ih loaded.2 fresh'
      let job : Job := ⟨0, name, source, some file⟩
      have made : a.made world file = .ok (job.outcome env.setting (env.provider.tree source)) := by
        rw [Arguments.made, read]
        rfl
      have shelved := here.trans (congrArg some (Workbench.outcome_id job bench.nextId _))
      refine ⟨.cons (.shelved made (keeps _ _ shelved)) others, ?_⟩
      intro id r there
      have other : id ≠ bench.nextId := by
        rintro rfl
        rw [fresh _ (Nat.le_refl _)] at there
        cases there
      exact keeps id r ((apart id other).trans there)

end SwiftDraft.CommandLine
