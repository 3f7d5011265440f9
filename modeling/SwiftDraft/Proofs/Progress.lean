import SwiftDraft.Proofs.Interleaving

/-!
# The records of a load

A load that nothing stops makes the same records in the same order, whatever the bench holds
besides. `Makes` says which record goes with which stage, `Told` how much of its history has been
announced by then. Both are preserved by a step (`Makes.step`); without its record a load only
announces the status it has taken (`step_of_missing`).
-/

namespace SwiftDraft.Workbench

open Interpreter (TreeError)

/-- How the fields of a record go with its status. -/
structure Record.Sound (r : Record) : Prop where
  history : (r.history ≠ [] ∧ r.history <+: Status.pipeline) ∨ r.history = [.analyzing, .failed]
  last : r.history.getLast? = some r.status
  tree : r.tree.isSome ↔ r.status = .converting ∨ r.status = .testing ∨ r.status = .success
  draft : r.draft.isSome ↔ r.status = .testing ∨ r.status = .success
  untested : r.status ≠ .success → r.tests = []
  tests : r.status = .success → ∃ draft, r.draft = some draft ∧ r.tests = Skeleton.tests draft.text
  error : r.error.isSome ↔ r.status = .failed
  survey :
    (r.packages = Script.packages r.source ∧ r.outline = Script.outline r.source) ∨
    (r.status = .analyzing ∧ r.packages = TextSet.empty ∧ r.outline = Script.Outline.empty)

namespace Job

variable (setting : Setting) (job : Job)

def fresh : Record := Record.new job.id job.name job.source job.origin

def surveyed : Record :=
  { job.fresh with packages := Script.packages job.source, outline := Script.outline job.source }

def converted (tree : Tree) : Record :=
  { job.surveyed with
    status := .converting
    history := [.analyzing, .converting]
    tree := some tree }

def tested (tree : Tree) : Record :=
  { job.converted tree with
    status := .testing
    history := [.analyzing, .converting, .testing]
    draft := some (job.draft setting) }

def succeeded (tree : Tree) : Record :=
  { job.tested setting tree with
    status := .success
    history := Status.pipeline
    tests := Skeleton.tests (job.draft setting).text }

def failed (error : TreeError) : Record :=
  { job.surveyed with
    status := .failed
    history := [.analyzing, .failed]
    error := some error.message }

end Job

/-- The record that takes a status, and the answer that its load has got by then. -/
inductive Takes (setting : Setting) (job : Job) :
    Status → Option (Except TreeError Tree) → Record → Prop
  | analyzing : Takes setting job .analyzing none job.fresh
  | converting (tree : Tree) : Takes setting job .converting (some (.ok tree)) (job.converted tree)
  | testing (tree : Tree) : Takes setting job .testing (some (.ok tree)) (job.tested setting tree)
  | success (tree : Tree) :
      Takes setting job .success (some (.ok tree)) (job.succeeded setting tree)
  | failed (error : TreeError) : Takes setting job .failed (some (.error error)) (job.failed error)

/-- The record of a load before its step at a stage. -/
inductive Makes (setting : Setting) (job : Job) :
    Stage → Option (Except TreeError Tree) → Record → Prop
  | announcing {status : Status} {answer : Option (Except TreeError Tree)} {r : Record}
      (takes : Takes setting job status answer r) :
      Makes setting job (.announce status) answer r
  | announced {status : Status} {answer : Option (Except TreeError Tree)} {r : Record}
      (takes : Takes setting job status answer r) :
      Makes setting job (job.after setting status) answer r
  | asking : Makes setting job .ask none job.surveyed
  | answered (answer : Except TreeError Tree) :
      Makes setting job (Job.answered answer) (some answer) job.surveyed
  | selected (tree : Tree) :
      Makes setting job .done (some (.ok tree)) (job.succeeded setting tree)

/-- All of a history is told, except for a status that is announced next. -/
def Told (stage : Stage) (history told : List Status) : Prop :=
  match stage with
  | .announce status => history = told ++ [status]
  | _ => history = told

section

variable {setting : Setting} {job : Job}

theorem takes_sound {status : Status} {answer : Option (Except TreeError Tree)} {r : Record}
    (takes : Takes setting job status answer r) : r.Sound := by
  cases takes <;> constructor <;>
    simp [Job.fresh, Job.surveyed, Job.converted, Job.tested, Job.succeeded, Job.failed, Record.new,
      Status.pipeline]

theorem takes_job {status : Status} {answer : Option (Except TreeError Tree)} {r : Record}
    (takes : Takes setting job status answer r) : r.job = job := by
  cases takes <;> rfl

theorem surveyed_sound (job : Job) : job.surveyed.Sound := by
  constructor <;> simp [Job.fresh, Job.surveyed, Record.new, Status.pipeline]

theorem makes_sound {stage : Stage} {answer : Option (Except TreeError Tree)} {r : Record}
    (makes : Makes setting job stage answer r) : r.Sound := by
  cases makes with
  | announcing takes | announced takes => exact takes_sound takes
  | asking | answered => exact surveyed_sound job
  | selected tree => exact takes_sound (.success tree)

theorem makes_job {stage : Stage} {answer : Option (Except TreeError Tree)} {r : Record}
    (makes : Makes setting job stage answer r) : r.job = job := by
  cases makes with
  | announcing takes | announced takes => exact takes_job takes
  | asking | answered | selected => rfl

theorem after_ne_begin (status : Status) : job.after setting status ≠ .begin := by
  cases status <;> simp [Job.after]

theorem answered_ne_begin (answer : Except TreeError Tree) : Job.answered answer ≠ .begin := by
  cases answer <;> simp [Job.answered]

theorem makes_ne_begin {stage : Stage} {answer : Option (Except TreeError Tree)} {r : Record}
    (makes : Makes setting job stage answer r) : stage ≠ .begin := by
  cases makes with
  | announcing | asking | selected => simp
  | announced => exact after_ne_begin _
  | answered answer => exact answered_ne_begin answer

theorem makes_ask {answer : Option (Except TreeError Tree)} {r : Record}
    (makes : Makes setting job .ask answer r) : r = job.surveyed := by
  generalize asks : Stage.ask = stage at makes
  cases makes with
  | announcing | selected => cases asks
  | @announced status => cases status <;> cases asks
  | asking => rfl
  | answered answer => cases answer <;> cases asks

theorem told_after (status : Status) (history told : List Status) :
    Told (job.after setting status) history told ↔ history = told := by
  cases status <;> rfl

theorem told_answered (answer : Except TreeError Tree) (history told : List Status) :
    Told (Job.answered answer) history told ↔ history = told := by
  cases answer <;> rfl

theorem told_announce (bench : Bench) (job : Job) (status : Status) :
    Bench.told { bench with announced := bench.announced ++ [⟨job.id, status⟩] } job.id =
      bench.told job.id ++ [status] := by
  simp [Bench.told]

end

section

variable {setting : Setting} {job : Job} {bench : Bench} {stage : Stage}
  {answer : Option (Except TreeError Tree)} {r : Record}

/-- A load that has its record takes the next status, which is announced next. -/
theorem makes_take {status : Status} {f : Record → Option Record} (keeps : KeepsJob f)
    (found : bench.shelf.get? job.id = some r) {r' : Record} (allowed : f r = some r')
    (takes : Takes setting job status answer r') (grows : r'.history = r.history ++ [status])
    (told : r.history = bench.told job.id) :
    let next := job.take bench status f
    ∃ r', next.1.shelf.get? job.id = some r' ∧ Makes setting job next.2 answer r' ∧
      Told next.2 r'.history (next.1.told job.id) := by
  obtain ⟨shelf, changed, now⟩ := Shelf.exists_change keeps found allowed
  have taken : job.take bench status f = ({ bench with shelf }, .announce status) := by
    simp [Job.take, Job.change, changed]
  rw [taken]
  refine ⟨r', now, .announcing takes, ?_⟩
  change r'.history = bench.told job.id ++ [status]
  rw [grows, told]

theorem makes_step (makes : Makes setting job stage answer r)
    (found : bench.shelf.get? job.id = some r)
    (told : Told stage r.history (bench.told job.id)) :
    let next := job.step setting bench stage
    ∃ r', next.1.shelf.get? job.id = some r' ∧ Makes setting job next.2 answer r' ∧
      Told next.2 r'.history (next.1.told job.id) := by
  cases makes with
  | @announcing status _ _ takes =>
    refine ⟨r, found, .announced takes, ?_⟩
    have history : r.history = bench.told job.id ++ [status] := told
    exact (told_after _ _ _).2 (history.trans (told_announce bench job status).symm)
  | announced takes =>
    rw [told_after] at told
    cases takes with
    | analyzing =>
      obtain ⟨shelf, surveyed, now⟩ := step_survey setting found
      have asked : job.step setting bench (job.after setting .analyzing) =
          ({ bench with shelf }, .ask) := surveyed
      rw [asked]
      exact ⟨job.surveyed, now, .asking, told⟩
    | converting tree =>
      exact makes_take (keepsJob_advance _ _ fun _ => rfl) found rfl (.testing tree) rfl told
    | testing tree =>
      have keeps (tests : List Skeleton.Test) :
          KeepsJob (Record.advance .success fun r => { r with tests }) :=
        keepsJob_advance _ _ fun _ => rfl
      exact makes_take (keeps _) found rfl (.success tree) rfl told
    | success tree => exact ⟨_, found, .selected tree, told⟩
    | failed error => exact ⟨_, found, .announced (.failed error), told⟩
  | asking => exact ⟨_, found, .asking, told⟩
  | answered answer =>
    rw [told_answered] at told
    cases answer with
    | ok tree =>
      exact makes_take (keepsJob_advance _ _ fun _ => rfl) found rfl (.converting tree) rfl told
    | error error =>
      exact makes_take (keepsJob_advance _ _ fun _ => rfl) found rfl (.failed error) rfl told
  | selected tree => exact ⟨_, found, .selected tree, told⟩

/-- A load whose record is gone changes no record again, and ends up having told all of its
history. -/
theorem step_of_missing (setting : Setting) (later : stage ≠ .begin)
    (missing : bench.shelf.get? job.id = none) {history : List Status}
    (told : Told stage history (bench.told job.id)) :
    let next := job.step setting bench stage
    next.2 ≠ .begin ∧ next.1.shelf.get? job.id = none ∧
      Told next.2 history (next.1.told job.id) := by
  have refused (f : Record → Option Record) : job.change bench f = none := by
    simp [Job.change, Shelf.change_eq_none_iff, missing]
  have ended (status : Status) (f : Record → Option Record) :
      job.take bench status f = (bench, .done) := by simp [Job.take, refused]
  cases stage with
  | begin => exact absurd rfl later
  | announce status =>
    have all : history = bench.told job.id ++ [status] := told
    exact ⟨after_ne_begin status, missing,
      (told_after _ _ _).2 (all.trans (told_announce bench job status).symm)⟩
  | survey =>
    have stopped : job.step setting bench .survey = (bench, .done) := by simp [Job.step, refused]
    rw [stopped]
    exact ⟨by simp, missing, told⟩
  | convert | fail | test | succeed =>
    simp only [Job.step, ended]
    exact ⟨by simp, missing, told⟩
  | ask | select | done => exact ⟨by simp [Job.step], missing, told⟩

end

end SwiftDraft.Workbench
