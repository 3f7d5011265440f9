import SwiftDraft.Proofs.Shelf
import Mathlib.Logic.Function.Basic

/-!
# Loads side by side

Any number of loads and removals share one bench. Whoever comes next is arbitrary: a schedule is a
list of acts, and every list is a schedule. An act that is not possible changes nothing.
-/

namespace SwiftDraft.Workbench

open Interpreter (TreeError)

/-- A load on its way: its script, the moment that its draft names, what it does next and the answer
it got. -/
structure Load where
  job : Job
  moment : Int
  stage : Stage
  answer : Option (Except TreeError Tree)

/-- A bench with the loads that work at it, by the ids of their records. -/
structure Workshop where
  bench : Bench
  loads : Id → Option Load
  /-- The scripts whose records were pushed, in the order of the pushes. -/
  begun : List Job
  /-- What removals gave back, the oldest first. -/
  removed : List Record

inductive Act where
  /-- A load is asked for. Its record gets an id, and is pushed later. -/
  | arrive (name source : Text) (origin : Option Text) (moment : Int)
  /-- A load takes its next step. -/
  | move (id : Id)
  /-- A load that asked for a tree is answered. -/
  | answer (id : Id) (answer : Except TreeError Tree)
  | remove (id : Id)

namespace Load

def setting (unit : Nat) (l : Load) : Setting := ⟨unit, Draft.timestamp l.moment⟩

/-- The script that the next step of a load begins with, if it is its first. -/
def opening (l : Load) : List Job :=
  match l.stage with
  | .begin => [l.job]
  | _ => []

theorem opening_begin {l : Load} (h : l.stage = .begin) : l.opening = [l.job] := by
  simp [opening, h]

theorem opening_of_ne {l : Load} (h : l.stage ≠ .begin) : l.opening = [] := by
  unfold opening
  split
  · next begins => exact absurd begins h
  · rfl

end Load

namespace Workshop

def empty : Workshop := ⟨.empty, fun _ => none, [], []⟩

def moved (unit : Nat) (ws : Workshop) (id : Id) (l : Load) : Workshop :=
  let (bench, stage) := l.job.step (l.setting unit) ws.bench l.stage
  { ws with
    bench
    loads := Function.update ws.loads id (some { l with stage })
    begun := ws.begun ++ l.opening }

def act (unit : Nat) (ws : Workshop) : Act → Workshop
  | .arrive name source origin moment =>
    let (job, bench) := ws.bench.newJob name source origin
    let l : Load := ⟨job, moment, .begin, none⟩
    { ws with bench, loads := Function.update ws.loads job.id (some l) }
  | .move id =>
    match ws.loads id with
    | some l => ws.moved unit id l
    | none => ws
  | .answer id answer =>
    match ws.loads id with
    | some ⟨job, moment, .ask, _⟩ =>
      let l : Load := ⟨job, moment, Job.answered answer, some answer⟩
      { ws with loads := Function.update ws.loads id (some l) }
    | _ => ws
  | .remove id =>
    let (record, bench) := ws.bench.remove id
    { ws with bench, removed := ws.removed ++ record.toList }

/-- What a schedule makes of a workshop. -/
def play (unit : Nat) (ws : Workshop) (acts : List Act) : Workshop := acts.foldl (act unit) ws

/-- The workshop after a schedule. -/
def after (unit : Nat) (acts : List Act) : Workshop := play unit empty acts

theorem play_append (unit : Nat) (ws : Workshop) (acts more : List Act) :
    play unit ws (acts ++ more) = play unit (play unit ws acts) more := List.foldl_append

theorem after_append (unit : Nat) (acts more : List Act) :
    after unit (acts ++ more) = play unit (after unit acts) more := play_append unit empty acts more

theorem act_move {unit : Nat} {ws : Workshop} {id : Id} {l : Load} (h : ws.loads id = some l) :
    ws.act unit (.move id) = ws.moved unit id l := by
  simp [act, h]

/-- What an act makes of a workshop. -/
inductive Step (unit : Nat) (ws : Workshop) : Act → Workshop → Prop
  /-- The load is not there, or was answered without having asked. -/
  | idle {a : Act} : Step unit ws a ws
  | arrive (name source : Text) (origin : Option Text) (moment : Int) :
      Step unit ws (.arrive name source origin moment)
        { ws with
          bench := { ws.bench with nextId := ws.bench.nextId + 1 }
          loads := Function.update ws.loads ws.bench.nextId
            (some ⟨⟨ws.bench.nextId, name, source, origin⟩, moment, .begin, none⟩) }
  | move {id : Id} {l : Load} (here : ws.loads id = some l) :
      Step unit ws (.move id) (ws.moved unit id l)
  | answer {id : Id} {l : Load} (answer : Except TreeError Tree) (here : ws.loads id = some l)
      (asks : l.stage = .ask) :
      Step unit ws (.answer id answer)
        { ws with
          loads := Function.update ws.loads id
            (some ⟨l.job, l.moment, Job.answered answer, some answer⟩) }
  | remove (id : Id) :
      Step unit ws (.remove id)
        { ws with
          bench := { ws.bench with shelf := ws.bench.shelf.remove id }
          removed := ws.removed ++ (ws.bench.shelf.get? id).toList }

theorem act_step (unit : Nat) (ws : Workshop) (a : Act) : Step unit ws a (ws.act unit a) := by
  cases a with
  | arrive name source origin moment => exact .arrive name source origin moment
  | move id =>
    cases here : ws.loads id with
    | none => simpa [act, here] using Step.idle
    | some l => exact act_move here ▸ .move here
  | answer id answer =>
    cases here : ws.loads id with
    | none => simpa [act, here] using Step.idle
    | some l =>
      obtain ⟨job, moment, stage, given⟩ := l
      cases stage with
      | ask => simpa [act, here] using Step.answer answer here rfl
      | _ => simpa [act, here] using Step.idle
  | remove id => exact .remove id

/-- What every step preserves, every schedule preserves. -/
theorem play_induction {unit : Nat} {P : Workshop → Prop}
    (preserves : ∀ {ws a ws'}, Step unit ws a ws' → P ws → P ws') {ws : Workshop} (start : P ws)
    (acts : List Act) : P (play unit ws acts) := by
  induction acts generalizing ws with
  | nil => exact start
  | cons a acts ih => exact ih (preserves (act_step unit ws a) start)

/-- Pushes are not forgotten. -/
theorem begun_play (unit : Nat) (ws : Workshop) (acts : List Act) :
    ws.begun <+: (play unit ws acts).begun := by
  apply play_induction (P := fun later => ws.begun <+: later.begun)
  · intro before a later step earlier
    cases step with
    | idle | arrive | answer | remove => exact earlier
    | move => exact earlier.trans (List.prefix_append _ _)
  · exact List.prefix_rfl

/-- Removals are not forgotten. -/
theorem removed_play (unit : Nat) (ws : Workshop) (acts : List Act) :
    ws.removed <+: (play unit ws acts).removed := by
  apply play_induction (P := fun later => ws.removed <+: later.removed)
  · intro before a later step earlier
    cases step with
    | idle | arrive | answer | move => exact earlier
    | remove => exact earlier.trans (List.prefix_append _ _)
  · exact List.prefix_rfl

end Workshop

/-- What one step of a load may make of a bench. It touches no record but its own. -/
inductive Effect (job : Job) (bench : Bench) : Stage → Bench → Prop
  | nothing {stage : Stage} (later : stage ≠ .begin) : Effect job bench stage bench
  | push : Effect job bench .begin
      { bench with shelf := bench.shelf.push (Record.new job.id job.name job.source job.origin) }
  | announce (status : Status) : Effect job bench (.announce status)
      { bench with announced := bench.announced ++ [⟨job.id, status⟩] }
  | change {stage : Stage} {f : Record → Option Record} {shelf : Shelf} (later : stage ≠ .begin)
      (keeps : KeepsJob f) (changed : bench.shelf.change job.id f = some shelf) :
      Effect job bench stage { bench with shelf }
  | select : Effect job bench .select { bench with shelf := bench.shelf.select job.id }

theorem effect_take {job : Job} {bench : Bench} {stage : Stage} (later : stage ≠ .begin)
    (next : Status) {f : Record → Option Record} (keeps : KeepsJob f) :
    Effect job bench stage (job.take bench next f).1 := by
  unfold Job.take Job.change
  cases h : bench.shelf.change job.id f with
  | none => exact .nothing later
  | some shelf => exact .change later keeps h

theorem step_effect (setting : Setting) (job : Job) (bench : Bench) (stage : Stage) :
    Effect job bench stage (job.step setting bench stage).1 := by
  cases stage with
  | begin => exact .push
  | announce status => exact .announce status
  | survey =>
    unfold Job.step Job.change
    dsimp only
    cases h : bench.shelf.change job.id _ with
    | none => exact .nothing (by simp)
    | some shelf =>
      refine .change (by simp) ?_ h
      exact keepsJob_some fun _ => rfl
  | ask => exact .nothing (by simp)
  | convert tree => exact effect_take (by simp) _ (keepsJob_advance _ _ fun _ => rfl)
  | fail error => exact effect_take (by simp) _ (keepsJob_advance _ _ fun _ => rfl)
  | test => exact effect_take (by simp) _ (keepsJob_advance _ _ fun _ => rfl)
  | succeed tests => exact effect_take (by simp) _ (keepsJob_advance _ _ fun _ => rfl)
  | select => exact .select
  | done => exact .nothing (by simp)

namespace Effect

variable {job : Job} {bench bench' : Bench} {stage : Stage}

theorem nextId (e : Effect job bench stage bench') : bench'.nextId = bench.nextId := by
  cases e <;> rfl

theorem get?_other (e : Effect job bench stage bench') {id : Id} (ne : id ≠ job.id) :
    bench'.shelf.get? id = bench.shelf.get? id := by
  cases e with
  | nothing | announce | select => rfl
  | push => exact Shelf.get?_push_other ne
  | change _ keeps changed => exact Shelf.get?_change_other keeps changed ne

theorem told_other (e : Effect job bench stage bench') {id : Id} (ne : id ≠ job.id) :
    bench'.told id = bench.told id := by
  cases e with
  | nothing | push | change | select => rfl
  | announce status => simp [Bench.told, Ne.symm ne]

theorem jobs (e : Effect job bench stage bench') (later : stage ≠ .begin) :
    bench'.shelf.records.map Record.job = bench.shelf.records.map Record.job := by
  cases e with
  | nothing | announce | select => rfl
  | push => exact absurd rfl later
  | change _ keeps changed => exact Shelf.jobs_of_change keeps changed

/-- A load without a record leaves the records alone. -/
theorem records_of_missing (e : Effect job bench stage bench') (later : stage ≠ .begin)
    (missing : bench.shelf.get? job.id = none) :
    bench'.shelf.records = bench.shelf.records := by
  cases e with
  | nothing | announce | select => rfl
  | push => exact absurd rfl later
  | @change _ f shelf _ keeps changed =>
    have refused : bench.shelf.change job.id f = none := by
      simp [Shelf.change_eq_none_iff, missing]
    rw [refused] at changed
    cases changed

end Effect

section

variable {setting : Setting} {job : Job}

theorem run_ask (n : Nat) (bench : Bench) : job.run setting n (bench, .ask) = (bench, .ask) := by
  cases n <;> rfl

theorem run_succ (n : Nat) (bench : Bench) (stage : Stage) :
    job.run setting (n + 1) (bench, stage) = job.run setting n (job.step setting bench stage) := by
  cases stage with
  | ask => exact (run_ask n bench).symm
  | done => cases n <;> rfl
  | begin | announce | survey | convert | fail | test | succeed | select => rfl

/-- The survey finds the record and fills in what the script says. -/
theorem step_survey (setting : Setting) {bench : Bench} {r : Record}
    (found : bench.shelf.get? job.id = some r) :
    ∃ shelf, job.step setting bench .survey = ({ bench with shelf }, .ask) ∧
      shelf.get? job.id = some
        { r with
          packages := Script.packages job.source
          outline := Script.outline job.source } := by
  let found' (r : Record) : Record :=
    { r with packages := Script.packages job.source, outline := Script.outline job.source }
  have keeps : KeepsJob fun r => some (found' r) := keepsJob_some fun _ => rfl
  obtain ⟨shelf, changed, now⟩ := Shelf.exists_change keeps found rfl
  refine ⟨shelf, ?_, now⟩
  simp [Job.step, Job.change, found', changed]

/-- A new load comes to ask for a tree, with what the script says in its record. -/
theorem run_begin (bench : Bench) (new : bench.shelf.get? job.id = none) :
    ∃ asked, job.run setting Job.enough (bench, .begin) = (asked, .ask) ∧
      asked.shelf.get? job.id = some
        { Record.new job.id job.name job.source job.origin with
          packages := Script.packages job.source
          outline := Script.outline job.source } := by
  let r := Record.new job.id job.name job.source job.origin
  let told : Bench :=
    { bench with
      shelf := bench.shelf.push r
      announced := bench.announced ++ [⟨job.id, .analyzing⟩] }
  have found : told.shelf.get? job.id = some r := Shelf.get?_push_self (r := r) new
  obtain ⟨shelf, surveyed, now⟩ := step_survey setting found
  have begun : job.run setting Job.enough (bench, .begin) = job.run setting 14 (told, .survey) :=
    rfl
  refine ⟨{ told with shelf }, ?_, now⟩
  rw [begun, run_succ, surveyed, run_ask]

end

/-- Moves of one load alone are its steps without interruption. -/
theorem Workshop.play_moves (unit : Nat) {ws : Workshop} {id : Id} {l : Load}
    (here : ws.loads id = some l) (n : Nat) :
    let ended := l.job.run (l.setting unit) n (ws.bench, l.stage)
    let later := ws.play unit (List.replicate n (.move id))
    later.bench = ended.1 ∧ later.loads id = some { l with stage := ended.2 } := by
  induction n generalizing ws l with
  | zero => exact ⟨rfl, here⟩
  | succ n ih =>
    have now : (ws.moved unit id l).loads id =
        some { l with stage := (l.job.step (l.setting unit) ws.bench l.stage).2 } := by
      simp [Workshop.moved]
    rw [run_succ, List.replicate_succ]
    unfold Workshop.play
    rw [List.foldl_cons, Workshop.act_move here]
    exact ih now

/-- A load that is run from its beginning to its end is a schedule of its own. -/
theorem load_played (unit : Nat) (ws : Workshop) (provider : Text → Except TreeError Tree)
    (name source : Text) (origin : Option Text) (moment : Int)
    (new : ws.bench.shelf.get? ws.bench.nextId = none) :
    let id := ws.bench.nextId
    let moves := List.replicate Job.enough (.move id)
    (ws.play unit ([.arrive name source origin moment] ++ moves ++
        [.answer id (provider source)] ++ moves)).bench =
      (ws.bench.load ⟨unit, Draft.timestamp moment⟩ provider name source origin).2 := by
  intro id moves
  let job : Job := ⟨id, name, source, origin⟩
  let setting : Setting := ⟨unit, Draft.timestamp moment⟩
  let arrived := ws.act unit (.arrive name source origin moment)
  let asked := arrived.play unit moves
  let answered := asked.act unit (.answer id (provider source))
  have here : arrived.loads id = some ⟨job, moment, .begin, none⟩ := Function.update_self ..
  obtain ⟨started, asking⟩ := Workshop.play_moves unit here Job.enough
  have asks : (job.run setting Job.enough (arrived.bench, .begin)).2 = .ask := by
    obtain ⟨bench, ran, -⟩ := @run_begin setting job arrived.bench new
    rw [ran]
  have waits : asked.loads id = some ⟨job, moment, .ask, none⟩ := by
    rw [← asks]
    exact asking
  have taken : answered.bench = asked.bench ∧
      answered.loads id =
        some ⟨job, moment, Job.answered (provider source), some (provider source)⟩ := by
    simp [answered, Workshop.act, waits]
  have finished := (Workshop.play_moves unit taken.2 Job.enough).1
  rw [Workshop.play_append, Workshop.play_append, Workshop.play_append]
  change (answered.play unit moves).bench = _
  rw [finished, taken.1]
  change (job.run setting Job.enough ((arrived.play unit moves).bench, _)).1 = _
  rw [started]
  rfl

end SwiftDraft.Workbench
