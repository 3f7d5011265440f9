import SwiftDraft.Interpreter.Outcome
import SwiftDraft.Workbench.Shelf

/-!
# Loads

A load takes a script through its statuses. It does so in steps, each of which changes the shelf once
or announces one status; between two of them other loads and removals may take place. A load ends
early when its record is gone or may not take the next status, and after a failure. Drafts are made
as without overflow checks; a load that is stopped by one (`Draft.ofScript?`) takes no further step.
-/

namespace SwiftDraft.Workbench

open Interpreter (TreeError)

/-- What has been announced to whoever listens: a record took a status. -/
structure Announcement where
  id : Id
  status : Status
  deriving DecidableEq, Repr

structure Bench where
  shelf : Shelf
  /-- The oldest first. -/
  announced : List Announcement
  /-- No record has this id or a greater one. -/
  nextId : Id

def Bench.empty : Bench := ⟨Shelf.empty, [], 0⟩

/-- The script of a load. -/
structure Job where
  id : Id
  name : Text
  source : Text
  origin : Option Text
  deriving DecidableEq, Repr

/-- What a load does next. -/
inductive Stage where
  | begin
  /-- Tell of the status that the record has taken, and go on. -/
  | announce (status : Status)
  | survey
  /-- Ask for the syntax tree. -/
  | ask
  | convert (tree : Tree)
  | fail (error : TreeError)
  | test
  | succeed (tests : List Skeleton.Test)
  | select
  | done

/-- How drafts are made: the unit of indentation and the moment that their headers name. -/
structure Setting where
  unit : Nat
  generatedAt : Text
  deriving DecidableEq, Repr

namespace Job

/-- The draft of a job's script. -/
def draft (setting : Setting) (job : Job) : Draft :=
  Draft.ofScript setting.unit setting.generatedAt job.source

/-- Changes the job's record; `none` if there is none or it must not change. -/
def change (bench : Bench) (job : Job) (f : Record → Option Record) : Option Bench :=
  (bench.shelf.change job.id f).map fun shelf => { bench with shelf }

/-- Changes the record to a new status and announces it next, or ends. -/
def take (bench : Bench) (job : Job) (next : Status) (f : Record → Option Record) : Bench × Stage :=
  match job.change bench f with
  | some bench => (bench, .announce next)
  | none => (bench, .done)

/-- The stage after a status has been announced. -/
def after (setting : Setting) (job : Job) : Status → Stage
  | .analyzing => .survey
  | .converting => .test
  | .testing => .succeed (Skeleton.tests (job.draft setting).text)
  | .success => .select
  | .failed => .done

/-- One step of a load. A load that asks for a tree waits until it is answered. -/
def step (setting : Setting) (job : Job) (bench : Bench) : Stage → Bench × Stage
  | .begin =>
    ({ bench with shelf := bench.shelf.push (Record.new job.id job.name job.source job.origin) },
      .announce .analyzing)
  | .announce status =>
    ({ bench with announced := bench.announced ++ [⟨job.id, status⟩] }, job.after setting status)
  | .survey =>
    let found (r : Record) : Record :=
      { r with packages := Script.packages job.source, outline := Script.outline job.source }
    match job.change bench fun r => some (found r) with
    | some bench => (bench, .ask)
    | none => (bench, .done)
  | .ask => (bench, .ask)
  | .convert tree =>
    job.take bench .converting (Record.advance .converting fun r => { r with tree := some tree })
  | .fail error => job.take bench .failed (Record.fail error.message)
  | .test =>
    job.take bench .testing
      (Record.advance .testing fun r => { r with draft := some (job.draft setting) })
  | .succeed tests =>
    job.take bench .success (Record.advance .success fun r => { r with tests })
  | .select => ({ bench with shelf := bench.shelf.select job.id }, .done)
  | .done => (bench, .done)

/-- The stage of a load that has been answered. -/
def answered : Except TreeError Tree → Stage
  | .ok tree => .convert tree
  | .error error => .fail error

/-- Takes steps without interruption until the load asks or ends; `limit` of them at most. -/
def run (setting : Setting) (job : Job) : Nat → Bench × Stage → Bench × Stage
  | 0, state => state
  | _ + 1, (bench, .ask) => (bench, .ask)
  | _ + 1, (bench, .done) => (bench, .done)
  | limit + 1, (bench, stage) => job.run setting limit (job.step setting bench stage)

/-- More steps than a load takes. -/
def enough : Nat := 16

end Job

namespace Bench

/-- A job for a script that comes in now. -/
def newJob (bench : Bench) (name source : Text) (origin : Option Text) : Job × Bench :=
  (⟨bench.nextId, name, source, origin⟩, { bench with nextId := bench.nextId + 1 })

/-- Starts a load and runs it until it asks for a tree. It ends before that if its record goes away,
which nothing does here. -/
def start (setting : Setting) (bench : Bench) (name source : Text) (origin : Option Text) :
    Job × Bench :=
  let (job, bench) := bench.newJob name source origin
  (job, (job.run setting Job.enough (bench, .begin)).1)

/-- Runs a load to its end after it has been answered. -/
def finish (setting : Setting) (job : Job) (answer : Except TreeError Tree) (bench : Bench) : Bench :=
  (job.run setting Job.enough (bench, Job.answered answer)).1

/-- Loads a script from its beginning to its end. -/
def load (setting : Setting) (provider : Text → Except TreeError Tree) (bench : Bench)
    (name source : Text) (origin : Option Text) : Id × Bench :=
  let (job, bench) := bench.start setting name source origin
  (job.id, bench.finish setting job (provider source))

/-- Removes a record, which is what this gives back. -/
def remove (bench : Bench) (id : Id) : Option Record × Bench :=
  (bench.shelf.get? id, { bench with shelf := bench.shelf.remove id })

end Bench

end SwiftDraft.Workbench
