import SwiftDraft.Proofs.Tracking
import SwiftDraft.Tree.Sketch

/-!
# Records between two acts

Whatever comes between the steps of its load, a record on the shelf has the fields that go with its
status, and stays the record of the script it was pushed for until it is removed.
-/

namespace SwiftDraft.Workbench

variable {unit : Nat} {ws : Workshop}

/-- A record keeps its place under its id, with its name, source and origin, until it is removed. -/
theorem record_persists (sane : Sane unit ws) {r : Record} (hr : r ∈ ws.bench.shelf.records)
    (more : List Act) :
    let later := Workshop.play unit ws more
    (r.job ∈ later.removed.map Record.job ∨ r.job ∈ later.bench.shelf.records.map Record.job) ∧
      ∀ r' ∈ later.bench.shelf.records, r'.id = r.id → r'.job = r.job := by
  have later : Sane unit (Workshop.play unit ws more) :=
    Workshop.play_induction sane_step sane more
  have begun : r.job ∈ (Workshop.play unit ws more).begun :=
    (Workshop.begun_play unit ws more).subset (sane.begun_of_mem hr)
  constructor
  · exact later.removed_or_shelved begun
  · intro r' hr' same
    exact later.job_unique (later.begun_of_mem hr') begun same

/-- After any schedule the fields of every record go with its status. From then on there is one
record with its id, name, source and origin, until a removal gives it back. -/
theorem records_sound (unit : Nat) (acts : List Act) {r : Record}
    (hr : r ∈ (Workshop.after unit acts).bench.shelf.records) :
    r.Sound ∧ ∀ more,
      let later := Workshop.after unit (acts ++ more)
      (r.job ∈ later.removed.map Record.job ∨ r.job ∈ later.bench.shelf.records.map Record.job) ∧
        ∀ r' ∈ later.bench.shelf.records, r'.id = r.id → r'.job = r.job := by
  have sane := sane_after unit acts
  constructor
  · obtain ⟨l, load, makes, told⟩ := sane.load_of_shelved hr
    exact makes_sound makes
  · intro more
    rw [Workshop.after_append]
    exact record_persists sane hr more

/-- Two loads take turns. The first is refused a tree, the second is in the middle of its work. -/
def refusedBesideConverted : List Act :=
  [.arrive "one".toList "def f(:".toList none 0, .arrive "two".toList "import os".toList none 9,
    .move 1, .move 0, .move 1, .move 0, .move 0, .move 1, .answer 0 (.error (.refused [])),
    .answer 1 (.ok (Tree.sketch "import os".toList)), .move 1, .move 0, .move 0]

theorem records_sound_of_refused :
    let r := Job.failed ⟨0, "one".toList, "def f(:".toList, none⟩ (.refused [])
    let later := Workshop.after 4 (refusedBesideConverted ++ [.remove 1])
    r ∈ (Workshop.after 4 refusedBesideConverted).bench.shelf.records ∧ r.Sound ∧
      (r.job ∈ later.removed.map Record.job ∨ r.job ∈ later.bench.shelf.records.map Record.job) ∧
      ∀ r' ∈ later.bench.shelf.records, r'.id = r.id → r'.job = r.job := by
  intro r later
  have both : (Workshop.after 4 refusedBesideConverted).bench.shelf.records =
      [Job.converted ⟨1, "two".toList, "import os".toList, none⟩
        (Tree.sketch "import os".toList), r] := rfl
  have hr : r ∈ (Workshop.after 4 refusedBesideConverted).bench.shelf.records := by
    rw [both]
    exact List.mem_cons_of_mem _ List.mem_cons_self
  have sound := records_sound 4 refusedBesideConverted hr
  exact ⟨hr, sound.1, sound.2 [.remove 1]⟩

end SwiftDraft.Workbench
