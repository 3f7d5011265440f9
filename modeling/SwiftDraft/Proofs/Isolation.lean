import SwiftDraft.Proofs.Stamp
import SwiftDraft.Proofs.Tracking
import SwiftDraft.Tree.Sketch

/-!
# Loads do not disturb each other

The records on the shelf are those that were pushed and not removed; a removed record stays away;
and the record of a load that has returned is the one it would have made alone.
-/

namespace SwiftDraft.Workbench

open Interpreter (TreeError)

/-- A record without its id and without the moment that its draft names. -/
def Record.unstamped (r : Record) : Record :=
  { r with id := 0, draft := r.draft.map Draft.unstamped }

/-- The acts by which a load goes on. -/
def Act.Of (id : Id) (a : Act) : Prop := a = .move id ∨ ∃ answer, a = .answer id answer

/-- The load of an id may have gone on, and nothing else has changed. Only a load that selects its
record moves the pointer. -/
structure Workshop.SameBut (id : Id) (ws ws' : Workshop) : Prop where
  records : ws'.bench.shelf.records = ws.bench.shelf.records
  begun : ws'.begun = ws.begun
  removed : ws'.removed = ws.removed
  loads : ∀ other, other ≠ id → ws'.loads other = ws.loads other
  told : ∀ other, other ≠ id → ws'.bench.told other = ws.bench.told other
  current : (∀ l, ws.loads id = some l → l.stage ≠ .select) →
    ws'.bench.shelf.current = ws.bench.shelf.current

/-- The record that the load of a script makes on a bench of its own. -/
def Job.alone (setting : Setting) (job : Job) (answer : Except TreeError Tree) : Option Record :=
  let (id, bench) := Bench.empty.load setting (fun _ => answer) job.name job.source job.origin
  bench.shelf.get? id

/-- The record that a load ends with when nothing stops it. -/
def Job.outcome (setting : Setting) (job : Job) : Except TreeError Tree → Record
  | .ok tree => job.succeeded setting tree
  | .error error => job.failed error

theorem makes_done {setting : Setting} {job : Job} {answer : Option (Except TreeError Tree)}
    {r : Record} (makes : Makes setting job .done answer r) :
    ∃ given, answer = some given ∧ r = job.outcome setting given := by
  generalize ended : Stage.done = stage at makes
  cases makes with
  | announcing | asking => cases ended
  | @announced status _ _ takes =>
    cases takes with
    | failed error => exact ⟨.error error, rfl, rfl⟩
    | analyzing | converting | testing | success => cases ended
  | answered answer => cases answer <;> cases ended
  | selected tree => exact ⟨.ok tree, rfl, rfl⟩

theorem alone_eq (setting : Setting) (job : Job) (answer : Except TreeError Tree) :
    job.alone setting answer = some (Job.outcome setting { job with id := 0 } answer) := by
  cases answer with
  | ok tree => rfl
  | error error => rfl

/-- Neither the id nor the moment matters for what a load makes of its script. -/
theorem unstamped_outcome (unit : Nat) (m m' : Int) (job : Job) (id : Id)
    (answer : Except TreeError Tree) :
    (job.outcome ⟨unit, Draft.timestamp m⟩ answer).unstamped =
      (Job.outcome ⟨unit, Draft.timestamp m'⟩ { job with id } answer).unstamped := by
  cases answer with
  | error error =>
    change (job.failed error).unstamped = (Job.failed { job with id } error).unstamped
    rfl
  | ok tree =>
    have draft := Draft.unstamped_ofScript unit m m' job.source
    have tests := Skeleton.tests_ofScript unit m m' job.source
    simp only [Job.outcome, Job.succeeded, Job.tested, Job.converted, Job.surveyed, Job.fresh,
      Record.new, Record.unstamped, Job.draft, Option.map_some]
    rw [draft, tests]

/-- Only the first step and the selection move the pointer. -/
theorem Effect.current {job : Job} {bench bench' : Bench} {stage : Stage}
    (e : Effect job bench stage bench') (later : stage ≠ .begin) (unselected : stage ≠ .select) :
    bench'.shelf.current = bench.shelf.current := by
  cases e with
  | nothing | announce => rfl
  | push => exact absurd rfl later
  | change _ keeps changed => exact Shelf.current_of_change changed
  | select => exact absurd rfl unselected

section

variable {unit : Nat} {ws : Workshop} {id : Id} {l : Load}

/-- The pushes are those of the loads that have begun, one for each. -/
theorem mem_begun_iff (sane : Sane unit ws) {job : Job} :
    job ∈ ws.begun ↔ ∃ l, ws.loads job.id = some l ∧ l.job = job ∧ l.stage ≠ .begin := by
  have listed : job ∈ ws.begun ↔ job ∈ ws.begunAs job.id := by simp [Workshop.mem_begunAs]
  rw [listed]
  cases sane.tracked job.id with
  | absent load begun => simp [load, begun]
  | waiting load _ waits _ begun => simp [load, begun, waits]
  | shelved load _ begun _ _ makes =>
    have later := makes_ne_begin makes
    simp [load, begun, eq_comm (a := job), later]
  | gone load _ begun _ _ later => simp [load, begun, eq_comm (a := job), later]

/-- The load of a removed record changes no record, and nothing of another load. -/
theorem sameBut_of_removed (sane : Sane unit ws) {r : Record} (hr : r ∈ ws.removed) {a : Act}
    (own : a.Of r.id) : ws.SameBut r.id (ws.act unit a) := by
  obtain ⟨missing, -, -, l, load, key, later, -⟩ := sane.load_of_removed hr
  have step := Workshop.act_step unit ws a
  generalize ws.act unit a = ws' at step
  cases step with
  | idle => exact ⟨rfl, rfl, rfl, fun _ _ => rfl, fun _ _ => rfl, fun _ => rfl⟩
  | arrive | remove => simp [Act.Of] at own
  | @move id _ load' =>
    have same : id = r.id := by simpa [Act.Of] using own
    subst same
    rw [load] at load'
    cases load'
    have effect := step_effect (l.setting unit) l.job ws.bench l.stage
    refine ⟨effect.records_of_missing later (key ▸ missing), ?_, rfl, ?_, ?_, ?_⟩
    · change ws.begun ++ l.opening = ws.begun
      rw [Load.opening_of_ne later, List.append_nil]
    · intro other ne
      exact Function.update_of_ne ne _ _
    · intro other ne
      exact effect.told_other (key.symm ▸ ne)
    · intro unselected
      exact effect.current later (unselected l load)
  | @answer id l answer load asks =>
    have same : id = r.id := by simpa [Act.Of] using own
    subst same
    refine ⟨rfl, rfl, rfl, ?_, fun _ _ => rfl, fun _ => rfl⟩
    intro other ne
    exact Function.update_of_ne ne _ _

/-- A load that returned and whose record was not removed was answered, and made all of that. -/
theorem returned_outcome (sane : Sane unit ws) (load : ws.loads id = some l)
    (ended : l.stage = .done) (kept : id ∉ ws.removed.map Record.id) :
    ∃ answer, l.answer = some answer ∧
      ws.bench.shelf.get? id = some (l.job.outcome (l.setting unit) answer) := by
  cases sane.tracked id with
  | absent none => simp [none] at load
  | waiting load' _ waits =>
    rw [load] at load'
    cases load'
    rw [ended] at waits
    cases waits
  | shelved load' _ _ record _ makes =>
    rw [load] at load'
    cases load'
    rw [ended] at makes
    obtain ⟨answer, answered, rfl⟩ := makes_done makes
    exact ⟨answer, answered, record⟩
  | @gone l' r _ _ _ _ removed =>
    have logged : r ∈ ws.removedAs id := by simp [removed]
    exact absurd (List.mem_map.2 ⟨r, Workshop.mem_removedAs.1 logged⟩) kept

end

/-- Loads do not disturb each other. The shelf holds what the loads have pushed, in the order of the
pushes, without what was removed. A removed record does not come back, and its load changes no
record again. A load that returned, its record not removed, made the one that it makes alone. -/
theorem loads_isolated (unit : Nat) (acts : List Act) :
    let ws := Workshop.after unit acts
    ((ws.begun.map Job.id).Nodup ∧
      (∀ job, job ∈ ws.begun ↔ ∃ l, ws.loads job.id = some l ∧ l.job = job ∧ l.stage ≠ .begin) ∧
      ws.bench.shelf.records.map Record.job =
        ws.begun.filter fun job => job.id ∉ ws.removed.map Record.id) ∧
    (∀ r ∈ ws.removed, ∀ more,
      let later := Workshop.after unit (acts ++ more)
      later.bench.shelf.get? r.id = none ∧
        ∀ a : Act, a.Of r.id → later.SameBut r.id (later.act unit a)) ∧
    ∀ id l, ws.loads id = some l → l.stage = .done → id ∉ ws.removed.map Record.id →
      ∃ answer r, l.answer = some answer ∧ ws.bench.shelf.get? id = some r ∧
        ∀ moment, ∃ r', l.job.alone ⟨unit, Draft.timestamp moment⟩ answer = some r' ∧
          r.unstamped = r'.unstamped := by
  intro ws
  have sane : Sane unit ws := sane_after unit acts
  refine ⟨⟨sane.begun_nodup, fun _ => mem_begun_iff sane, sane.collection⟩, ?_, ?_⟩
  · intro r hr more later
    have sane' : Sane unit later := sane_after unit (acts ++ more)
    have hr' : r ∈ later.removed := by
      have kept := Workshop.removed_play unit ws more
      rw [← Workshop.after_append] at kept
      exact kept.subset hr
    exact ⟨(sane'.load_of_removed hr').1, fun a own => sameBut_of_removed sane' hr' own⟩
  · intro id l load ended kept
    obtain ⟨answer, answered, record⟩ := returned_outcome sane load ended kept
    refine ⟨answer, _, answered, record, ?_⟩
    intro moment
    exact ⟨_, alone_eq _ _ _, unstamped_outcome unit l.moment moment l.job 0 answer⟩

/-- Two loads take turns. The record of the first is removed, the second comes to its end. -/
def removedBesideFinished : List Act :=
  [.arrive "one".toList "x = 1".toList none 0, .arrive "two".toList "import os".toList none 9,
    .move 1, .move 0, .move 1, .remove 0, .move 1,
    .answer 1 (.ok (Tree.sketch "import os".toList))] ++ List.replicate 7 (.move 1)

theorem loads_isolated_of_removed :
    let ws := Workshop.after 4 removedBesideFinished
    let job : Job := ⟨1, "two".toList, "import os".toList, none⟩
    ws.bench.shelf.records.map Record.job = [job] ∧
      ws.SameBut 0 (ws.act 4 (.move 0)) ∧
      ∃ answer r, ws.bench.shelf.get? 1 = some r ∧ ∀ moment,
        ∃ r', job.alone ⟨4, Draft.timestamp moment⟩ answer = some r' ∧
          r.unstamped = r'.unstamped := by
  intro ws job
  obtain ⟨⟨-, -, collection⟩, gone, finished⟩ := loads_isolated 4 removedBesideFinished
  let first : Job := ⟨0, "one".toList, "x = 1".toList, none⟩
  have begun : ws.begun = [job, first] := rfl
  have removed : ws.removed = [first.fresh] := rfl
  have load : ws.loads 1 = some ⟨job, 9, .done, some (.ok (Tree.sketch "import os".toList))⟩ := rfl
  refine ⟨?_, ?_, ?_⟩
  · rw [collection]
    change (ws.begun.filter fun job => job.id ∉ ws.removed.map Record.id) = [job]
    rw [begun, removed]
    rfl
  · have logged : first.fresh ∈ ws.removed := by simp [removed]
    exact (gone first.fresh logged []).2 (.move 0) (.inl rfl)
  · have kept : 1 ∉ ws.removed.map Record.id := by
      rw [removed]
      decide
    obtain ⟨answer, r, _, record, same⟩ := finished 1 _ load rfl kept
    exact ⟨answer, r, record, same⟩

end SwiftDraft.Workbench
