import SwiftDraft.Proofs.Tracking
import SwiftDraft.Tree.Sketch
import Mathlib.Data.List.Induction

/-!
# The current record

Pushes, changes and removals leave the shelf with a current record of its own, as long as it has any
record. The last step of a load selects its record without looking whether it is still there, so a
schedule keeps the pointer right exactly as long as no removal comes between the announced success
and that step (`pointsRight_iff_timely`). One does in `pointer_dangles`.
-/

namespace SwiftDraft.Workbench

/-- No record is current on an empty shelf, and one of the records is on any other. -/
def Shelf.PointsRight (s : Shelf) : Prop :=
  (s.current = none ↔ s.records = []) ∧ ∀ id, s.current = some id → ∃ r ∈ s.records, r.id = id

/-- An act by which a load selects its record after that was removed. -/
def Workshop.SelectsLate (ws : Workshop) (a : Act) : Prop :=
  ∃ id l, a = .move id ∧ ws.loads id = some l ∧ l.stage = .select ∧ ws.bench.shelf.get? id = none

namespace Shelf

variable {s t : Shelf}

theorem pointsRight_empty : empty.PointsRight := by
  constructor
  · simp [empty]
  · intro id h
    cases h

theorem pointsRight_push (s : Shelf) (r : Record) : (s.push r).PointsRight := by
  constructor
  · simp [push]
  · intro id h
    cases h
    exact ⟨r, by simp [push], rfl⟩

theorem pointsRight_select {id : Id} {r : Record} (found : s.get? id = some r) :
    (s.select id).PointsRight := by
  have member : r ∈ s.records := mem_of_get? found
  constructor
  · have filled : s.records ≠ [] := List.ne_nil_of_mem member
    simpa [select] using filled
  · intro id' h
    cases h
    exact ⟨r, member, id_of_get? found⟩

theorem pointsRight_congr (right : s.PointsRight) (current : t.current = s.current)
    (jobs : t.records.map Record.job = s.records.map Record.job) : t.PointsRight := by
  constructor
  · rw [current, right.1, ← List.map_eq_nil_iff (f := Record.job), ← jobs, List.map_eq_nil_iff]
  · intro id h
    rw [current] at h
    obtain ⟨r, hr, hid⟩ := right.2 id h
    have kept : r.job ∈ t.records.map Record.job := jobs ▸ List.mem_map_of_mem hr
    obtain ⟨r', hr', same⟩ := List.mem_map.1 kept
    exact ⟨r', hr', (congrArg Job.id same).trans hid⟩

theorem current_remove {id : Id} {r : Record} (found : s.get? id = some r) :
    (s.remove id).current =
      if s.current = some id then (s.remove id).records.head?.map Record.id else s.current := by
  simp [remove, found]

theorem pointsRight_remove (distinct : s.Distinct) (right : s.PointsRight) (id : Id) :
    (s.remove id).PointsRight := by
  cases found : s.get? id with
  | none =>
    have same : s.remove id = s := by simp [remove, found]
    exact same.symm ▸ right
  | some r =>
    have current := current_remove found
    by_cases pointed : s.current = some id
    · rw [if_pos pointed] at current
      unfold PointsRight
      rw [current]
      constructor
      · simp
      · intro id' h
        obtain ⟨first, hfirst, rfl⟩ := Option.map_eq_some_iff.1 h
        exact ⟨first, List.mem_of_mem_head? hfirst, rfl⟩
    · rw [if_neg pointed] at current
      have member : r ∈ s.records := mem_of_get? found
      obtain ⟨other, hother⟩ : ∃ other, s.current = some other := by
        cases hc : s.current with
        | none => exact absurd (right.1.1 hc) (List.ne_nil_of_mem member)
        | some other => exact ⟨other, rfl⟩
      have ne : other ≠ id := by
        rintro rfl
        exact pointed hother
      obtain ⟨r', hr', hid⟩ := right.2 other hother
      have kept : r' ∈ (s.remove id).records := by
        rw [records_remove distinct]
        exact List.mem_filter.2 ⟨hr', by simpa [hid] using ne⟩
      unfold PointsRight
      rw [current, hother]
      constructor
      · simpa using List.ne_nil_of_mem kept
      · intro id' h
        cases h
        exact ⟨r', kept, hid⟩

end Shelf

theorem Effect.pointsRight {job : Job} {bench bench' : Bench} {stage : Stage}
    (e : Effect job bench stage bench') (right : bench.shelf.PointsRight)
    (timely : stage = .select → bench.shelf.get? job.id ≠ none) : bench'.shelf.PointsRight := by
  cases e with
  | nothing | announce => exact right
  | push => exact Shelf.pointsRight_push _ _
  | change _ keeps changed =>
    exact Shelf.pointsRight_congr right (Shelf.current_of_change changed)
      (Shelf.jobs_of_change keeps changed)
  | select =>
    obtain ⟨r, found⟩ := Option.ne_none_iff_exists'.1 (timely rfl)
    exact Shelf.pointsRight_select found

section

variable {unit : Nat} {ws ws' : Workshop} {a : Act}

theorem pointsRight_step (step : Workshop.Step unit ws a ws') (sane : Sane unit ws)
    (timely : ¬ ws.SelectsLate a) (right : ws.bench.shelf.PointsRight) :
    ws'.bench.shelf.PointsRight := by
  cases step with
  | idle | arrive | answer => exact right
  | @move id l here =>
    apply (step_effect (l.setting unit) l.job ws.bench l.stage).pointsRight right
    intro selects missing
    have key := (sane.tracked id).key here
    exact timely ⟨id, l, rfl, here, selects, key ▸ missing⟩
  | remove id => exact Shelf.pointsRight_remove sane.distinct right id

theorem not_pointsRight_of_late (sane : Sane unit ws) (late : ws.SelectsLate a) :
    ¬ (ws.act unit a).bench.shelf.PointsRight := by
  obtain ⟨id, l, rfl, here, selects, missing⟩ := late
  have key := (sane.tracked id).key here
  have shelf : (ws.act unit (.move id)).bench.shelf = ws.bench.shelf.select id := by
    rw [Workshop.act_move here]
    simp [Workshop.moved, selects, Job.step, key]
  intro right
  rw [shelf] at right
  obtain ⟨r, hr, hid⟩ := right.2 id rfl
  exact Shelf.get?_eq_none_iff.1 missing r hr hid

end

/-- Along a schedule the pointer is right everywhere if and only if no load selects its record after
that was removed. -/
theorem pointsRight_iff_timely (unit : Nat) (acts : List Act) :
    (∀ before, before <+: acts → (Workshop.after unit before).bench.shelf.PointsRight) ↔
      ∀ before a, before ++ [a] <+: acts → ¬ (Workshop.after unit before).SelectsLate a := by
  constructor
  · intro right before a within late
    have wrong := not_pointsRight_of_late (sane_after unit before) late
    have now := right (before ++ [a]) within
    rw [Workshop.after_append] at now
    exact wrong now
  · intro timely before
    -- From the end: only the last act can be the late one.
    induction before using List.reverseRecOn with
    | nil => exact fun _ => Shelf.pointsRight_empty
    | append_singleton before a ih =>
      intro within
      have earlier := ih ((List.prefix_append before [a]).trans within)
      rw [Workshop.after_append]
      exact pointsRight_step (Workshop.act_step unit _ a) (sane_after unit before)
        (timely before a within) earlier

/-- The only load runs to its announced success, its record is removed, and it selects that. -/
def removedBeforeSelect : List Act :=
  let moves (n : Nat) : List Act := List.replicate n (.move 0)
  [.arrive [] [] none 0] ++ moves 3 ++ [.answer 0 (.ok (Tree.sketch []))] ++ moves 6 ++
    [.remove 0, .move 0]

/-- An empty shelf whose pointer still names the record that was on it. -/
theorem pointer_dangles :
    ¬ ∀ unit acts, (Workshop.after unit acts).bench.shelf.PointsRight := by
  intro right
  have empty : (Workshop.after 4 removedBeforeSelect).bench.shelf.records = [] := rfl
  have named : (Workshop.after 4 removedBeforeSelect).bench.shelf.current = some 0 := rfl
  have none := (right 4 removedBeforeSelect).1.2 empty
  rw [named] at none
  cases none

end SwiftDraft.Workbench
