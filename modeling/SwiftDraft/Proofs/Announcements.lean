import SwiftDraft.Proofs.Tracking

/-!
# Announcements and histories

A status is committed to a record first and announced in a step of its own. Between the two the
announcements for a record lack the last entry of its history; at all other times, and when the load
is over, they are its history.
-/

namespace SwiftDraft.Workbench

/-- The load of an id has come to its end. -/
def Workshop.Returned (ws : Workshop) (id : Id) : Prop :=
  ∃ l, ws.loads id = some l ∧ l.stage = .done

/-- The record of an id, as it is on the shelf or as it was when it was removed. -/
def Workshop.Known (ws : Workshop) (id : Id) (r : Record) : Prop :=
  (r ∈ ws.bench.shelf.records ∨ r ∈ ws.removed) ∧ r.id = id

theorem Told.within {stage : Stage} {history told : List Status} (h : Told stage history told) :
    told <+: history ∧ history.length ≤ told.length + 1 := by
  cases stage with
  | announce status =>
    have last : history = told ++ [status] := h
    rw [last]
    exact ⟨List.prefix_append _ _, by simp⟩
  | begin | survey | ask | convert | fail | test | succeed | select | done =>
    have all : history = told := h
    rw [all]
    exact ⟨List.prefix_rfl, Nat.le_succ _⟩

theorem Record.Sound.history_bounded {r : Record} (sound : r.Sound) :
    r.history <+: Status.pipeline ∨ r.history <+: [.analyzing, .failed] := by
  rcases sound.history with ⟨_, within⟩ | failed
  · exact .inl within
  · exact .inr (failed ▸ List.prefix_rfl)

section

variable {unit : Nat} {ws : Workshop} {id : Id}

/-- Of a known id the load is there, and has told what its stage says. -/
theorem Sane.tells (sane : Sane unit ws) {r : Record} (known : ws.Known id r) :
    r.Sound ∧ ∃ l, ws.loads id = some l ∧ Told l.stage r.history (ws.bench.told id) := by
  obtain ⟨place, rfl⟩ := known
  rcases place with shelved | removed
  · obtain ⟨l, load, makes, told⟩ := sane.load_of_shelved shelved
    exact ⟨makes_sound makes, l, load, told⟩
  · obtain ⟨-, -, sound, l, load, -, -, told⟩ := sane.load_of_removed removed
    exact ⟨sound, l, load, told⟩

theorem Tracked.untold (h : Tracked unit ws id) (unknown : ∀ r, ¬ ws.Known id r) :
    ws.bench.told id = [] := by
  cases h with
  | absent _ _ _ _ told | waiting _ _ _ _ _ _ _ told => exact told
  | @shelved l r _ _ _ record =>
    exact absurd ⟨.inl (Shelf.mem_of_get? record), Shelf.id_of_get? record⟩ (unknown r)
  | @gone l r _ _ _ _ removed =>
    have logged : r ∈ ws.removedAs id := by simp [removed]
    obtain ⟨hr, same⟩ := Workshop.mem_removedAs.1 logged
    exact absurd ⟨.inr hr, same⟩ (unknown r)

end

/-- At every moment the statuses announced for an id are the history of its record, as it is or was
when it was removed, or lack its last entry; once the load has returned they lack none. An id
without a record has had no announcement. So they come in the order of the pipeline, each once. -/
theorem told_follows_history (unit : Nat) (acts : List Act) (id : Id) :
    let ws := Workshop.after unit acts
    (∀ r, ws.Known id r →
      ws.bench.told id <+: r.history ∧ r.history.length ≤ (ws.bench.told id).length + 1 ∧
        (ws.Returned id → ws.bench.told id = r.history)) ∧
      ((∀ r, ¬ ws.Known id r) → ws.bench.told id = []) ∧
      (ws.bench.told id <+: Status.pipeline ∨ ws.bench.told id <+: [.analyzing, .failed]) := by
  intro ws
  have sane : Sane unit ws := sane_after unit acts
  have untold := (sane.tracked id).untold
  refine ⟨?_, untold, ?_⟩
  · intro r known
    obtain ⟨-, l, load, told⟩ := sane.tells known
    obtain ⟨within, short⟩ := told.within
    refine ⟨within, short, ?_⟩
    rintro ⟨l', load', ended⟩
    rw [load] at load'
    cases load'
    rw [ended] at told
    exact told.symm
  · by_cases someone : ∃ r, ws.Known id r
    · obtain ⟨r, known⟩ := someone
      obtain ⟨sound, l, load, told⟩ := sane.tells known
      exact sound.history_bounded.imp told.within.1.trans told.within.1.trans
    · rw [untold (not_exists.1 someone)]
      exact .inl List.nil_prefix

/-- A record is removed after it was pushed and before its first status is announced. -/
def removedUnannounced : List Act :=
  [.arrive "one".toList "x = 1".toList none 0, .move 0, .remove 0, .move 0, .move 0]

theorem told_follows_history_of_removed :
    let ws := Workshop.after 4 removedUnannounced
    let r := Job.fresh ⟨0, "one".toList, "x = 1".toList, none⟩
    ws.Known 0 r ∧ ws.Returned 0 ∧ ws.bench.shelf.records = [] ∧ ws.bench.told 0 = r.history := by
  intro ws r
  have removed : ws.removed = [r] := rfl
  have known : ws.Known 0 r := ⟨.inr (by simp [removed]), rfl⟩
  have returned : ws.Returned 0 :=
    ⟨⟨r.job, 0, .done, none⟩, rfl, rfl⟩
  have follows := told_follows_history 4 removedUnannounced 0
  exact ⟨known, returned, rfl, (follows.1 r known).2.2 returned⟩

end SwiftDraft.Workbench
