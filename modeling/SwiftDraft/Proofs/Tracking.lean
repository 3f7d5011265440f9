import SwiftDraft.Proofs.Progress

/-!
# One id among others

Everything a workshop holds about an id (the load, its record or what a removal gave back, what was
announced) is changed by the acts for that id alone, and stays in one of four situations. That holds
in every workshop a schedule leads to (`sane_after`).
-/

namespace SwiftDraft.Workbench

open Interpreter (TreeError)

namespace Workshop

/-- The pushes for an id. -/
def begunAs (ws : Workshop) (id : Id) : List Job := ws.begun.filter fun job => job.id = id

/-- The records with an id that were removed. -/
def removedAs (ws : Workshop) (id : Id) : List Record := ws.removed.filter fun r => r.id = id

theorem mem_begunAs {ws : Workshop} {id : Id} {job : Job} :
    job ∈ ws.begunAs id ↔ job ∈ ws.begun ∧ job.id = id := by
  simp [begunAs]

theorem mem_removedAs {ws : Workshop} {id : Id} {r : Record} :
    r ∈ ws.removedAs id ↔ r ∈ ws.removed ∧ r.id = id := by
  simp [removedAs]

end Workshop

/-- The four situations of an id: unknown, not pushed yet, on the shelf, removed. -/
inductive Tracked (unit : Nat) (ws : Workshop) (id : Id) : Prop
  | absent (load : ws.loads id = none) (begun : ws.begunAs id = [])
      (record : ws.bench.shelf.get? id = none) (removed : ws.removedAs id = [])
      (told : ws.bench.told id = [])
  | waiting {l : Load} (load : ws.loads id = some l) (key : l.job.id = id)
      (waits : l.stage = .begin) (unanswered : l.answer = none) (begun : ws.begunAs id = [])
      (record : ws.bench.shelf.get? id = none) (removed : ws.removedAs id = [])
      (told : ws.bench.told id = [])
  | shelved {l : Load} {r : Record} (load : ws.loads id = some l) (key : l.job.id = id)
      (begun : ws.begunAs id = [l.job]) (record : ws.bench.shelf.get? id = some r)
      (removed : ws.removedAs id = []) (makes : Makes (l.setting unit) l.job l.stage l.answer r)
      (told : Told l.stage r.history (ws.bench.told id))
  | gone {l : Load} {r : Record} (load : ws.loads id = some l) (key : l.job.id = id)
      (begun : ws.begunAs id = [l.job]) (record : ws.bench.shelf.get? id = none)
      (removed : ws.removedAs id = [r]) (later : l.stage ≠ .begin) (sound : r.Sound)
      (same : r.job = l.job) (told : Told l.stage r.history (ws.bench.told id))

/-- What holds between two acts. -/
structure Sane (unit : Nat) (ws : Workshop) : Prop where
  unused : ∀ id, ws.bench.nextId ≤ id → ws.loads id = none
  tracked : ∀ id, Tracked unit ws id
  collection : ws.bench.shelf.records.map Record.job =
    ws.begun.filter fun job => job.id ∉ ws.removed.map Record.id

namespace Tracked

variable {unit : Nat} {ws ws' : Workshop} {id : Id}

theorem key (h : Tracked unit ws id) {l : Load} (here : ws.loads id = some l) : l.job.id = id := by
  cases h with
  | absent load => simp [load] at here
  | waiting load key | shelved load key | gone load key =>
    rw [load] at here
    cases here
    exact key

theorem length_begunAs (h : Tracked unit ws id) : (ws.begunAs id).length ≤ 1 := by
  cases h with
  | absent _ begun | waiting _ _ _ _ begun | shelved _ _ begun | gone _ _ begun => simp [begun]

/-- What an act leaves alone stays as it is. -/
theorem congr (h : Tracked unit ws id) (load : ws'.loads id = ws.loads id)
    (begun : ws'.begunAs id = ws.begunAs id)
    (record : ws'.bench.shelf.get? id = ws.bench.shelf.get? id)
    (removed : ws'.removedAs id = ws.removedAs id) (told : ws'.bench.told id = ws.bench.told id) :
    Tracked unit ws' id := by
  cases h with
  | absent l b r g t =>
    exact .absent (load.trans l) (begun.trans b) (record.trans r) (removed.trans g) (told.trans t)
  | waiting l key waits unanswered b r g t =>
    exact .waiting (load.trans l) key waits unanswered (begun.trans b) (record.trans r)
      (removed.trans g) (told.trans t)
  | shelved l key b r g makes t =>
    exact .shelved (load.trans l) key (begun.trans b) (record.trans r) (removed.trans g) makes
      (told ▸ t)
  | gone l key b r g later sound same t =>
    exact .gone (load.trans l) key (begun.trans b) (record.trans r) (removed.trans g) later sound
      same (told ▸ t)

end Tracked

namespace Sane

variable {unit : Nat} {ws : Workshop}

theorem begun_nodup (sane : Sane unit ws) : (ws.begun.map Job.id).Nodup := by
  rw [List.nodup_iff_count_le_one]
  intro id
  have once := (sane.tracked id).length_begunAs
  unfold Workshop.begunAs at once
  rw [List.count, List.countP_map, List.countP_eq_length_filter]
  exact once

theorem distinct (sane : Sane unit ws) : ws.bench.shelf.Distinct := by
  have ids : ws.bench.shelf.records.map Record.id =
      (ws.bench.shelf.records.map Record.job).map Job.id := by simp [Record.job]
  unfold Shelf.Distinct
  rw [ids, sane.collection]
  exact sane.begun_nodup.sublist (List.filter_sublist.map Job.id)

theorem begun_of_mem (sane : Sane unit ws) {r : Record} (hr : r ∈ ws.bench.shelf.records) :
    r.job ∈ ws.begun := by
  have shelved : r.job ∈ ws.bench.shelf.records.map Record.job := List.mem_map_of_mem hr
  rw [sane.collection] at shelved
  exact (List.mem_filter.1 shelved).1

theorem job_unique (sane : Sane unit ws) {job job' : Job} (begun : job ∈ ws.begun)
    (begun' : job' ∈ ws.begun) (same : job.id = job'.id) : job = job' :=
  List.inj_on_of_nodup_map sane.begun_nodup begun begun' same

/-- The load of a record on the shelf. -/
theorem load_of_shelved (sane : Sane unit ws) {r : Record} (hr : r ∈ ws.bench.shelf.records) :
    ∃ l, ws.loads r.id = some l ∧ Makes (l.setting unit) l.job l.stage l.answer r ∧
      Told l.stage r.history (ws.bench.told r.id) := by
  have found := Shelf.get?_of_mem sane.distinct hr
  cases sane.tracked r.id with
  | absent _ _ record | waiting _ _ _ _ _ record | gone _ _ _ record => simp [found] at record
  | @shelved l r' load _ _ record _ makes told =>
    rw [found] at record
    cases record
    exact ⟨l, load, makes, told⟩

/-- The load of a record that was removed. -/
theorem load_of_removed (sane : Sane unit ws) {r : Record} (hr : r ∈ ws.removed) :
    ws.bench.shelf.get? r.id = none ∧ r.job ∈ ws.begun ∧ r.Sound ∧
      ∃ l, ws.loads r.id = some l ∧ l.job.id = r.id ∧ l.stage ≠ .begin ∧
        Told l.stage r.history (ws.bench.told r.id) := by
  have logged : r ∈ ws.removedAs r.id := Workshop.mem_removedAs.2 ⟨hr, rfl⟩
  cases sane.tracked r.id with
  | absent _ _ _ removed | waiting _ _ _ _ _ _ removed | shelved _ _ _ _ removed =>
    simp [removed] at logged
  | @gone l r' load key begun record removed later sound same told =>
    have only : r = r' := by simpa [removed] using logged
    subst only
    have pushed : r.job ∈ ws.begunAs r.id := by simp [begun, same]
    exact ⟨record, (Workshop.mem_begunAs.1 pushed).1, sound, l, load, key, later, told⟩

theorem removed_or_shelved (sane : Sane unit ws) {job : Job} (begun : job ∈ ws.begun) :
    job ∈ ws.removed.map Record.job ∨ job ∈ ws.bench.shelf.records.map Record.job := by
  by_cases removed : job.id ∈ ws.removed.map Record.id
  · obtain ⟨r, hr, same⟩ := List.mem_map.1 removed
    have pushed : r.job ∈ ws.begun := (sane.load_of_removed hr).2.1
    exact .inl (List.mem_map.2 ⟨r, hr, sane.job_unique pushed begun same⟩)
  · refine .inr ?_
    rw [sane.collection]
    exact List.mem_filter.2 ⟨begun, by simpa using removed⟩

end Sane

section Other

variable {unit : Nat} {ws : Workshop} {id other : Id} {l : Load}

theorem begunAs_moved (key : l.job.id = id) :
    (ws.moved unit id l).begunAs id = ws.begunAs id ++ l.opening := by
  unfold Workshop.begunAs Workshop.moved
  dsimp only
  rw [List.filter_append]
  congr 1
  unfold Load.opening
  split <;> simp [key]

theorem begunAs_moved_other (key : l.job.id = id) (ne : other ≠ id) :
    (ws.moved unit id l).begunAs other = ws.begunAs other := by
  unfold Workshop.begunAs Workshop.moved
  dsimp only
  rw [List.filter_append]
  unfold Load.opening
  split <;> simp [key, Ne.symm ne]

theorem tracked_moved_other (h : Tracked unit ws other) (key : l.job.id = id) (ne : other ≠ id) :
    Tracked unit (ws.moved unit id l) other := by
  have effect := step_effect (l.setting unit) l.job ws.bench l.stage
  have apart : other ≠ l.job.id := key ▸ ne
  apply h.congr
  · simp [Workshop.moved, ne]
  · exact begunAs_moved_other key ne
  · exact effect.get?_other apart
  · rfl
  · exact effect.told_other apart

end Other

section Own

variable {unit : Nat} {ws : Workshop} {id : Id} {l : Load}

theorem tracked_moved (h : Tracked unit ws id) (here : ws.loads id = some l) :
    Tracked unit (ws.moved unit id l) id := by
  have keyed := h.key here
  have now : (ws.moved unit id l).loads id =
      some { l with stage := (l.job.step (l.setting unit) ws.bench l.stage).2 } := by
    simp [Workshop.moved]
  cases h with
  | absent load => simp [load] at here
  | waiting load key waits unanswered begun record removed told =>
    rw [load] at here
    cases here
    have missing : ws.bench.shelf.get? l.job.id = none := key.symm ▸ record
    have pushed := Shelf.get?_push_self (r := l.job.fresh) missing
    refine .shelved now key ?_ (r := l.job.fresh) ?_ removed ?_ ?_
    · rw [begunAs_moved key, begun, Load.opening_begin waits, List.nil_append]
    · have shelf : (ws.moved unit id l).bench.shelf = ws.bench.shelf.push l.job.fresh := by
        simp [Workshop.moved, waits, Job.step, Job.fresh]
      rw [shelf, ← key]
      exact pushed
    · dsimp only
      rw [waits, unanswered]
      exact .announcing .analyzing
    · have silent : (ws.moved unit id l).bench.told id = [] := by
        simpa [Workshop.moved, waits, Job.step, Bench.told] using told
      rw [silent, waits]
      rfl
  | shelved load key begun record removed makes told =>
    rw [load] at here
    cases here
    subst key
    obtain ⟨r', record', makes', told'⟩ := makes_step makes record told
    refine .shelved now rfl ?_ record' removed makes' told'
    rw [begunAs_moved rfl, begun, Load.opening_of_ne (makes_ne_begin makes), List.append_nil]
  | gone load key begun record removed later sound same told =>
    rw [load] at here
    cases here
    subst key
    obtain ⟨later', record', told'⟩ := step_of_missing (l.setting unit) later record told
    refine .gone now rfl ?_ record' removed later' sound same told'
    rw [begunAs_moved rfl, begun, Load.opening_of_ne later, List.append_nil]

theorem tracked_answered (h : Tracked unit ws id) (answer : Except TreeError Tree)
    (here : ws.loads id = some l) (asks : l.stage = .ask) :
    Tracked unit
      { ws with
        loads := Function.update ws.loads id
          (some ⟨l.job, l.moment, Job.answered answer, some answer⟩) } id := by
  have now := Function.update_self id
    (some (⟨l.job, l.moment, Job.answered answer, some answer⟩ : Load)) ws.loads
  cases h with
  | absent load => simp [load] at here
  | waiting load key waits =>
    rw [load] at here
    cases here
    rw [waits] at asks
    cases asks
  | shelved load key begun record removed makes told =>
    rw [load] at here
    cases here
    rw [asks] at makes told
    cases makes_ask makes
    exact .shelved now key begun record removed (.answered answer) ((told_answered _ _ _).2 told)
  | gone load key begun record removed later sound same told =>
    rw [load] at here
    cases here
    rw [asks] at told
    exact .gone now key begun record removed (answered_ne_begin answer) sound same
      ((told_answered _ _ _).2 told)

theorem tracked_removed (sane : Sane unit ws) :
    Tracked unit
      { ws with
        bench := { ws.bench with shelf := ws.bench.shelf.remove id }
        removed := ws.removed ++ (ws.bench.shelf.get? id).toList } id := by
  have record' := Shelf.get?_remove_self sane.distinct id
  cases sane.tracked id with
  | absent load begun record removed told =>
    exact .absent load begun record' (by simpa [Workshop.removedAs, record] using removed) told
  | waiting load key waits unanswered begun record removed told =>
    exact .waiting load key waits unanswered begun record'
      (by simpa [Workshop.removedAs, record] using removed) told
  | @shelved l r load key begun record removed makes told =>
    refine .gone load key begun record' ?_ (makes_ne_begin makes) (makes_sound makes)
      (makes_job makes) told
    have hid : r.id = id := Shelf.id_of_get? record
    simpa [Workshop.removedAs, record, hid] using removed
  | gone load key begun record removed later sound same told =>
    exact .gone load key begun record' (by simpa [Workshop.removedAs, record] using removed) later
      sound same told

end Own

theorem tracked_removed_other {unit : Nat} {ws : Workshop} {id other : Id} (sane : Sane unit ws)
    (ne : other ≠ id) :
    Tracked unit
      { ws with
        bench := { ws.bench with shelf := ws.bench.shelf.remove id }
        removed := ws.removed ++ (ws.bench.shelf.get? id).toList } other := by
  refine (sane.tracked other).congr rfl rfl (Shelf.get?_remove_other sane.distinct ne) ?_ rfl
  cases record : ws.bench.shelf.get? id with
  | none => simp [Workshop.removedAs]
  | some r =>
    have hid : r.id = id := Shelf.id_of_get? record
    simp [Workshop.removedAs, hid, Ne.symm ne]

section Run

variable {unit : Nat} {ws ws' : Workshop} {a : Act}

theorem unused_step (step : Workshop.Step unit ws a ws') (sane : Sane unit ws) :
    ∀ id, ws'.bench.nextId ≤ id → ws'.loads id = none := by
  have here {id other : Id} {l : Load} (load : ws.loads id = some l)
      (bound : ws.bench.nextId ≤ other) : other ≠ id := by
    rintro rfl
    simp [sane.unused other bound] at load
  cases step with
  | idle | remove => exact sane.unused
  | arrive =>
    intro id bound
    have above : ws.bench.nextId < id := bound
    exact (Function.update_of_ne (Nat.ne_of_gt above) _ _).trans
      (sane.unused id (Nat.le_of_lt above))
  | @move id l load =>
    intro other bound
    have same : (ws.moved unit id l).bench.nextId = ws.bench.nextId :=
      (step_effect (l.setting unit) l.job ws.bench l.stage).nextId
    rw [same] at bound
    exact (Function.update_of_ne (here load bound) _ _).trans (sane.unused other bound)
  | answer _ load =>
    intro other bound
    exact (Function.update_of_ne (here load bound) _ _).trans (sane.unused other bound)

theorem tracked_step (step : Workshop.Step unit ws a ws') (sane : Sane unit ws) :
    ∀ id, Tracked unit ws' id := by
  intro other
  cases step with
  | idle => exact sane.tracked other
  | arrive name source origin moment =>
    by_cases new : other = ws.bench.nextId
    · subst new
      cases sane.tracked ws.bench.nextId with
      | absent load begun record removed told =>
        exact .waiting (Function.update_self ..) rfl rfl rfl begun record removed told
      | waiting load | shelved load | gone load => simp [sane.unused _ (Nat.le_refl _)] at load
    · exact (sane.tracked other).congr (Function.update_of_ne new _ _) rfl rfl rfl rfl
  | @move id l load =>
    by_cases own : other = id
    · subst own
      exact tracked_moved (sane.tracked other) load
    · exact tracked_moved_other (sane.tracked other) ((sane.tracked id).key load) own
  | @answer id l answer load asks =>
    by_cases own : other = id
    · subst own
      exact tracked_answered (sane.tracked other) answer load asks
    · exact (sane.tracked other).congr (Function.update_of_ne own _ _) rfl rfl rfl rfl
  | remove id =>
    by_cases own : other = id
    · subst own
      exact tracked_removed sane
    · exact tracked_removed_other sane own

/-- A record is pushed behind the others, and no removal has named its id before. -/
theorem collection_moved {id : Id} {l : Load} (sane : Sane unit ws) (load : ws.loads id = some l) :
    (ws.moved unit id l).bench.shelf.records.map Record.job =
      (ws.begun ++ l.opening).filter fun job => job.id ∉ ws.removed.map Record.id := by
  by_cases begins : l.stage = .begin
  · -- Had its id been removed before, the load would have begun.
    have kept : l.job.id ∉ ws.removed.map Record.id := by
      intro gone
      obtain ⟨r, hr, same⟩ := List.mem_map.1 gone
      have key := (sane.tracked id).key load
      have unremoved : ws.removedAs id = [] := by
        cases sane.tracked id with
        | absent _ _ _ removed | waiting _ _ _ _ _ _ removed | shelved _ _ _ _ removed =>
          exact removed
        | gone load' _ _ _ _ later =>
          rw [load] at load'
          cases load'
          exact absurd begins later
      have logged : r ∈ ws.removedAs id := Workshop.mem_removedAs.2 ⟨hr, same.trans key⟩
      simp [unremoved] at logged
    have pushed : (ws.moved unit id l).bench.shelf.records =
        ws.bench.shelf.records ++ [l.job.fresh] := by
      simp [Workshop.moved, begins, Job.step, Shelf.push, Job.fresh]
    rw [pushed, Load.opening_begin begins, List.map_append, sane.collection, List.filter_append]
    congr 1
    rw [List.filter_cons_of_pos (by simpa using kept)]
    rfl
  · rw [Load.opening_of_ne begins, List.append_nil, ← sane.collection]
    exact (step_effect (l.setting unit) l.job ws.bench l.stage).jobs begins

theorem collection_removed (sane : Sane unit ws) (id : Id) :
    (ws.bench.shelf.remove id).records.map Record.job =
      ws.begun.filter fun job =>
        job.id ∉ (ws.removed ++ (ws.bench.shelf.get? id).toList).map Record.id := by
  have filtered : (ws.bench.shelf.records.filter fun r => r.id ≠ id).map Record.job =
      (ws.bench.shelf.records.map Record.job).filter fun job => job.id ≠ id := by
    rw [List.filter_map]
    rfl
  rw [Shelf.records_remove sane.distinct, filtered, sane.collection, List.filter_filter]
  apply List.filter_congr
  intro job begun
  cases record : ws.bench.shelf.get? id with
  | some r =>
    have hid : r.id = id := Shelf.id_of_get? record
    rw [Option.toList_some, List.map_append, List.map_singleton, hid]
    by_cases same : job.id = id <;> simp [same]
  | none =>
    -- A job with this id is not on the shelf, so it has been removed already.
    by_cases same : job.id = id
    · have gone : job ∈ ws.removed.map Record.job := by
        refine (sane.removed_or_shelved begun).resolve_right ?_
        intro shelved
        obtain ⟨r, hr, rfl⟩ := List.mem_map.1 shelved
        exact Shelf.get?_eq_none_iff.1 record r hr same
      obtain ⟨r, hr, rfl⟩ := List.mem_map.1 gone
      have hid : r.id = id := same
      simpa [same] using ⟨r, hr, hid⟩
    · simp [same]

theorem sane_step (step : Workshop.Step unit ws a ws') (sane : Sane unit ws) : Sane unit ws' := by
  refine ⟨unused_step step sane, tracked_step step sane, ?_⟩
  cases step with
  | idle | arrive | answer => exact sane.collection
  | move load => exact collection_moved sane load
  | remove id => exact collection_removed sane id

theorem sane_empty (unit : Nat) : Sane unit Workshop.empty :=
  ⟨fun _ _ => rfl, fun _ => .absent rfl rfl rfl rfl rfl, rfl⟩

theorem sane_after (unit : Nat) (acts : List Act) : Sane unit (Workshop.after unit acts) :=
  Workshop.play_induction sane_step (sane_empty unit) acts

/-- After a schedule, a load that runs from its beginning to its end continues the schedule. -/
theorem load_after (unit : Nat) (acts : List Act) (provider : Text → Except TreeError Tree)
    (name source : Text) (origin : Option Text) (moment : Int) :
    let ws := Workshop.after unit acts
    let moves := List.replicate Job.enough (.move ws.bench.nextId)
    (ws.bench.load ⟨unit, Draft.timestamp moment⟩ provider name source origin).2 =
      (Workshop.after unit (acts ++ ([.arrive name source origin moment] ++ moves ++
        [.answer ws.bench.nextId (provider source)] ++ moves))).bench := by
  intro ws moves
  have sane : Sane unit ws := sane_after unit acts
  have new : ws.bench.shelf.get? ws.bench.nextId = none := by
    have unknown := sane.unused ws.bench.nextId (Nat.le_refl _)
    cases sane.tracked ws.bench.nextId with
    | absent _ _ record => exact record
    | waiting load | shelved load | gone load => simp [unknown] at load
  rw [Workshop.after_append]
  exact (load_played unit ws provider name source origin moment new).symm

end Run

end SwiftDraft.Workbench
