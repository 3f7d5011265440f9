import SwiftDraft.Workbench.Load
import Mathlib.Data.List.Nodup

/-!
# Looking records up

What a lookup finds after a shelf has been changed. A change touches one record and keeps the script
it was made for; ids stay distinct because pushes use new ones.
-/

namespace SwiftDraft.Workbench

/-- The script of a record, which no stage of a load changes. -/
def Record.job (r : Record) : Job := ⟨r.id, r.name, r.source, r.origin⟩

/-- A change of records that leaves the script alone. -/
def KeepsJob (f : Record → Option Record) : Prop := ∀ r r', f r = some r' → r'.job = r.job

theorem keepsJob_some {fill : Record → Record} (keeps : ∀ r, (fill r).job = r.job) :
    KeepsJob fun r => some (fill r) := by
  intro r r' h
  cases h
  exact keeps r

theorem keepsJob_advance (next : Status) (fill : Record → Record)
    (keeps : ∀ r, (fill r).job = r.job) : KeepsJob (Record.advance next fill) := by
  intro r r' h
  unfold Record.advance at h
  split at h
  · cases h
    exact keeps r
  · cases h

namespace Shelf

/-- No two records have the same id. -/
def Distinct (s : Shelf) : Prop := (s.records.map Record.id).Nodup

theorem id_of_get? {s : Shelf} {id : Id} {r : Record} (h : s.get? id = some r) : r.id = id := by
  simpa using List.find?_some h

theorem mem_of_get? {s : Shelf} {id : Id} {r : Record} (h : s.get? id = some r) :
    r ∈ s.records := List.mem_of_find?_eq_some h

theorem get?_eq_none_iff {s : Shelf} {id : Id} :
    s.get? id = none ↔ ∀ r ∈ s.records, r.id ≠ id := by
  simp [get?]

theorem get?_of_mem {s : Shelf} (distinct : s.Distinct) {r : Record} (hr : r ∈ s.records) :
    s.get? r.id = some r := by
  cases found : s.get? r.id with
  | none => exact absurd rfl (get?_eq_none_iff.1 found r hr)
  | some r' =>
    have same : r' = r :=
      List.inj_on_of_nodup_map distinct (mem_of_get? found) hr (id_of_get? found)
    rw [same]

theorem get?_push_self {s : Shelf} {r : Record} (h : s.get? r.id = none) :
    (s.push r).get? r.id = some r := by
  unfold get? at h
  simp [get?, push, List.find?_append, h]

theorem get?_push_other {s : Shelf} {r : Record} {id : Id} (h : id ≠ r.id) :
    (s.push r).get? id = s.get? id := by
  simp [get?, push, List.find?_append, Ne.symm h]

/-- A change is made at the first record with the id. -/
theorem split_of_changeIn {id : Id} {f : Record → Option Record} {rs rs' : List Record}
    (h : changeIn id f rs = some rs') :
    ∃ before r r' behind, rs = before ++ r :: behind ∧ rs' = before ++ r' :: behind ∧
      (∀ x ∈ before, x.id ≠ id) ∧ r.id = id ∧ f r = some r' := by
  induction rs generalizing rs' with
  | nil => simp [changeIn] at h
  | cons first rest ih =>
    unfold changeIn at h
    split at h
    · next same =>
      obtain ⟨r', hr', rfl⟩ := Option.map_eq_some_iff.1 h
      exact ⟨[], first, r', rest, rfl, rfl, by simp, same, hr'⟩
    · next other =>
      obtain ⟨rest', hrest, rfl⟩ := Option.map_eq_some_iff.1 h
      obtain ⟨before, r, r', behind, rfl, rfl, apart, same, hr'⟩ := ih hrest
      refine ⟨first :: before, r, r', behind, rfl, rfl, ?_, same, hr'⟩
      intro x hx
      rcases List.mem_cons.1 hx with rfl | hx
      · exact other
      · exact apart x hx

theorem changeIn_eq_none_iff {id : Id} {f : Record → Option Record} {rs : List Record} :
    changeIn id f rs = none ↔ (rs.find? fun r => r.id = id).bind f = none := by
  induction rs with
  | nil => simp [changeIn]
  | cons first rest ih =>
    unfold changeIn
    by_cases same : first.id = id
    · simp [same]
    · simpa [same] using ih

section Change

variable {s t : Shelf} {id : Id} {f : Record → Option Record}

theorem change_eq_none_iff : s.change id f = none ↔ (s.get? id).bind f = none := by
  simp only [change, Option.map_eq_none_iff]
  exact changeIn_eq_none_iff

theorem split_of_change (h : s.change id f = some t) :
    ∃ before r r' behind, s.records = before ++ r :: behind ∧ t.records = before ++ r' :: behind ∧
      (∀ x ∈ before, x.id ≠ id) ∧ r.id = id ∧ f r = some r' := by
  obtain ⟨records, changed, rfl⟩ := Option.map_eq_some_iff.1 h
  exact split_of_changeIn changed

theorem current_of_change (h : s.change id f = some t) : t.current = s.current := by
  obtain ⟨records, _, rfl⟩ := Option.map_eq_some_iff.1 h
  rfl

theorem jobs_of_change (keeps : KeepsJob f) (h : s.change id f = some t) :
    t.records.map Record.job = s.records.map Record.job := by
  obtain ⟨before, r, r', behind, hs, ht, -, -, hr⟩ := split_of_change h
  simp [hs, ht, keeps r r' hr]

theorem get?_change_self (keeps : KeepsJob f) (h : s.change id f = some t) :
    t.get? id = (s.get? id).bind f := by
  obtain ⟨before, r, r', behind, hs, ht, apart, same, hr⟩ := split_of_change h
  have same' : r'.id = id := (congrArg Job.id (keeps r r' hr)).trans same
  have skipped : before.find? (fun x => x.id = id) = none := by simpa using apart
  simp [get?, hs, ht, List.find?_append, skipped, same, same', hr]

theorem get?_change_other (keeps : KeepsJob f) (h : s.change id f = some t) {other : Id}
    (ne : other ≠ id) : t.get? other = s.get? other := by
  obtain ⟨before, r, r', behind, hs, ht, -, same, hr⟩ := split_of_change h
  have same' : r'.id = id := (congrArg Job.id (keeps r r' hr)).trans same
  simp [get?, hs, ht, List.find?_append, same, same', Ne.symm ne]

/-- A change that the record allows is made. -/
theorem exists_change (keeps : KeepsJob f) {r r' : Record} (found : s.get? id = some r)
    (allowed : f r = some r') : ∃ t, s.change id f = some t ∧ t.get? id = some r' := by
  cases h : s.change id f with
  | none => simp [change_eq_none_iff, found, allowed] at h
  | some t => exact ⟨t, rfl, by simp [get?_change_self keeps h, found, allowed]⟩

end Change

theorem eraseP_eq_filter {rs : List Record} (nodup : (rs.map Record.id).Nodup) (id : Id) :
    rs.eraseP (fun r => r.id = id) = rs.filter fun r => r.id ≠ id := by
  induction rs with
  | nil => rfl
  | cons r rest ih =>
    obtain ⟨apart, nodup⟩ := List.nodup_cons.1 nodup
    by_cases same : r.id = id
    · have kept : rest.filter (fun x => x.id ≠ id) = rest := by
        apply List.filter_eq_self.2
        intro x hx
        have ne : x.id ≠ id := fun hid => apart (List.mem_map.2 ⟨x, hx, hid.trans same.symm⟩)
        simpa using ne
      rw [List.eraseP_cons_of_pos (by simpa using same),
        List.filter_cons_of_neg (by simpa using same), kept]
    · rw [List.eraseP_cons_of_neg (by simpa using same),
        List.filter_cons_of_pos (by simpa using same), ih nodup]

theorem records_remove {s : Shelf} (distinct : s.Distinct) (id : Id) :
    (s.remove id).records = s.records.filter fun r => r.id ≠ id := by
  unfold remove
  split
  · exact eraseP_eq_filter distinct id
  · next absent =>
    have missing : s.get? id = none := by simpa using absent
    symm
    simpa using get?_eq_none_iff.1 missing

theorem get?_remove_self {s : Shelf} (distinct : s.Distinct) (id : Id) :
    (s.remove id).get? id = none := by
  simp [get?_eq_none_iff, records_remove distinct]

theorem get?_remove_other {s : Shelf} (distinct : s.Distinct) {id other : Id}
    (ne : other ≠ id) : (s.remove id).get? other = s.get? other := by
  unfold get?
  rw [records_remove distinct, List.find?_filter]
  congr 1
  funext r
  by_cases same : r.id = other
  · simp [same, ne]
  · simp [same]

end Shelf

/-- The statuses that were announced for an id, the oldest first. -/
def Bench.told (bench : Bench) (id : Id) : List Status :=
  (bench.announced.filter fun a => a.id = id).map Announcement.status

end SwiftDraft.Workbench
