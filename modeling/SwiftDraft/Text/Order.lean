import SwiftDraft.Text.Basic

/-!
# Sorted texts

Texts in the order of their code points, each once: as a set, and as the keys of entries.
-/

namespace SwiftDraft.Text

theorem lt_of_not_lt {a b : Text} (h : ¬ a < b) (ne : a ≠ b) : b < a := by
  by_cases less : b < a
  · exact less
  · exact absurd (List.le_antisymm (List.not_lt.1 less) (List.not_lt.1 h)) ne

/-- Adds a text to sorted ones, unless it is there. -/
def insertText (t : Text) : List Text → List Text
  | [] => [t]
  | s :: rest =>
    if t = s then s :: rest
    else if t < s then t :: s :: rest
    else s :: insertText t rest

theorem mem_insertText {t u : Text} {ts : List Text} : u ∈ insertText t ts ↔ u = t ∨ u ∈ ts := by
  induction ts with
  | nil => simp [insertText]
  | cons s rest ih =>
    simp only [insertText]
    split
    · next same => simp [same]
    · split
      · simp
      · simp only [List.mem_cons, ih]
        exact or_left_comm

theorem pairwise_insertText {t : Text} {ts : List Text} (h : ts.Pairwise (· < ·)) :
    (insertText t ts).Pairwise (· < ·) := by
  induction ts with
  | nil => simp [insertText]
  | cons s rest ih =>
    obtain ⟨first, tail⟩ := List.pairwise_cons.1 h
    simp only [insertText]
    split
    · exact h
    · next other =>
      split
      · next less =>
        refine List.pairwise_cons.2 ⟨fun u hu => ?_, h⟩
        rcases List.mem_cons.1 hu with rfl | hu
        · exact less
        · exact List.lt_trans less (first u hu)
      · next notLess =>
        refine List.pairwise_cons.2 ⟨fun u hu => ?_, ih tail⟩
        rcases mem_insertText.1 hu with rfl | hu
        · exact lt_of_not_lt notLess other
        · exact first u hu

end Text

/-- A set of texts, listed in order. -/
structure TextSet where
  elements : List Text
  ascending : elements.Pairwise (· < ·)
  deriving DecidableEq

namespace TextSet

def empty : TextSet := ⟨[], List.Pairwise.nil⟩

def insert (set : TextSet) (t : Text) : TextSet :=
  ⟨Text.insertText t set.elements, Text.pairwise_insertText set.ascending⟩

def ofList (ts : List Text) : TextSet := ts.foldl insert empty

end TextSet

namespace Text

/-- Puts an entry among sorted ones; an entry with the same key is replaced. -/
def insertEntry {α : Type} (key : Text) (value : α) : List (Text × α) → List (Text × α)
  | [] => [(key, value)]
  | (k, v) :: rest =>
    if key = k then (key, value) :: rest
    else if key < k then (key, value) :: (k, v) :: rest
    else (k, v) :: insertEntry key value rest

/-- The entries in the order of their keys; of two entries with one key the later counts. -/
def sortEntries {α : Type} (entries : List (Text × α)) : List (Text × α) :=
  entries.foldl (fun sorted (k, v) => insertEntry k v sorted) []

/-- The keys ascend, so each stands once. -/
def Ascending {α : Type} (entries : List (Text × α)) : Prop :=
  entries.Pairwise fun a b => a.1 < b.1

theorem mem_insertEntry {α : Type} {key : Text} {value : α} {entries : List (Text × α)}
    {e : Text × α} (h : e ∈ insertEntry key value entries) : e = (key, value) ∨ e ∈ entries := by
  induction entries with
  | nil => exact Or.inl (by simpa [insertEntry] using h)
  | cons f rest ih =>
    obtain ⟨k, v⟩ := f
    simp only [insertEntry] at h
    split at h
    · rcases List.mem_cons.1 h with h | h
      · exact Or.inl h
      · exact Or.inr (List.mem_cons_of_mem _ h)
    · split at h
      · rcases List.mem_cons.1 h with h | h
        · exact Or.inl h
        · exact Or.inr h
      · rcases List.mem_cons.1 h with h | h
        · exact Or.inr (h ▸ List.mem_cons_self)
        · exact (ih h).imp_right (List.mem_cons_of_mem _)

theorem ascending_insertEntry {α : Type} {key : Text} {value : α} {entries : List (Text × α)}
    (h : Ascending entries) : Ascending (insertEntry key value entries) := by
  induction entries with
  | nil => simp [Ascending, insertEntry]
  | cons f rest ih =>
    obtain ⟨k, v⟩ := f
    obtain ⟨first, tail⟩ := List.pairwise_cons.1 h
    simp only [insertEntry]
    split
    · next same => exact List.pairwise_cons.2 ⟨fun e he => same ▸ first e he, tail⟩
    · next other =>
      split
      · next less =>
        refine List.pairwise_cons.2 ⟨fun e he => ?_, h⟩
        rcases List.mem_cons.1 he with rfl | he
        · exact less
        · exact List.lt_trans less (first e he)
      · next notLess =>
        refine List.pairwise_cons.2 ⟨fun e he => ?_, ih tail⟩
        rcases mem_insertEntry he with rfl | he
        · exact lt_of_not_lt notLess other
        · exact first e he

theorem ascending_sortEntries {α : Type} (entries : List (Text × α)) :
    Ascending (sortEntries entries) := by
  suffices general : ∀ sorted : List (Text × α), Ascending sorted →
      Ascending (entries.foldl (fun sorted e => insertEntry e.1 e.2 sorted) sorted) from
    general [] List.Pairwise.nil
  induction entries with
  | nil => exact fun _ h => h
  | cons e rest ih => exact fun sorted h => ih _ (ascending_insertEntry h)

end SwiftDraft.Text
