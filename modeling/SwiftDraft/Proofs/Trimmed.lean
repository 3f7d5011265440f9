import SwiftDraft.Text.Basic
import Mathlib.Data.List.DropRight
import Mathlib.Data.List.TakeWhile

/-!
# Trimmed texts

A trimmed text neither starts nor ends with a blank.
-/

namespace SwiftDraft.Text

variable {s i : Text} {c : Char}

theorem trimStart_of_blanks (blanks : ∀ c ∈ i, isBlank c) (s : Text) :
    trimStart (i ++ s) = trimStart s :=
  List.dropWhile_append_of_pos blanks

theorem trimStart_cons_of_not_blank (h : isBlank c = false) (s : Text) :
    trimStart (c :: s) = c :: s :=
  List.dropWhile_cons_of_neg (by simp [h])

theorem trim_of_blanks (blanks : ∀ c ∈ i, isBlank c) (s : Text) : trim (i ++ s) = trim s := by
  unfold trim
  rw [trimStart_of_blanks blanks]

theorem exists_append_trimStart (s : Text) : ∃ i, s = i ++ trimStart s ∧ ∀ c ∈ i, isBlank c :=
  ⟨s.takeWhile isBlank, List.takeWhile_append_dropWhile.symm, fun _ mem => List.mem_takeWhile_imp mem⟩

theorem not_isBlank_of_head?_trimStart (h : (trimStart s).head? = some c) : isBlank c = false := by
  have first := List.head?_dropWhile_not isBlank s
  rw [show s.dropWhile isBlank = trimStart s from rfl, h] at first
  exact first

theorem not_isBlank_of_getLast?_trimEnd (h : (trimEnd s).getLast? = some c) :
    isBlank c = false := by
  rw [trimEnd, List.getLast?_reverse] at h
  exact not_isBlank_of_head?_trimStart h

theorem not_isBlank_of_getLast?_trim (h : (trim s).getLast? = some c) : isBlank c = false :=
  not_isBlank_of_getLast?_trimEnd h

theorem trimEnd_prefix_self (s : Text) : trimEnd s <+: s := List.rdropWhile_prefix isBlank s

theorem not_isBlank_of_head?_trim (h : (trim s).head? = some c) : isBlank c = false := by
  obtain ⟨r, hr⟩ := List.head?_eq_some_iff.1 h
  obtain ⟨more, whole⟩ := trimEnd_prefix_self (trimStart s)
  apply not_isBlank_of_head?_trimStart (s := s)
  change trimEnd (trimStart s) = _ at hr
  rw [← whole, hr]
  rfl

theorem trimEnd_of_getLast? (h : ∀ c, s.getLast? = some c → isBlank c = false) : trimEnd s = s := by
  refine List.rdropWhile_eq_self_iff.2 fun filled => ?_
  simp [h _ (List.getLast?_eq_some_getLast filled)]

theorem exists_trimEnd_append (s : Text) : ∃ i, s = trimEnd s ++ i ∧ ∀ c ∈ i, isBlank c := by
  refine ⟨(s.reverse.takeWhile isBlank).reverse, ?_, fun c mem => ?_⟩
  · rw [trimEnd, ← List.reverse_append, List.takeWhile_append_dropWhile, List.reverse_reverse]
  · exact List.mem_takeWhile_imp (List.mem_reverse.1 mem)

theorem trimEnd_append_blanks (blanks : ∀ c ∈ i, isBlank c) (s : Text) :
    trimEnd (s ++ i) = trimEnd s := by
  unfold trimEnd
  have back : ∀ c ∈ i.reverse, isBlank c := fun c mem => blanks c (List.mem_reverse.1 mem)
  rw [List.reverse_append, List.dropWhile_append_of_pos back]

theorem trimEnd_append {t : Text} (filled : trimEnd t ≠ []) (s : Text) :
    trimEnd (s ++ t) = s ++ trimEnd t := by
  unfold trimEnd at filled ⊢
  have some_left : (t.reverse.dropWhile isBlank).isEmpty = false := by
    simpa [List.isEmpty_eq_false_iff] using filled
  rw [List.reverse_append, List.dropWhile_append, some_left]
  simp

theorem trimEnd_append_of_getLast? (visible : ∀ c ∈ s.getLast?, isBlank c = false) (t : Text) :
    trimEnd (s ++ t) = s ++ trimEnd t := by
  by_cases filled : trimEnd t = []
  · obtain ⟨i, whole, blanks⟩ := exists_trimEnd_append t
    rw [filled, List.nil_append] at whole
    rw [filled, List.append_nil, whole, trimEnd_append_blanks blanks]
    exact trimEnd_of_getLast? visible
  · exact trimEnd_append filled s

theorem trimEnd_cons_of_not_blank (h : isBlank c = false) (s : Text) :
    ∃ r, trimEnd (c :: s) = c :: r := by
  have visible : ∀ d ∈ [c].getLast?, isBlank d = false := by
    rintro d ⟨⟩
    exact h
  exact ⟨trimEnd s, trimEnd_append_of_getLast? visible s⟩

/-- The first character of a trimmed text, and where it stands in the text. -/
theorem exists_blanks_cons (filled : trim s ≠ []) :
    ∃ i c r, s = i ++ c :: r ∧ (∀ d ∈ i, isBlank d) ∧ isBlank c = false := by
  cases shape : trimStart s with
  | nil =>
    rw [trim, shape] at filled
    exact absurd rfl filled
  | cons c r =>
    refine ⟨s.takeWhile isBlank, c, r, ?_, fun d mem => List.mem_takeWhile_imp mem, ?_⟩
    · rw [← shape]
      exact (List.takeWhile_append_dropWhile).symm
    · exact not_isBlank_of_head?_trimStart (s := s) (by rw [shape]; rfl)

theorem trim_blanks_cons (blanks : ∀ d ∈ i, isBlank d) (h : isBlank c = false) (r : Text) :
    trim (i ++ c :: r) = trimEnd (c :: r) := by
  rw [trim_of_blanks blanks, trim, trimStart_cons_of_not_blank h]

theorem getLast?_trimEnd_of_trim (h : (trim s).getLast? = some c) :
    (trimEnd s).getLast? = some c := by
  have filled : trim s ≠ [] := List.ne_nil_of_mem (List.mem_of_getLast? h)
  obtain ⟨i, d, r, whole, blanks, visible⟩ := exists_blanks_cons filled
  obtain ⟨t, start⟩ := trimEnd_cons_of_not_blank visible r
  have some_end : trimEnd (d :: r) ≠ [] := by
    rw [start]
    exact List.cons_ne_nil d t
  rw [whole, trim_blanks_cons blanks visible] at h
  rw [whole, trimEnd_append some_end, List.getLast?_append_of_ne_nil _ some_end, h]

theorem trim_append_blanks (blanks : ∀ c ∈ i, isBlank c) (s : Text) : trim (s ++ i) = trim s := by
  by_cases filled : trimStart s = []
  · have all : ∀ c ∈ s, isBlank c := List.dropWhile_eq_nil_iff.1 filled
    rw [trim_of_blanks all, trim, trim, filled]
    exact congrArg trimEnd (List.dropWhile_eq_nil_iff.2 blanks)
  · have back : trimStart (s ++ i) = trimStart s ++ i := by
      have some_left : (s.dropWhile isBlank).isEmpty = false := List.isEmpty_eq_false_iff.2 filled
      rw [trimStart, List.dropWhile_append, some_left]
      rfl
    rw [trim, back, trimEnd_append_blanks blanks]
    rfl

/-- The blanks that trimming takes off. -/
theorem exists_blanks_trim (s : Text) :
    ∃ i j, s = i ++ trim s ++ j ∧ (∀ c ∈ i, isBlank c) ∧ ∀ c ∈ j, isBlank c := by
  obtain ⟨j, whole, back⟩ := exists_trimEnd_append (trimStart s)
  refine ⟨s.takeWhile isBlank, j, ?_, fun c mem => List.mem_takeWhile_imp mem, back⟩
  rw [trim, List.append_assoc, ← whole]
  exact (List.takeWhile_append_dropWhile).symm

theorem trim_ne_nil {s : Text} (shown : ∃ c ∈ s, isBlank c = false) : trim s ≠ [] := by
  intro empty
  obtain ⟨i, j, whole, front, back⟩ := exists_blanks_trim s
  obtain ⟨c, mem, visible⟩ := shown
  rw [whole, empty, List.append_nil, List.mem_append] at mem
  rcases mem with inFront | inBack
  · simp [front c inFront] at visible
  · simp [back c inBack] at visible

theorem trimStart_eq_self (first : ∀ c ∈ s.head?, isBlank c = false) : trimStart s = s := by
  cases s with
  | nil => rfl
  | cons c s => exact trimStart_cons_of_not_blank (first c rfl) s

theorem trim_trim (s : Text) : trim (trim s) = trim s := by
  have front : trimStart (trim s) = trim s :=
    trimStart_eq_self fun _ first => not_isBlank_of_head?_trim first
  rw [trim, front]
  exact trimEnd_of_getLast? fun _ last => not_isBlank_of_getLast?_trim last

theorem trim_trimEnd (s : Text) : trim (trimEnd s) = trim s := by
  obtain ⟨i, whole, blanks⟩ := exists_trimEnd_append s
  conv => rhs; rw [whole]
  exact (trim_append_blanks blanks (trimEnd s)).symm

/-- A text of visible characters that starts another one starts it without its trailing blanks. -/
theorem prefix_trimEnd {p : Text} (visible : ∀ c ∈ p, isBlank c = false) (starts : p <+: s) :
    p <+: trimEnd s := by
  obtain ⟨t, rfl⟩ := starts
  by_cases filled : trimEnd t = []
  · obtain ⟨i, whole, blanks⟩ := exists_trimEnd_append t
    rw [filled, List.nil_append] at whole
    have same : trimEnd (p ++ t) = p := by
      rw [whole, trimEnd_append_blanks blanks]
      exact trimEnd_of_getLast? fun c last => visible c (List.mem_of_getLast? last)
    exact ⟨[], by rw [List.append_nil, same]⟩
  · rw [trimEnd_append filled]
    exact List.prefix_append p _

end SwiftDraft.Text
