import SwiftDraft.Text.Lines
import Mathlib.Data.List.Basic

/-!
# Texts line by line

A text that ends a line can be cut there (`lines_append`), and a line is what stands in front of the
newline, without a carriage return at its end (`lines_line_append`).
-/

namespace SwiftDraft.Text

/-- A line without the carriage return in front of its newline. -/
def chomp (l : Text) : Text := if l.getLast? = some '\r' then l.dropLast else l

theorem chomp_of_getLast {l : Text} (h : l.getLast? ≠ some '\r') : chomp l = l := if_neg h

theorem chomp_cons {c : Char} {l : Text} (h : l ≠ []) : chomp (c :: l) = c :: chomp l := by
  obtain ⟨d, r, rfl⟩ := List.exists_cons_of_ne_nil h
  unfold chomp
  rw [List.getLast?_cons_cons, List.dropLast_cons_cons]
  split <;> rfl

theorem chomp_append {t : Text} (s : Text) (h : t ≠ []) : chomp (s ++ t) = s ++ chomp t := by
  unfold chomp
  rw [List.getLast?_append_of_ne_nil s h, List.dropLast_append_of_ne_nil h]
  split <;> rfl

/-- What a line that goes on is read as. -/
theorem lines_cons_of_lines {c : Char} {s l : Text} {ls : List Text} (plain : c ≠ '\n')
    (whole : c ≠ '\r' ∨ s.head? ≠ some '\n') (h : lines s = l :: ls) :
    lines (c :: s) = (c :: l) :: ls := by
  have apart : ∀ rest, c = '\r' → s = '\n' :: rest → False := by
    rintro rest rfl rfl
    rcases whole with ne | ne <;> exact ne rfl
  rw [lines.eq_3 c s apart, if_neg plain, h]

theorem lines_line_append {l : Text} (plain : '\n' ∉ l) (rest : Text) :
    lines (l ++ '\n' :: rest) = chomp l :: lines rest := by
  induction l with
  | nil => exact lines_newline rest
  | cons c l ih =>
    obtain ⟨first, tail⟩ := not_or.1 (mt List.mem_cons.2 plain)
    by_cases last : l = []
    · subst last
      by_cases ret : c = '\r'
      · subst ret
        exact lines.eq_2 rest
      · rw [chomp_of_getLast (by simpa using ret)]
        exact lines_cons_of_lines (Ne.symm first) (Or.inl ret) (lines_newline rest)
    · rw [chomp_cons last, List.cons_append]
      refine lines_cons_of_lines (Ne.symm first) (Or.inr ?_) (ih tail)
      obtain ⟨d, r, rfl⟩ := List.exists_cons_of_ne_nil last
      simp only [List.cons_append, List.head?_cons, ne_eq, Option.some.injEq]
      rintro rfl
      exact tail List.mem_cons_self

theorem lines_last {l : Text} (plain : '\n' ∉ l) (filled : l ≠ []) : lines l = [l] := by
  induction l with
  | nil => exact absurd rfl filled
  | cons c l ih =>
    obtain ⟨first, tail⟩ := not_or.1 (mt List.mem_cons.2 plain)
    by_cases last : l = []
    · subst last
      have apart : ∀ rest, c = '\r' → ([] : Text) = '\n' :: rest → False := by
        rintro rest - ⟨⟩
      rw [lines.eq_3 c [] apart, if_neg (Ne.symm first)]
      rfl
    · refine lines_cons_of_lines (Ne.symm first) (Or.inr fun h => ?_) (ih tail last)
      exact tail (List.mem_of_mem_head? h)

/-- Induction over a text line by line. -/
theorem lineInduction {motive : Text → Prop} (last : ∀ l, '\n' ∉ l → motive l)
    (line : ∀ l rest, '\n' ∉ l → motive rest → motive (l ++ '\n' :: rest)) (s : Text) :
    motive s := by
  induction size : s.length using Nat.strongRecOn generalizing s with
  | ind n ih =>
    by_cases more : '\n' ∈ s
    · obtain ⟨l, rest, rfl, first⟩ := List.eq_append_cons_of_mem more
      refine line l rest first (ih rest.length ?_ rest rfl)
      rw [List.length_append, List.length_cons] at size
      omega
    · exact last s more

theorem chomp_subset (l : Text) : chomp l ⊆ l := by
  unfold chomp
  split
  · exact List.dropLast_subset l
  · exact List.Subset.refl l

theorem newline_not_mem_of_mem_lines {s l : Text} (h : l ∈ lines s) : '\n' ∉ l := by
  induction s using lineInduction with
  | last s plain =>
    by_cases filled : s = []
    · rw [filled] at h
      cases h
    · rw [lines_last plain filled, List.mem_singleton] at h
      rw [h]
      exact plain
  | line l' rest plain ih =>
    rw [lines_line_append plain] at h
    rcases List.mem_cons.1 h with rfl | later
    · exact fun mem => plain (chomp_subset l' mem)
    · exact ih later

/-- Nothing, or some whole lines. -/
def EndsLine (s : Text) : Prop := s = [] ∨ s.getLast? = some '\n'

theorem lines_append {a : Text} (h : EndsLine a) (b : Text) :
    lines (a ++ b) = lines a ++ lines b := by
  induction a using lineInduction with
  | last a plain =>
    rcases h with rfl | newline
    · rfl
    · exact absurd (List.mem_of_getLast? newline) plain
  | line l rest plain ih =>
    have ends : EndsLine rest := by
      by_cases filled : rest = []
      · exact Or.inl filled
      · obtain ⟨c, r, rfl⟩ := List.exists_cons_of_ne_nil filled
        right
        simpa [List.getLast?_append, EndsLine] using h
    rw [List.append_assoc, List.cons_append, lines_line_append plain, lines_line_append plain,
      ih ends, List.cons_append]

theorem lines_unlines {ls : List Text} (plain : ∀ l ∈ ls, '\n' ∉ l) :
    lines (unlines ls) = ls.map chomp := by
  induction ls with
  | nil => rfl
  | cons l ls ih =>
    obtain ⟨first, tail⟩ := List.forall_mem_cons.1 plain
    have whole : unlines (l :: ls) = l ++ '\n' :: unlines ls := by simp [unlines]
    rw [whole, lines_line_append first, ih tail, List.map_cons]

end SwiftDraft.Text
