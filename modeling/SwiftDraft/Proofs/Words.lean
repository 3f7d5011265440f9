import SwiftDraft.Proofs.Trimmed

/-!
# Words and letters

The words of a text are made of its characters, none of which is a blank. ASCII letters and digits
stay such in upper case.
-/

namespace SwiftDraft.Text

section

variable {p : Char → Bool} {s piece w : Text}

/-- The first piece starts the text, and the others stand in it. -/
theorem exists_splitOnP (p : Char → Bool) (s : Text) :
    ∃ rest, s.splitOnP p = (s.takeWhile fun c => !p c) :: rest ∧ ∀ piece ∈ rest, piece <:+: s := by
  induction s with
  | nil => exact ⟨[], List.splitOnP_nil, nofun⟩
  | cons c s ih =>
    obtain ⟨rest, pieces, inside⟩ := ih
    have further : ∀ piece ∈ rest, piece <:+: c :: s := fun piece mem =>
      List.infix_cons (inside piece mem)
    rw [List.splitOnP_cons_eq_if_modifyHead, pieces]
    split
    · next cuts =>
      rw [List.takeWhile_cons_of_neg (by simp [cuts])]
      exact ⟨_, rfl, List.forall_mem_cons.2
        ⟨List.infix_cons (List.takeWhile_prefix _).isInfix, further⟩⟩
    · next kept =>
      rw [List.takeWhile_cons_of_pos (by simpa using kept)]
      exact ⟨rest, rfl, further⟩

theorem isInfix_of_mem_splitOnP (mem : piece ∈ s.splitOnP p) : piece <:+: s := by
  obtain ⟨rest, pieces, inside⟩ := exists_splitOnP p s
  rw [pieces] at mem
  rcases List.mem_cons.1 mem with rfl | later
  · exact (List.takeWhile_prefix _).isInfix
  · exact inside piece later

theorem of_mem_splitOnP (mem : piece ∈ s.splitOnP p) : ∀ c ∈ piece, p c = false := by
  induction s generalizing piece with
  | nil =>
    rw [List.splitOnP_nil, List.mem_singleton] at mem
    simp [mem]
  | cons c s ih =>
    obtain ⟨rest, pieces, -⟩ := exists_splitOnP p s
    rw [pieces] at ih
    rw [List.splitOnP_cons_eq_if_modifyHead, pieces] at mem
    obtain ⟨first, later⟩ := List.forall_mem_cons.1 fun q (inPieces : q ∈ _ :: rest) => ih inPieces
    split at mem
    · rcases List.mem_cons.1 mem with rfl | inPieces
      · exact nofun
      · exact ih inPieces
    · next kept =>
      rcases List.mem_cons.1 mem with rfl | inRest
      · exact List.forall_mem_cons.2 ⟨by simpa using kept, first⟩
      · exact later piece inRest

theorem subset_of_mem_words (mem : w ∈ words s) : w ⊆ s :=
  (isInfix_of_mem_splitOnP (List.mem_filter.1 mem).1).subset

theorem ne_nil_of_mem_words (mem : w ∈ words s) : w ≠ [] := by
  simpa using (List.mem_filter.1 mem).2

theorem isBlank_of_mem_words (mem : w ∈ words s) : ∀ c ∈ w, isBlank c = false :=
  of_mem_splitOnP (List.mem_filter.1 mem).1

theorem words_trimStart (s : Text) : words (trimStart s) = words s := by
  induction s with
  | nil => rfl
  | cons c s ih =>
    by_cases blank : isBlank c
    · rw [trimStart, List.dropWhile_cons_of_pos blank, ← trimStart, ih, words, words,
        List.splitOnP_cons_eq_if_modifyHead, if_pos blank]
      rfl
    · rw [trimStart, List.dropWhile_cons_of_neg blank]

/-- The first word runs up to the first blank behind it. -/
theorem firstWord?_eq (s : Text) :
    firstWord? s =
      if trimStart s = [] then none else some ((trimStart s).takeWhile fun c => !isBlank c) := by
  rw [firstWord?, ← words_trimStart]
  split
  · next nothing =>
    rw [nothing]
    rfl
  · next filled =>
    obtain ⟨rest, pieces, -⟩ := exists_splitOnP isBlank (trimStart s)
    obtain ⟨c, t, shape⟩ := List.exists_cons_of_ne_nil filled
    have visible : isBlank c = false :=
      not_isBlank_of_head?_trimStart (s := s) (by rw [shape, List.head?_cons])
    have shown : ((trimStart s).takeWhile fun c => !isBlank c) ≠ [] := by
      rw [shape, List.takeWhile_cons_of_pos (by simp [visible])]
      exact List.cons_ne_nil _ _
    rw [words, pieces, List.filter_cons_of_pos (by simpa using shown)]
    rfl

end

theorem toNat_lt_of_isAlphanum {c : Char} (h : c.isAlphanum) : c.toNat < 128 := by
  have ranges : c.isAlphanum =
      ((decide (65 ≤ c.val ∧ c.val ≤ 90) || decide (97 ≤ c.val) && decide (c.val ≤ 122)) ||
        decide (48 ≤ c.val) && decide (c.val ≤ 57)) := rfl
  have code : c.val.toNat = c.toNat := rfl
  rw [ranges] at h
  simp only [Bool.or_eq_true, Bool.and_eq_true, decide_eq_true_eq, UInt32.le_iff_toNat_le,
    UInt32.reduceToNat, code] at h
  omega

theorem isAlphanum_toUpper_ascii :
    ∀ n < 128, (Char.ofNat n).isAlphanum → (Char.ofNat n).toUpper.isAlphanum := by decide

theorem isAlphanum_toUpper {c : Char} (h : c.isAlphanum) : c.toUpper.isAlphanum := by
  have checked := isAlphanum_toUpper_ascii c.toNat (toNat_lt_of_isAlphanum h)
  rw [Char.ofNat_toNat] at checked
  exact checked h

end SwiftDraft.Text
