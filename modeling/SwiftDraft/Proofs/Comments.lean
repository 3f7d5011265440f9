import SwiftDraft.Proofs.Lines
import SwiftDraft.Proofs.Trimmed
import SwiftDraft.Text.Literal

/-!
# Comments on a line

A line is its code and, behind the first `#` outside string literals, a comment. Brackets are
counted in the code only (`bracketDelta_withoutComment`), and blanks around a line do not count.
-/

namespace SwiftDraft.Text

/-- The code of a line from place `p` on, and the comment behind it. -/
def splitCommentFrom (p : Place) : Text → Text × Text
  | [] => ([], [])
  | c :: r =>
    if p = .code ∧ c = '#' then ([], c :: r)
    else (c :: (splitCommentFrom (p.next c) r).1, (splitCommentFrom (p.next c) r).2)

/-- The code of a line. -/
def withoutComment (l : Text) : Text := (splitCommentFrom .code l).1

/-- The comment of a line, with its `#`. -/
def comment (l : Text) : Text := (splitCommentFrom .code l).2

variable {s i r : Text} {c : Char} {p : Place}

theorem splitCommentFrom_append (p : Place) (s : Text) :
    (splitCommentFrom p s).1 ++ (splitCommentFrom p s).2 = s := by
  induction s generalizing p with
  | nil => rfl
  | cons c s ih =>
    rw [splitCommentFrom]
    split
    · rfl
    · rw [List.cons_append, ih]

theorem withoutComment_append_comment (l : Text) : withoutComment l ++ comment l = l :=
  splitCommentFrom_append .code l

theorem head_splitCommentFrom (p : Place) (s : Text) :
    (splitCommentFrom p s).2 = [] ∨ ∃ r, (splitCommentFrom p s).2 = '#' :: r := by
  induction s generalizing p with
  | nil => exact Or.inl rfl
  | cons c s ih =>
    rw [splitCommentFrom]
    split
    · next starts => exact Or.inr ⟨s, by rw [starts.2]⟩
    · exact ih (p.next c)

theorem comment_cases (l : Text) : comment l = [] ∨ ∃ r, comment l = '#' :: r :=
  head_splitCommentFrom .code l

/-- Nothing that a scan of code looks for is a blank. -/
theorem plain_of_isBlank (h : isBlank c) :
    c ≠ '#' ∧ isQuote c = false ∧ isOpening c = false ∧ isClosing c = false := by
  have other {d : Char} (visible : isBlank d = false) : c ≠ d := by
    rintro rfl
    rw [h] at visible
    cases visible
  refine ⟨other (by decide), ?_, ?_, ?_⟩ <;>
    simp [isQuote, isOpening, isClosing, other (d := '"') (by decide),
      other (d := '\'') (by decide), other (d := '(') (by decide), other (d := '[') (by decide),
      other (d := '\x7b') (by decide), other (d := ')') (by decide), other (d := ']') (by decide),
      other (d := '\x7d') (by decide)]

theorem bracketDelta_cons_blank (h : isBlank c) (r : Text) :
    bracketDelta (c :: r) = bracketDelta r := by
  obtain ⟨noComment, noQuote, noOpening, noClosing⟩ := plain_of_isBlank h
  simp [bracketDelta, bracketDeltaFrom, Place.next, noComment, noQuote, noOpening, noClosing]

theorem bracketDeltaFrom_of_blanks (blanks : ∀ c ∈ i, isBlank c) (p : Place) :
    bracketDeltaFrom p i = 0 := by
  induction i generalizing p with
  | nil => rfl
  | cons c i ih =>
    obtain ⟨first, rest⟩ := List.forall_mem_cons.1 blanks
    obtain ⟨noComment, -, noOpening, noClosing⟩ := plain_of_isBlank first
    simp [bracketDeltaFrom, noComment, noOpening, noClosing, ih rest]

theorem bracketDeltaFrom_append_blanks (blanks : ∀ c ∈ i, isBlank c) (p : Place) (s : Text) :
    bracketDeltaFrom p (s ++ i) = bracketDeltaFrom p s := by
  induction s generalizing p with
  | nil => exact bracketDeltaFrom_of_blanks blanks p
  | cons c s ih => simp only [List.cons_append, bracketDeltaFrom, ih]

theorem bracketDelta_trimStart (s : Text) : bracketDelta (trimStart s) = bracketDelta s := by
  induction s with
  | nil => rfl
  | cons c s ih =>
    cases blank : isBlank c with
    | true =>
      rw [bracketDelta_cons_blank blank, ← ih, trimStart, List.dropWhile_cons_of_pos blank]
      rfl
    | false => rw [trimStart_cons_of_not_blank blank]

theorem bracketDelta_trim (s : Text) : bracketDelta (trim s) = bracketDelta s := by
  obtain ⟨i, whole, blanks⟩ := exists_trimEnd_append (trimStart s)
  rw [← bracketDelta_trimStart s]
  conv => rhs; rw [whole]
  exact (bracketDeltaFrom_append_blanks blanks .code _).symm

theorem bracketDeltaFrom_splitComment (p : Place) (s : Text) :
    bracketDeltaFrom p (splitCommentFrom p s).1 = bracketDeltaFrom p s := by
  induction s generalizing p with
  | nil => rfl
  | cons c s ih =>
    rw [splitCommentFrom]
    split
    · next starts => simp [bracketDeltaFrom, starts]
    · next other => simp only [bracketDeltaFrom, ih]

theorem bracketDelta_withoutComment (l : Text) :
    bracketDelta (trim (withoutComment l)) = bracketDelta (trim l) := by
  rw [bracketDelta_trim, bracketDelta_trim]
  exact bracketDeltaFrom_splitComment .code l

theorem withoutComment_eq_self {l : Text} (h : comment l = []) : withoutComment l = l := by
  have whole := withoutComment_append_comment l
  rwa [h, List.append_nil] at whole

theorem withoutComment_blanks_append (blanks : ∀ c ∈ i, isBlank c) (s : Text) :
    withoutComment (i ++ s) = i ++ withoutComment s := by
  induction i with
  | nil => rfl
  | cons c i ih =>
    obtain ⟨first, rest⟩ := List.forall_mem_cons.1 blanks
    obtain ⟨noComment, noQuote, -, -⟩ := plain_of_isBlank first
    have further := ih rest
    unfold withoutComment at further ⊢
    rw [List.cons_append, splitCommentFrom, if_neg fun starts => noComment starts.2, Place.next,
      noQuote, List.cons_append]
    exact congrArg (c :: ·) further

theorem withoutComment_cons (h : c ≠ '#') (r : Text) :
    withoutComment (c :: r) = c :: (splitCommentFrom (Place.code.next c) r).1 := by
  rw [withoutComment, splitCommentFrom, if_neg fun starts => h starts.2]

/-- The last visible character of a line with a comment is the comment's. -/
theorem getLast?_trim_of_comment {l : Text} (h : comment l ≠ []) :
    (trim l).getLast? = (trimEnd (comment l)).getLast? := by
  obtain ⟨r, starts⟩ := (comment_cases l).resolve_left h
  obtain ⟨t, visible⟩ := trimEnd_cons_of_not_blank (show isBlank '#' = false by decide) r
  rw [← starts] at visible
  have filled : trimEnd (comment l) ≠ [] := by
    rw [visible]
    exact List.cons_ne_nil _ _
  have ends (s : Text) : (trimEnd (s ++ comment l)).getLast? = (trimEnd (comment l)).getLast? := by
    rw [trimEnd_append filled, List.getLast?_append_of_ne_nil s filled]
  have first : trimStart (comment l) = comment l := by
    rw [starts]
    exact trimStart_cons_of_not_blank (by decide) r
  rw [trim]
  conv => lhs; rw [← withoutComment_append_comment l]
  rw [trimStart, List.dropWhile_append]
  split
  · change (trimEnd (trimStart (comment l))).getLast? = _
    rw [first]
  · exact ends _

theorem splitCommentFrom_concat (h : c ≠ '#') (p : Place) (s : Text) :
    (splitCommentFrom p (s ++ [c])).1 = (splitCommentFrom p s).1 ∨
      (splitCommentFrom p (s ++ [c])).1 = (splitCommentFrom p s).1 ++ [c] := by
  induction s generalizing p with
  | nil =>
    right
    simp [splitCommentFrom, h]
  | cons d s ih =>
    rw [List.cons_append, splitCommentFrom, splitCommentFrom]
    split
    · exact Or.inl rfl
    · exact (ih (p.next d)).imp (congrArg (d :: ·)) (congrArg (d :: ·))

theorem chomp_cases (l : Text) : chomp l = l ∨ l = chomp l ++ ['\r'] := by
  unfold chomp
  split
  · next ends => exact Or.inr (List.dropLast_append_getLast? '\r' ends).symm
  · exact Or.inl rfl

theorem trim_chomp (l : Text) : trim (chomp l) = trim l := by
  rcases chomp_cases l with same | ends
  · rw [same]
  · conv => rhs; rw [ends]
    exact (trim_append_blanks (List.all_eq_true.1 (by decide)) _).symm

/-- The line end does not matter for the code of a line. -/
theorem trim_chomp_withoutComment (l : Text) :
    trim (chomp (withoutComment l)) = trim (withoutComment (chomp l)) := by
  rw [trim_chomp]
  rcases chomp_cases l with same | ends
  · rw [same]
  · conv => lhs; rw [ends]
    rcases splitCommentFrom_concat (show '\r' ≠ '#' by decide) .code (chomp l) with h | h
    · exact congrArg trim h
    · exact (congrArg trim h).trans (trim_append_blanks (List.all_eq_true.1 (by decide)) _)

theorem exactColumns_blanks_cons (tab : Nat) (blanks : ∀ d ∈ i, isBlank d) (h : isBlank c = false)
    (r r' : Text) : exactColumns tab (i ++ c :: r) = exactColumns tab (i ++ c :: r') := by
  induction i with
  | nil => simp [exactColumns, h]
  | cons d i ih =>
    obtain ⟨first, rest⟩ := List.forall_mem_cons.1 blanks
    rw [List.cons_append, List.cons_append, exactColumns, exactColumns, ih rest]

theorem exists_chomp_cons (h : isBlank c = false) (i r : Text) :
    ∃ r', chomp (i ++ c :: r) = i ++ c :: r' := by
  rcases chomp_cases (i ++ c :: r) with same | ends
  · exact ⟨r, same⟩
  · rcases List.eq_nil_or_concat r with rfl | ⟨m, d, rfl⟩
    · have last := (List.append_inj' ends rfl).2
      rw [(List.cons.inj last).1] at h
      cases h
    · rw [List.concat_eq_append] at ends ⊢
      have whole : (i ++ c :: m) ++ [d] = chomp (i ++ c :: (m ++ [d])) ++ ['\r'] := by
        rw [← ends, List.append_assoc, List.cons_append]
      exact ⟨m, (List.append_inj' whole rfl).1.symm⟩

end SwiftDraft.Text
