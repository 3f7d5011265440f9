import SwiftDraft.Workbench.Record
import Mathlib.Data.List.Basic

/-!
# Drafts of one script at different moments

The header of a draft names the moment it was made. Nothing else in the draft depends on it, and the
declarations found in a draft do not either, since the header's first line is a comment.
-/

namespace SwiftDraft

namespace Text

/-- A line without a line end, followed by one, is the first line. -/
theorem lines_line {l : Text} (plain : ∀ c ∈ l, c ≠ '\r' ∧ c ≠ '\n') (rest : Text) :
    lines (l ++ '\n' :: rest) = l :: lines rest := by
  induction l with
  | nil => exact lines_newline rest
  | cons c l ih =>
    obtain ⟨first, tail⟩ := List.forall_mem_cons.1 plain
    rw [List.cons_append, lines_cons first.1 first.2, ih tail]

theorem isDigit_of_mem_ofNat {n : Nat} {c : Char} (h : c ∈ ofNat n) : c.isDigit := by
  unfold ofNat at h
  rw [Nat.repr_eq_ofList_toDigits, String.toList_ofList] at h
  exact Nat.isDigit_of_mem_toDigits (by decide) (by decide) h

end Text

namespace Draft

/-- The characters of a moment. -/
def isStampChar (c : Char) : Bool := c.isDigit || "+-:TZ".toList.contains c

theorem stamp_padded (width n : Nat) : (padded width n).all isStampChar := by
  have zeros (k : Nat) : (List.replicate k '0').all isStampChar := by
    simp [isStampChar]
  have digits : (Text.ofNat n).all isStampChar := by
    rw [List.all_eq_true]
    intro c hc
    simp [isStampChar, Text.isDigit_of_mem_ofNat hc]
  simp only [padded, List.all_append, zeros, digits, Bool.and_self]

theorem stamp_yearText (year : Int) : (yearText year).all isStampChar := by
  unfold yearText
  split
  · exact stamp_padded _ _
  · rw [List.all_cons, stamp_padded, Bool.and_true]
    split <;> decide

theorem stamp_timestamp (seconds : Int) : (timestamp seconds).all isStampChar := by
  simp only [timestamp, List.all_append, List.all_cons, List.all_nil, stamp_yearText, stamp_padded,
    Bool.and_true]
  decide

/-- What stands in front of the moment. -/
def stampStart : Text := headerMarker ++ ' ' :: version ++ " on ".toList

/-- A draft without its moment: what stands between the start of its header and the first line end
is left out. -/
def unstamped (d : Draft) : Draft :=
  { d with
    text := d.text.take stampStart.length ++
      (d.text.drop stampStart.length).dropWhile (· ≠ '\n') }

/-- The header behind its first line. -/
def headerRest : Text :=
  "// Best-effort translation from Python; review before use.\n\nimport Foundation\n\n".toList

theorem header_eq (generatedAt : Text) :
    header generatedAt = (stampStart ++ generatedAt) ++ '\n' :: headerRest := by
  unfold header stampStart
  refine congrArg _ ?_
  decide +kernel

/-- What follows the first line of a script's draft. -/
def behindStamp (unit : Nat) (source : Text) : Text :=
  headerRest ++ render (effectiveUnit unit) (Script.nest (effectiveUnit unit) source).nodes

theorem text_ofScript (unit : Nat) (generatedAt source : Text) :
    (ofScript unit generatedAt source).text =
      (stampStart ++ generatedAt) ++ '\n' :: behindStamp unit source := by
  change header generatedAt ++ render _ _ = _
  rw [header_eq]
  exact List.append_assoc _ _ _

theorem stampLine_plain (seconds : Int) :
    ∀ c ∈ stampStart ++ timestamp seconds, c ≠ '\r' ∧ c ≠ '\n' := by
  have fixed : stampStart.all fun c => c ≠ '\r' ∧ c ≠ '\n' := by decide
  intro c hc
  rcases List.mem_append.1 hc with start | stamp
  · exact of_decide_eq_true (List.all_eq_true.1 fixed c start)
  · have allowed := List.all_eq_true.1 (stamp_timestamp seconds) c stamp
    constructor <;> rintro rfl <;> exact absurd allowed (by decide)

theorem cutStamp (seconds : Int) (rest : Text) :
    (timestamp seconds ++ '\n' :: rest).dropWhile (· ≠ '\n') = '\n' :: rest := by
  have plain : ∀ c ∈ timestamp seconds, decide (c ≠ '\n') = true := by
    intro c hc
    exact decide_eq_true (stampLine_plain seconds c (List.mem_append_right _ hc)).2
  rw [List.dropWhile_append_of_pos plain]
  rfl

theorem unstamped_ofScript (unit : Nat) (m m' : Int) (source : Text) :
    (ofScript unit (timestamp m) source).unstamped =
      (ofScript unit (timestamp m') source).unstamped := by
  have shown (seconds : Int) : (ofScript unit (timestamp seconds) source).text =
      stampStart ++ (timestamp seconds ++ '\n' :: behindStamp unit source) := by
    rw [text_ofScript, List.append_assoc]
  unfold unstamped
  rw [shown m, shown m', List.take_left, List.take_left, List.drop_left, List.drop_left, cutStamp,
    cutStamp]
  rfl

/-- A first line that declares nothing does not matter for what is declared. -/
theorem declarations_behind {l l' : Text} (plain : ∀ c ∈ l, c ≠ '\r' ∧ c ≠ '\n')
    (plain' : ∀ c ∈ l', c ≠ '\r' ∧ c ≠ '\n') (silent : declaresNothing l)
    (silent' : declaresNothing l') (rest : Text) :
    declarations (l ++ '\n' :: rest) = declarations (l' ++ '\n' :: rest) := by
  have skipped {l : Text} (silent : declaresNothing l) :
      ScanState.start.read (1, l) = ScanState.start := by
    simp [ScanState.read, silent]
  unfold declarations Text.numberedLines
  rw [Text.lines_line plain, Text.lines_line plain', List.zipIdx_cons, List.zipIdx_cons,
    List.map_cons, List.map_cons, List.foldl_cons, List.foldl_cons, skipped silent,
    skipped silent']

end Draft

theorem Skeleton.tests_ofScript (unit : Nat) (m m' : Int) (source : Text) :
    Skeleton.tests (Draft.ofScript unit (Draft.timestamp m) source).text =
      Skeleton.tests (Draft.ofScript unit (Draft.timestamp m') source).text := by
  unfold Skeleton.tests
  rw [Draft.text_ofScript, Draft.text_ofScript,
    Draft.declarations_behind (Draft.stampLine_plain m) (Draft.stampLine_plain m') rfl rfl]

end SwiftDraft
