import Mathlib.Data.List.Basic
import SwiftDraft.Interpreter.Script
import SwiftDraft.Proofs.Quoting
import SwiftDraft.Text.Lines

/-!
# A source in the interpreter's script

The template has one place for a literal, and the source goes there as one literal, whatever it
contains (`script_embeds`): nothing of it is code for the interpreter.
-/

namespace SwiftDraft.Interpreter

open Text

section

variable {mark replacement : Text}

theorem replaceFrom_append (skipped s : Text) :
    replaceFrom mark replacement skipped.length (skipped ++ s) =
      replaceFrom mark replacement 0 s := by
  induction skipped with
  | nil => rfl
  | cons c skipped ih => exact ih

theorem replaceFrom_cons {c : Char} {s : Text} (absent : ¬mark <+: c :: s) :
    replaceFrom mark replacement 0 (c :: s) = c :: replaceFrom mark replacement 0 s := by
  have no : mark.isPrefixOf (c :: s) = false := by
    rw [Bool.eq_false_iff]
    exact fun yes => absent (List.isPrefixOf_iff_prefix.1 yes)
  rw [replaceFrom, no]
  rfl

theorem replaceFrom_of_absent {s : Text} (absent : ∀ f b, s ≠ f ++ mark ++ b) :
    replaceFrom mark replacement 0 s = s := by
  induction s with
  | nil => rfl
  | cons c s ih =>
    have here : ¬mark <+: c :: s := by
      rintro ⟨b, shape⟩
      exact absent [] b shape.symm
    have further : ∀ f b, s ≠ f ++ mark ++ b := by
      rintro f b rfl
      exact absent (c :: f) b rfl
    rw [replaceFrom_cons here, ih further]

/-- A mark that stands in a text once is replaced there, and the replacement is not looked at. -/
theorem replaceAll_of_once {front back : Text} (nonempty : mark ≠ [])
    (once : ∀ f b, front ++ mark ++ back = f ++ mark ++ b → f = front) :
    replaceAll mark replacement (front ++ mark ++ back) = front ++ replacement ++ back := by
  unfold replaceAll
  induction front with
  | nil =>
    obtain ⟨m, marks, rfl⟩ := List.exists_cons_of_ne_nil nonempty
    have rest : replaceFrom (m :: marks) replacement 0 back = back := by
      apply replaceFrom_of_absent
      rintro f b rfl
      -- A second mark would stand behind the first one.
      have second := once ((m :: marks) ++ f) b (by simp)
      cases second
    have here : (m :: marks).isPrefixOf (m :: (marks ++ back)) :=
      List.isPrefixOf_iff_prefix.2 ⟨back, rfl⟩
    change replaceFrom (m :: marks) replacement 0 (m :: (marks ++ back)) = replacement ++ back
    rw [replaceFrom, if_pos here]
    change replacement ++ replaceFrom (m :: marks) replacement marks.length (marks ++ back) = _
    rw [replaceFrom_append, rest]
  | cons c front ih =>
    have here : ¬mark <+: c :: (front ++ mark ++ back) := by
      rintro ⟨b, shape⟩
      have first := once [] b shape.symm
      cases first
    have further : ∀ f b, front ++ mark ++ back = f ++ mark ++ b → f = front := by
      intro f b same
      have split := once (c :: f) b (congrArg (c :: ·) same)
      exact (List.cons.inj split).2
    change replaceFrom mark replacement 0 (c :: (front ++ mark ++ back)) = _
    rw [replaceFrom_cons here, ih further]
    rfl

end

/-- The template up to its placeholder. -/
def templateFront : Text :=
  unlines ((templateLines.take 4).map String.toList) ++ "SOURCE = ".toList

/-- The template behind its placeholder. -/
def templateBack : Text := '\n' :: unlines ((templateLines.drop 5).map String.toList)

theorem template_eq : template = templateFront ++ placeholder ++ templateBack := by
  have split : templateLines =
      templateLines.take 4 ++ "SOURCE = __PYSWIFT_SOURCE__" :: templateLines.drop 5 := rfl
  have line : "SOURCE = __PYSWIFT_SOURCE__".toList = "SOURCE = ".toList ++ placeholder := rfl
  have whole : template = unlines (templateLines.map String.toList) := by
    rw [template, unlines, List.flatMap_map]
  rw [whole, split, List.map_append, List.map_cons, line, templateFront, templateBack]
  simp only [unlines, List.flatMap_append, List.flatMap_cons, List.append_assoc, List.cons_append,
    List.nil_append]

theorem not_mem_toList {c : Char} {cs : List Char} (absent : c ∉ cs) :
    c ∉ (String.ofList cs).toList := by
  rwa [String.toList_ofList]

theorem not_mem_templateBack : 'Y' ∉ templateBack := by
  have plain : ∀ l ∈ templateLines.drop 5, 'Y' ∉ l.toList := by
    simp only [templateLines, List.drop, List.forall_mem_cons, String.toList_append,
      List.mem_append, not_or]
    repeat' apply And.intro
    all_goals first | exact not_mem_toList (by decide) | exact nofun
  intro mem
  rcases List.mem_cons.1 mem with newline | mem
  · exact absurd newline (by decide)
  · obtain ⟨line, inLines, inLine⟩ := List.mem_flatMap.1 mem
    obtain ⟨l, inTemplate, rfl⟩ := List.mem_map.1 inLines
    rcases List.mem_append.1 inLine with inLine | newline
    · exact plain l inTemplate inLine
    · exact absurd newline (by decide)

/-- The placeholder stands in the template once: there is one `Y`. -/
theorem template_split {f b : Text} (split : template = f ++ placeholder ++ b) :
    f = templateFront ∧ b = templateBack := by
  have mark : placeholder = "__P".toList ++ 'Y' :: "SWIFT_SOURCE__".toList := rfl
  have around (f b : Text) : f ++ placeholder ++ b =
      (f ++ "__P".toList) ++ 'Y' :: ("SWIFT_SOURCE__".toList ++ b) := by
    rw [mark, List.append_assoc, List.append_assoc, List.cons_append, ← List.append_assoc]
  have front : 'Y' ∉ templateFront ++ "__P".toList := by decide +kernel
  have back : 'Y' ∉ "SWIFT_SOURCE__".toList ++ templateBack := by
    rw [List.mem_append, not_or]
    exact ⟨by decide, not_mem_templateBack⟩
  rw [template_eq, around, around] at split
  obtain ⟨first, -, second⟩ := (List.append_cons_inj_of_notMem front back).1 split
  exact ⟨(List.append_cancel_right first).symm, (List.append_cancel_left second).symm⟩

/-- The script of any source is the template with one literal in place of its one placeholder. The
literal stands where code is read, has no control character in it and no quote before its end that
is in play, and is read as the source. -/
theorem script_embeds :
    ∃ front back, template = front ++ placeholder ++ back ∧
      (∀ f b, template = f ++ placeholder ++ b → f = front ∧ b = back) ∧
      front.foldl Place.next .code = .code ∧
      ∀ source, ∃ body, Quoted.Body body source ∧
        script source = front ++ ('"' :: body ++ ['"']) ++ back := by
  have code : templateFront.foldl Place.next .code = .code := by decide +kernel
  refine ⟨templateFront, templateBack, template_eq, fun f b => template_split, code, ?_⟩
  intro source
  refine ⟨source.flatMap Quoted.escape, Quoted.body_flatMap_escape source, ?_⟩
  have once : ∀ f b, templateFront ++ placeholder ++ templateBack = f ++ placeholder ++ b →
      f = templateFront := by
    intro f b same
    exact (template_split (template_eq.trans same)).1
  rw [script, template_eq]
  exact replaceAll_of_once (by decide) once

end SwiftDraft.Interpreter
