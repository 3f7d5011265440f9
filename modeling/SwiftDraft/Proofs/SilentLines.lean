import SwiftDraft.Proofs.Concatenation
import Mathlib.Logic.Relation

/-!
# Blank lines and comments

Blank lines and lines with only a comment can be put between the logical lines of a script, or taken
out there, at any indentation: the statements of the script are nested as before
(`padding_neutral`). What has been read is compared without them (`Nesting.bare`), and every
operation on the open blocks looks only at what is left.
-/

namespace SwiftDraft

open Text

namespace Script

mutual

/-- A node without line numbers and without the blank lines and comments in it, unless it is one
itself. -/
def Node.bare : Node → List Node
  | .leaf _ s => if (Statement.simple s).isSilent then [] else [.leaf 0 s]
  | .block _ h body => [.block 0 h (bare body)]

/-- The nodes of a tree without blank lines, comments and line numbers. -/
def bare : List Node → List Node
  | [] => []
  | n :: ns => n.bare ++ bare ns

end

@[simp] theorem bare_nil : bare [] = [] := rfl

@[simp] theorem bare_append (ns ms : List Node) : bare (ns ++ ms) = bare ns ++ bare ms := by
  induction ns with
  | nil => rfl
  | cons n ns ih => rw [List.cons_append, bare, bare, ih, List.append_assoc]

theorem bare_leaf (number : Nat) (s : Simple) (ns : List Node) :
    bare (.leaf number s :: ns) =
      (if (Statement.simple s).isSilent then [] else [.leaf 0 s]) ++ bare ns := rfl

theorem bare_block (number : Nat) (h : Header) (body ns : List Node) :
    bare (.block number h body :: ns) = .block 0 h (bare body) :: bare ns := rfl

@[simp] theorem bare_bare (ns : List Node) : bare (bare ns) = bare ns := by
  induction ns using forest_induction with
  | nil => rfl
  | leaf number s ns ih =>
    rw [bare_leaf, bare_append, ih]
    split
    · rfl
    · next spoken => rw [bare_leaf, if_neg spoken, bare_nil, List.append_nil]
  | block number h body ns ihBody ih => rw [bare_block, bare_block, ihBody, ih]

theorem Node.eq_of_isBlank {n : Node} (blank : n.isBlank) : ∃ number, n = .leaf number .blank := by
  cases n with
  | leaf number s =>
    cases s with
    | blank => exact ⟨number, rfl⟩
    | _ => cases blank
  | block number h body => cases blank

theorem isBlank_of_mem_trailing {ns : List Node} : ∀ n ∈ (splitTrailingBlanks ns).2, n.isBlank :=
  fun _ mem => List.mem_takeWhile_imp (List.mem_reverse.1 mem)

theorem bare_of_blanks {ns : List Node} (blanks : ∀ n ∈ ns, n.isBlank) : bare ns = [] := by
  induction ns with
  | nil => rfl
  | cons n ns ih =>
    obtain ⟨first, rest⟩ := List.forall_mem_cons.1 blanks
    obtain ⟨number, rfl⟩ := n.eq_of_isBlank first
    exact ih rest

theorem bare_splitTrailingBlanks (ns : List Node) :
    bare (splitTrailingBlanks ns).1 = bare ns ∧ bare (splitTrailingBlanks ns).2 = [] := by
  have blanks : bare (splitTrailingBlanks ns).2 = [] := bare_of_blanks isBlank_of_mem_trailing
  have whole := congrArg bare (append_splitTrailingBlanks ns)
  rw [bare_append, blanks, List.append_nil] at whole
  exact ⟨whole, blanks⟩

def OpenBlock.bare (b : OpenBlock) : OpenBlock := ⟨0, b.header, Script.bare b.body⟩

@[simp] theorem OpenBlock.bare_comp_bare : OpenBlock.bare ∘ OpenBlock.bare = OpenBlock.bare := by
  funext b
  simp [OpenBlock.bare]

namespace Nesting

/-- What has been read, without blank lines, comments, line numbers and warnings. -/
def bare (n : Nesting) : Nesting := ⟨Script.bare n.outer, n.blocks.map OpenBlock.bare, []⟩

variable (n : Nesting)

@[simp] theorem level_bare : n.bare.level = n.level := by simp [bare, level]

@[simp] theorem bare_bare : n.bare.bare = n.bare := by simp [bare]

theorem bare_append (nodes : List Node) :
    (n.append nodes).bare = n.bare.append (Script.bare nodes) := by
  obtain ⟨outer, blocks, warnings⟩ := n
  cases blocks with
  | nil => simp [bare, append]
  | cons b bs => simp [bare, append, OpenBlock.bare]

/-- The blanks that move out of a block do not matter, nor does the warning about an empty one. -/
theorem bare_close_of_blocks {n : Nesting} {b : OpenBlock} {bs : List OpenBlock}
    (innermost : n.blocks = b :: bs) :
    n.close.bare = ({ n with blocks := bs } : Nesting).bare.append
      [.block 0 b.header (Script.bare b.body)] := by
  obtain ⟨body, blanks⟩ := bare_splitTrailingBlanks b.body
  rw [close_of_blocks innermost, bare_append, bare_block, body, blanks]
  split <;> rfl

theorem bare_close : n.close.bare = n.bare.close.bare := by
  cases innermost : n.blocks with
  | nil => simp [close, bare, innermost]
  | cons b bs =>
    have inBare : n.bare.blocks = b.bare :: bs.map OpenBlock.bare := by simp [bare, innermost]
    have rest : ({ n with blocks := bs } : Nesting).bare =
        ({ n.bare with blocks := bs.map OpenBlock.bare } : Nesting).bare := by
      exact (bare_bare { n with blocks := bs }).symm
    rw [bare_close_of_blocks innermost, bare_close_of_blocks inBare, rest]
    simp [OpenBlock.bare]

theorem bare_closeMany (k : Nat) : (closeMany k n).bare = (closeMany k n.bare).bare := by
  induction k generalizing n with
  | zero => simp [closeMany]
  | succ k ih => rw [closeMany, closeMany, ih, bare_close, ← ih]

theorem bare_closeTo (level : Nat) : (n.closeTo level).bare = (n.bare.closeTo level).bare := by
  rw [closeTo, closeTo, bare_closeMany, level_bare]

theorem bare_place (line : Nat) (s : Statement) :
    (n.place line s).bare = (n.bare.place 0 s).bare := by
  cases s with
  | simple s =>
    simp only [place, bare_append, bare_bare]
    rfl
  | header h =>
    have opened : (OpenBlock.mk line h []).bare = (OpenBlock.mk 0 h []).bare := rfl
    simp [place, bare, opened]

variable {n} {m : Nesting}

theorem place_congr (same : n.bare = m.bare) (line line' : Nat) (s : Statement) :
    (n.place line s).bare = (m.place line' s).bare := by
  rw [bare_place, same, ← bare_place]

theorem closeTo_congr (same : n.bare = m.bare) (level : Nat) :
    (n.closeTo level).bare = (m.closeTo level).bare := by
  rw [bare_closeTo, same, ← bare_closeTo]

/-- Where a logical line comes to stand depends on its indentation and on the bare nesting alone. -/
theorem add_congr (same : n.bare = m.bare) (unit : Nat) {l l' : LogicalLine}
    (indent : l.indent = l'.indent) (statement : l.statement = l'.statement) :
    (n.add unit l).bare = (m.add unit l').bare := by
  obtain ⟨line, count, indentation, s⟩ := l
  obtain ⟨line', count', indentation', s'⟩ := l'
  cases indent
  cases statement
  cases indentation with
  | none => exact place_congr same line line' s
  | some width =>
    have aligned (k : Nesting) (w : Warning) :
        (if width % unit = 0 then k else k.warn w).bare = k.bare := by split <;> rfl
    have deep (k : Nesting) (w : Warning) :
        (if k.level < width / unit then k.warn w else k).bare = k.bare := by split <;> rfl
    refine place_congr ?_ line line' s
    simp only [deep]
    apply closeTo_congr
    rw [aligned, aligned, same]

theorem foldl_shift_congr (same : n.bare = m.bare) (unit j k : Nat) (items : List LogicalLine) :
    ((items.map (LogicalLine.shift j)).foldl (add unit) n).bare =
      ((items.map (LogicalLine.shift k)).foldl (add unit) m).bare := by
  induction items generalizing n m with
  | nil => exact same
  | cons l items ih => exact ih (add_congr same unit rfl rfl)

/-- A blank line or a comment changes nothing but where later ones stand. -/
theorem bare_add_silent (unit : Nat) {l : LogicalLine} (unindented : l.indent = none)
    (silent : l.statement.isSilent) : (n.add unit l).bare = n.bare := by
  obtain ⟨line, count, indent, statement⟩ := l
  cases unindented
  cases statement with
  | header h => cases silent
  | simple s =>
    have nothing : Script.bare [.leaf line s] = [] := by
      rw [bare_leaf, if_pos silent, bare_nil, List.append_nil]
    change (n.append [.leaf line s]).bare = n.bare
    rw [bare_append, nothing, append_nil]

end Nesting

/-- A line with nothing but blanks or a comment. -/
def SilentLine (l : Text) : Prop := ∀ c ∈ (trim l).head?, c = '#'

theorem logicalLine_silent {l : Text} (silent : SilentLine l) (unit number : Nat)
    (further : List Text) : ∃ s : Simple, (Statement.simple s).isSilent ∧
      logicalLine unit number l further = ⟨number, 1, none, .simple s⟩ := by
  cases shape : trim l with
  | nil => exact ⟨.blank, rfl, logicalLine_blank unit number further shape⟩
  | cons c text =>
    have comment : c = '#' := silent c (by rw [shape]; rfl)
    subst comment
    exact ⟨.comment text, rfl, logicalLine_comment unit number further shape⟩

/-- Silent lines are logical lines of their own, which do not matter to those behind them. -/
theorem foldl_silent_append {ls : List Text} (silent : ∀ l ∈ ls, SilentLine l) (unit number : Nat)
    (more : List Text) (n : Nesting) :
    ∃ m : Nesting, m.bare = n.bare ∧
      (logicalLinesFrom unit number (ls ++ more)).foldl (Nesting.add unit) n =
        (logicalLinesFrom unit (number + ls.length) more).foldl (Nesting.add unit) m := by
  induction ls generalizing number n with
  | nil => exact ⟨n, rfl, rfl⟩
  | cons l ls ih =>
    obtain ⟨first, rest⟩ := List.forall_mem_cons.1 silent
    obtain ⟨s, quiet, item⟩ := logicalLine_silent first unit number (ls ++ more)
    have alone : (logicalLine unit number l (ls ++ more)).count = 1 := by rw [item]
    obtain ⟨m, same, read⟩ := ih rest (number + 1) (n.add unit ⟨number, 1, none, .simple s⟩)
    refine ⟨m, same.trans (Nesting.bare_add_silent unit rfl quiet), ?_⟩
    rw [List.cons_append, logicalLinesFrom_single alone, item, List.foldl_cons, read,
      List.length_cons, Nat.add_assoc, Nat.add_comm 1]

theorem columns_trimEnd {l : Text} (filled : trim l ≠ []) (unit : Nat) :
    columns unit (trimEnd l) = columns unit l := by
  obtain ⟨i, c, r, rfl, blanks, visible⟩ := exists_blanks_cons filled
  obtain ⟨t, start⟩ := trimEnd_cons_of_not_blank visible r
  have shown : trimEnd (c :: r) ≠ [] := by
    rw [start]
    exact List.cons_ne_nil c t
  rw [trimEnd_append shown, start, columns, columns, exactColumns_blanks_cons unit blanks visible]

theorem continued_trimEnd (text : Text) (depth : Int) (ls : List Text) :
    continued text depth (ls.map trimEnd) = continued text depth ls := by
  induction ls generalizing text depth with
  | nil => rfl
  | cons l ls ih => simp only [List.map_cons, continued, trim_trimEnd, ih]

theorem docstringRest_trimEnd (quotes : Text) (ls : List Text) :
    docstringRest quotes (ls.map trimEnd) = docstringRest quotes ls := by
  induction ls with
  | nil => rfl
  | cons l ls ih => simp only [List.map_cons, docstringRest, trim_trimEnd, ih]

theorem docstring_trimEnd (quotes first : Text) (ls : List Text) :
    docstring quotes first (ls.map trimEnd) = docstring quotes first ls := by
  simp only [docstring, docstringRest_trimEnd]

theorem logicalLine_trimEnd (unit number : Nat) (l : Text) (further : List Text) :
    logicalLine unit number (trimEnd l) (further.map trimEnd) =
      logicalLine unit number l further := by
  have same := trim_trimEnd l
  rcases line_cases l with blank | ⟨text, comment⟩ | ⟨quotes, first, starts⟩ | code
  · rw [logicalLine_blank unit number _ blank, logicalLine_blank unit number _ (same.trans blank)]
  · rw [logicalLine_comment unit number _ comment,
      logicalLine_comment unit number _ (same.trans comment)]
  · obtain ⟨c, rest, shape, -⟩ := head_of_docstringStart starts
    have width := columns_trimEnd (shape ▸ List.cons_ne_nil c rest) unit
    rw [logicalLine_docstring unit number _ starts,
      logicalLine_docstring unit number _ (same.symm ▸ starts), docstring_trimEnd, width]
  · have code' : IsCode (trimEnd l) := by
      unfold IsCode
      rw [same]
      exact code
    rw [logicalLine_code unit number _ code, logicalLine_code unit number _ code', same,
      continued_trimEnd, columns_trimEnd code.1]

theorem logicalLinesFrom_trimEnd (unit number : Nat) (ls : List Text) :
    logicalLinesFrom unit number (ls.map trimEnd) = logicalLinesFrom unit number ls := by
  induction number, ls using lines_induction unit with
  | nil number => rfl
  | cons number l own behind ends ih =>
    have same := logicalLine_trimEnd unit number l (own ++ behind)
    rw [List.map_append] at same
    have ends' : (logicalLine unit number (trimEnd l)
        (own.map trimEnd ++ behind.map trimEnd)).count = (own.map trimEnd).length + 1 := by
      rw [same, ends, List.length_map]
    rw [List.map_cons, List.map_append, logicalLinesFrom_cons ends', logicalLinesFrom_cons ends,
      same, List.length_map, ih]

/-- A text with its last line ended. -/
def ended (a : Text) : Text := if a = [] ∨ a.getLast? = some '\n' then a else a ++ ['\n']

theorem endsLine_ended (a : Text) : EndsLine (ended a) := by
  unfold ended
  split
  · next ends => exact ends
  · right
    simp

theorem ended_of_endsLine {a : Text} (ends : EndsLine a) : ended a = a := if_pos ends

theorem ended_of_not_endsLine {a : Text} (ends : ¬ EndsLine a) : ended a = a ++ ['\n'] :=
  if_neg ends

/-- Ending the last line takes at most a blank off it. -/
theorem trimEnd_lines_ended (a : Text) :
    (lines (ended a)).map trimEnd = (lines a).map trimEnd := by
  by_cases ends : EndsLine a
  · rw [ended_of_endsLine ends]
  · rw [ended_of_not_endsLine ends]
    induction a using lineInduction with
    | last a plain =>
      have filled : a ≠ [] := fun empty => ends (Or.inl empty)
      have short : trimEnd (chomp a) = trimEnd a := by
        rcases chomp_cases a with same | returns
        · rw [same]
        · conv => rhs; rw [returns]
          exact (trimEnd_append_blanks (List.all_eq_true.1 (by decide)) _).symm
      rw [lines_line_append plain, lines_last plain filled]
      change [trimEnd (chomp a)] = [trimEnd a]
      rw [short]
    | line l rest plain ih =>
      have open_end : ¬ EndsLine rest := by
        rintro (rfl | last)
        · exact ends (Or.inr (by simp))
        · refine ends (Or.inr ?_)
          have filled : rest ≠ [] := List.ne_nil_of_mem (List.mem_of_getLast? last)
          rw [List.getLast?_append_of_ne_nil _ (List.cons_ne_nil _ _),
            List.getLast?_cons_of_ne_nil filled, last]
      rw [List.append_assoc, List.cons_append, lines_line_append plain, lines_line_append plain,
        List.map_cons, List.map_cons, ih open_end]

/-- The second text is the first one with lines `x` more, blank lines or comments, behind a part of
it whose last logical line is complete. What is behind them, if anything, is whole lines. -/
inductive Padded (unit : Nat) : Text → Text → Prop
  | mk {a x b : Text} (complete : ∀ item ∈ (logicalLines unit a).getLast?, item.Complete a)
      (silent : ∀ l ∈ lines x, SilentLine l) (whole : b ≠ [] → EndsLine a ∧ EndsLine x) :
      Padded unit (a ++ b) (ended a ++ (x ++ b))

theorem logicalLinesFrom_ended {unit : Nat} {a : Text}
    (complete : ∀ item ∈ (logicalLines unit a).getLast?, item.Complete a) (more : List Text) :
    logicalLinesFrom unit 1 (lines (ended a) ++ more) =
      logicalLines unit a ++ logicalLinesFrom unit (1 + (lines a).length) more := by
  have same : (lines (ended a) ++ more).map trimEnd = (lines a ++ more).map trimEnd := by
    rw [List.map_append, List.map_append, trimEnd_lines_ended]
  rw [← logicalLinesFrom_trimEnd, same, logicalLinesFrom_trimEnd, logicalLinesFrom_append complete]

theorem bare_nest_of_padded {unit : Nat} {s t : Text} (padded : Padded unit s t) :
    bare (nest unit t).nodes = bare (nest unit s).nodes := by
  obtain @⟨a, x, b, complete, silent, whole⟩ := padded
  obtain ⟨front, back⟩ : lines (a ++ b) = lines a ++ lines b ∧ lines (x ++ b) = lines x ++ lines b := by
    by_cases filled : b = []
    · simp [filled, lines]
    · exact ⟨lines_append (whole filled).1 b, lines_append (whole filled).2 b⟩
  have before : logicalLines unit (a ++ b) = logicalLines unit a ++
      (logicalLinesFrom unit 1 (lines b)).map (LogicalLine.shift (lines a).length) := by
    rw [logicalLines, front, logicalLinesFrom_append complete, logicalLinesFrom_shift]
  have after : logicalLines unit (ended a ++ (x ++ b)) = logicalLines unit a ++
      logicalLinesFrom unit (1 + (lines a).length) (lines x ++ lines b) := by
    rw [logicalLines, lines_append (endsLine_ended a), back, logicalLinesFrom_ended complete]
  obtain ⟨m, same, read⟩ := foldl_silent_append silent unit (1 + (lines a).length) (lines b)
    ((logicalLines unit a).foldl (Nesting.add unit) .start)
  have placed : ((logicalLines unit (ended a ++ (x ++ b))).foldl (Nesting.add unit) .start).bare =
      ((logicalLines unit (a ++ b)).foldl (Nesting.add unit) .start).bare := by
    rw [after, before, List.foldl_append, List.foldl_append, read, Nat.add_assoc,
      logicalLinesFrom_shift]
    exact Nesting.foldl_shift_congr same unit _ _ _
  exact congrArg Nesting.outer (Nesting.closeTo_congr placed 0)

/-- A function whose last line is not ended. -/
def plainFunction : Text := "def f():\n    return 1".toList

def spacedFunction : Text := "def f():\n\n  # odd\n    return 1".toList

def paddedFunction : Text := "def f():\n\n  # odd\n    return 1\n\t# end".toList

theorem padded_body : Padded 4 plainFunction spacedFunction := by
  have items : logicalLines 4 "def f():\n".toList =
      [⟨1, 1, some 0, .header (.function "f".toList [] none)⟩] := by
    have split : lines "def f():\n".toList = ["def f():".toList] := by decide
    rw [logicalLines, split, logicalLinesFrom_single (by decide), logicalLinesFrom_nil]
    decide
  refine @Padded.mk 4 "def f():\n".toList "\n  # odd\n".toList "    return 1".toList ?_ ?_ ?_
  · rw [items]
    rintro item ⟨⟩
    refine ⟨"def f():".toList, [], by decide, fun _ => by decide, ?_⟩
    intro quotes first starts
    cases starts
  · have split : lines "\n  # odd\n".toList = [[], "  # odd".toList] := by decide
    rw [split]
    refine List.forall_mem_cons.2 ⟨?_, List.forall_mem_singleton.2 ?_⟩ <;> rintro c ⟨⟩
    rfl
  · exact fun _ => ⟨Or.inr (by decide), Or.inr (by decide)⟩

theorem padded_end : Padded 4 spacedFunction paddedFunction := by
  have items : (logicalLines 4 spacedFunction).getLast? =
      some ⟨4, 1, some 4, .simple (.returning (some "1".toList))⟩ := by
    have split : lines spacedFunction =
        ["def f():".toList, [], "  # odd".toList, "    return 1".toList] := by decide
    rw [logicalLines, split, logicalLinesFrom_single (by decide),
      logicalLinesFrom_single (by decide), logicalLinesFrom_single (by decide),
      logicalLinesFrom_single (by decide), logicalLinesFrom_nil]
    decide
  have split : paddedFunction = ended spacedFunction ++ ("\t# end".toList ++ []) := by decide
  have whole : spacedFunction = spacedFunction ++ [] := by decide
  rw [split]
  nth_rewrite 1 [whole]
  refine Padded.mk ?_ ?_ (fun filled => absurd rfl filled)
  · rw [items]
    rintro item ⟨⟩
    refine ⟨"    return 1".toList, [], by decide, fun _ => by decide, ?_⟩
    intro quotes first starts
    cases starts
  · have split : lines "\t# end".toList = ["\t# end".toList] := by decide
    rw [split]
    refine List.forall_mem_singleton.2 ?_
    rintro c ⟨⟩
    rfl

end Script

end SwiftDraft
