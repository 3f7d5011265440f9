import SwiftDraft.Text.Basic

/-!
# Lines

A line ends at a newline, or at a carriage return and a newline. Text after the last newline is a
line too, and keeps a carriage return at its end.
-/

namespace SwiftDraft.Text

def lines : Text → List Text
  | [] => []
  | '\r' :: '\n' :: rest => [] :: lines rest
  | c :: rest =>
    if c = '\n' then [] :: lines rest
    else match lines rest with
      | [] => [[c]]
      | l :: ls => (c :: l) :: ls

/-- The lines of a text with their numbers, counted from 1. -/
def numberedLines (s : Text) : List (Nat × Text) :=
  (lines s).zipIdx.map fun (l, i) => (i + 1, l)

/-- Each line followed by a newline. -/
def unlines (ls : List Text) : Text := ls.flatMap (· ++ ['\n'])

theorem lines_cons {c : Char} (hr : c ≠ '\r') (hn : c ≠ '\n') (s : Text) :
    lines (c :: s) = match lines s with
      | [] => [[c]]
      | l :: ls => (c :: l) :: ls := by
  rw [lines.eq_3 _ _ (by rintro r h; exact absurd h hr), if_neg hn]

@[simp] theorem lines_newline (s : Text) : lines ('\n' :: s) = [] :: lines s := by
  simp [lines]

/-- The columns of the blanks that start a line, a tab standing for `tab` of them. -/
def exactColumns (tab : Nat) : Text → Nat
  | [] => 0
  | c :: rest => if isBlank c then (if c = '\t' then tab else 1) + exactColumns tab rest else 0

/-- The width of the indentation as a build without overflow checks counts it: in machine words, from
zero again when one is full. -/
def columns (tab : Nat) (line : Text) : Nat := exactColumns tab line % wordSize

theorem columns_of_lt {tab : Nat} {line : Text} (h : exactColumns tab line < wordSize) :
    columns tab line = exactColumns tab line := Nat.mod_eq_of_lt h

/-- The sum of two machine words, if it is one. -/
def addWord? (a b : Nat) : Option Nat := if a + b < wordSize then some (a + b) else none

/-- The width of the indentation as a build with overflow checks counts it: it stops at a sum that is
no machine word. -/
def columns? (tab : Nat) (line : Text) : Option Nat :=
  (line.takeWhile isBlank).foldlM (fun n c => addWord? n (if c = '\t' then tab else 1)) 0

theorem columns?_eq (tab : Nat) (line : Text) :
    columns? tab line =
      if exactColumns tab line < wordSize then some (exactColumns tab line) else none := by
  -- What has been counted so far is a word, or the counting had stopped.
  have counted (n : Nat) (word : n < wordSize) :
      (line.takeWhile isBlank).foldlM (fun n c => addWord? n (if c = '\t' then tab else 1)) n =
        if n + exactColumns tab line < wordSize then some (n + exactColumns tab line) else none := by
    induction line generalizing n with
    | nil => simp [exactColumns, word]
    | cons c line ih =>
      rw [exactColumns]
      split
      · next blank =>
        rw [List.takeWhile_cons_of_pos blank, List.foldlM_cons, ← Nat.add_assoc]
        generalize (if c = '\t' then tab else 1) = more
        unfold addWord?
        split
        · next fits => exact ih (n + more) fits
        · next full => exact (if_neg fun fits => full (by omega)).symm
      · next visible =>
        rw [List.takeWhile_cons_of_neg visible]
        simp [word]
  have whole := counted 0 (by decide)
  rwa [Nat.zero_add] at whole

end SwiftDraft.Text
