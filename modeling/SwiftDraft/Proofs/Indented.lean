import SwiftDraft.Proofs.Folding
import SwiftDraft.Proofs.Lines
import SwiftDraft.Proofs.Preorder
import SwiftDraft.Proofs.Trimmed

/-!
# Indented scripts

A tree of statements, each on a line of its own, written with a tab or the columns of one unit for
every level. Reading such a script gives back the tree (`nest_written`): whatever blocks are open
when a line comes, its indentation closes those it does not belong to.
-/

namespace SwiftDraft.Script

open Text

/-- A statement on one line, and the statements of its block. -/
inductive Nested where
  | line (text : Text) (inner : List Nested)

mutual

def Nested.size : Nested → Nat
  | .line _ inner => sizes inner + 1

/-- The number of lines. -/
def sizes : List Nested → Nat
  | [] => 0
  | t :: ts => t.size + sizes ts

end

mutual

/-- The node of a statement on the line with the given number. -/
def Nested.node (number : Nat) : Nested → Node
  | .line text inner =>
    match recognise text with
    | .simple s => .leaf number s
    | .header h => .block number h (nodesFrom (number + 1) inner)

/-- The nodes of statements, the first of which is on the line with the given number. -/
def nodesFrom (number : Nat) : List Nested → List Node
  | [] => []
  | t :: ts => t.node number :: nodesFrom (number + t.size) ts

end

/-- A trimmed text that is a whole statement, and neither a comment nor a docstring. -/
structure OneLiner (t : Text) : Prop where
  filled : t ≠ []
  trimmed : trim t = t
  oneLine : '\n' ∉ t
  noComment : t.head? ≠ some '#'
  noDocstring : docstringStart? t = none
  closed : bracketDelta t ≤ 0
  ended : t.getLast? ≠ some '\\'

instance (t : Text) : Decidable (OneLiner t) :=
  decidable_of_iff (t ≠ [] ∧ trim t = t ∧ '\n' ∉ t ∧ t.head? ≠ some '#' ∧
      docstringStart? t = none ∧ bracketDelta t ≤ 0 ∧ t.getLast? ≠ some '\\')
    ⟨fun ⟨f, t, o, c, d, b, e⟩ => ⟨f, t, o, c, d, b, e⟩,
      fun ⟨f, t, o, c, d, b, e⟩ => ⟨f, t, o, c, d, b, e⟩⟩

/-- Every line is a statement, and there is something in a block exactly where a header opens it. -/
inductive WellNested : List Nested → Prop
  | nil : WellNested []
  | cons {text : Text} {inner rest : List Nested} (statement : OneLiner text)
      (opens : (∃ h, recognise text = .header h) ↔ inner ≠ []) (within : WellNested inner)
      (behind : WellNested rest) : WellNested (.line text inner :: rest)

namespace WellNested

variable {text : Text} {inner rest : List Nested}

theorem leaf (statement : OneLiner text) {s : Simple} (kind : recognise text = .simple s)
    (behind : WellNested rest) : WellNested (.line text [] :: rest) := by
  refine .cons statement ⟨?_, fun filled => absurd rfl filled⟩ .nil behind
  rintro ⟨h, opens⟩
  rw [kind] at opens
  cases opens

theorem block (statement : OneLiner text) {h : Header} (kind : recognise text = .header h)
    (filled : inner ≠ []) (within : WellNested inner) (behind : WellNested rest) :
    WellNested (.line text inner :: rest) :=
  .cons statement ⟨fun _ => filled, fun _ => ⟨h, kind⟩⟩ within behind

end WellNested

/-- The indentation of a level: a tab or `unit` spaces for each level around it. -/
inductive Indentation (unit : Nat) : Nat → Text → Prop
  | none : Indentation unit 0 []
  | tab {level : Nat} {i : Text} (more : Indentation unit level i) :
      Indentation unit (level + 1) ('\t' :: i)
  | spaces {level : Nat} {i : Text} (more : Indentation unit level i) :
      Indentation unit (level + 1) (List.replicate unit ' ' ++ i)

/-- The lines of a tree that stands at a level, each indented in one of the two ways. -/
inductive Written (unit : Nat) : Nat → List Nested → List Text → Prop
  | nil (level : Nat) : Written unit level [] []
  | cons {level : Nat} {text i : Text} {inner rest : List Nested} {ls ms : List Text}
      (indentation : Indentation unit level i) (within : Written unit (level + 1) inner ls)
      (behind : Written unit level rest ms) :
      Written unit level (.line text inner :: rest) ((i ++ text) :: (ls ++ ms))

section

variable {unit level number : Nat} {i text : Text}

theorem isBlank_of_indentation (indentation : Indentation unit level i) : ∀ c ∈ i, isBlank c := by
  induction indentation with
  | none => simp
  | tab _ ih => exact List.forall_mem_cons.2 ⟨by decide, ih⟩
  | spaces _ ih =>
    intro c hc
    rcases List.mem_append.1 hc with space | more
    · rw [List.eq_of_mem_replicate space]
      decide
    · exact ih c more

theorem newline_not_mem_indentation (indentation : Indentation unit level i) : '\n' ∉ i := by
  induction indentation with
  | none => exact List.not_mem_nil
  | tab _ ih => simpa using ih
  | spaces _ ih => simpa using ih

theorem exactColumns_replicate (unit n : Nat) (s : Text) :
    exactColumns unit (List.replicate n ' ' ++ s) = n + exactColumns unit s := by
  induction n with
  | zero => simp
  | succ n ih =>
    rw [List.replicate_succ, List.cons_append, exactColumns, if_pos (by decide),
      if_neg (by decide), ih]
    omega

theorem exactColumns_indentation (indentation : Indentation unit level i) (s : Text) :
    exactColumns unit (i ++ s) = level * unit + exactColumns unit s := by
  induction indentation with
  | none => simp
  | tab _ ih =>
    rw [List.cons_append, exactColumns, if_pos (by decide), if_pos rfl, ih, Nat.succ_mul]
    omega
  | spaces _ ih =>
    rw [List.append_assoc, exactColumns_replicate, ih, Nat.succ_mul]
    omega

theorem OneLiner.not_isBlank_head (statement : OneLiner text) :
    ∃ c r, text = c :: r ∧ isBlank c = false := by
  obtain ⟨c, r, rfl⟩ := List.exists_cons_of_ne_nil statement.filled
  refine ⟨c, r, rfl, not_isBlank_of_head?_trim (s := c :: r) ?_⟩
  rw [statement.trimmed]
  rfl

theorem OneLiner.exactColumns_eq (statement : OneLiner text)
    (indentation : Indentation unit level i) : exactColumns unit (i ++ text) = level * unit := by
  obtain ⟨c, r, rfl, filled⟩ := statement.not_isBlank_head
  rw [exactColumns_indentation indentation, exactColumns, if_neg (by simp [filled]), Nat.add_zero]

theorem OneLiner.trim_eq (statement : OneLiner text) (indentation : Indentation unit level i) :
    trim (i ++ text) = text := by
  rw [trim_of_blanks (isBlank_of_indentation indentation), statement.trimmed]

theorem OneLiner.isCode (statement : OneLiner text) (indentation : Indentation unit level i) :
    IsCode (i ++ text) := by
  unfold IsCode
  rw [statement.trim_eq indentation]
  exact ⟨statement.filled, statement.noComment, statement.noDocstring⟩

/-- A statement of one line takes in none of the lines behind it. -/
theorem OneLiner.logicalLine_eq (statement : OneLiner text)
    (indentation : Indentation unit level i) (further : List Text) :
    logicalLine unit number (i ++ text) further =
      ⟨number, 1, some (columns unit (i ++ text)), recognise text⟩ := by
  have ends : ¬ (Gathered.start (i ++ text)).GoesOn := by
    unfold Gathered.GoesOn Gathered.start
    rw [statement.trim_eq indentation]
    exact not_or.2 ⟨Int.not_lt.2 statement.closed, statement.ended⟩
  have alone := continued_stop ends further
  simp only [Gathered.start] at alone
  rw [logicalLine_code unit number further (statement.isCode indentation), alone,
    statement.trim_eq indentation]

theorem OneLiner.chomp_eq (statement : OneLiner text) (i : Text) :
    chomp (i ++ text) = i ++ text := by
  apply chomp_of_getLast
  rw [List.getLast?_append_of_ne_nil i statement.filled, ← statement.trimmed]
  intro last
  exact absurd (not_isBlank_of_getLast?_trim last) (by decide)

end

namespace Nesting

variable {n : Nesting} {level : Nat}

@[simp] theorem append_nil (n : Nesting) : n.append [] = n := by
  unfold append
  split
  · next outermost => rw [List.append_nil]
  · next b bs innermost =>
    obtain ⟨outer, blocks, warnings⟩ := n
    simp_all

theorem append_append (n : Nesting) (ns ms : List Node) :
    (n.append ns).append ms = n.append (ns ++ ms) := by
  obtain ⟨outer, blocks, warnings⟩ := n
  cases blocks with
  | nil => simp [append]
  | cons b bs => simp [append]

theorem closeTo_of_le (h : n.level ≤ level) : n.closeTo level = n := by
  rw [closeTo, Nat.sub_eq_zero_of_le h, closeMany]

theorem closeMany_succ (k : Nat) (n : Nesting) : closeMany (k + 1) n = (closeMany k n).close := by
  induction k generalizing n with
  | zero => rfl
  | succ k ih => rw [closeMany, ih, closeMany]

/-- Closing down to a level closes its block last. -/
theorem closeTo_of_lt (h : level < n.level) : n.closeTo level = (n.closeTo (level + 1)).close := by
  rw [closeTo, show n.level - level = n.level - (level + 1) + 1 by omega, closeMany_succ]
  rfl

theorem splitTrailingBlanks_of_filled {body : List Node} (filled : ∀ b ∈ body, b.isBlank = false) :
    splitTrailingBlanks body = (body, []) := by
  cases shape : body.reverse with
  | nil => rw [List.reverse_eq_nil_iff.1 shape]; rfl
  | cons b bs =>
    have last := filled b (List.mem_reverse.1 (shape ▸ List.mem_cons_self))
    rw [splitTrailingBlanks, shape, List.dropWhile_cons_of_neg (by simp [last]),
      List.takeWhile_cons_of_neg (by simp [last]), ← shape, List.reverse_reverse, List.reverse_nil]

/-- A block that is closed right behind its body. -/
theorem close_place_append (n : Nesting) (number : Nat) (h : Header) {body : List Node}
    (some_body : body ≠ []) (filled : ∀ b ∈ body, b.isBlank = false) :
    ((n.place number (.header h)).append body).close = n.append [.block number h body] := by
  have innermost : ((n.place number (.header h)).append body).blocks =
      ⟨number, h, body⟩ :: n.blocks := rfl
  rw [close_of_blocks innermost]
  simp only [splitTrailingBlanks_of_filled filled, List.isEmpty_iff, if_neg some_body]
  rfl

/-- An aligned statement no deeper than its block stands in the block of its level. -/
theorem add_aligned {unit number count : Nat} {s : Statement} (wide : 1 ≤ unit)
    (inside : level ≤ n.level) :
    n.add unit ⟨number, count, some (level * unit), s⟩ = (n.closeTo level).place number s := by
  have aligned : level * unit % unit = 0 := Nat.mul_mod_left level unit
  have same : level * unit / unit = level := Nat.mul_div_cancel level wide
  have enough : ¬ (n.closeTo level).level < level := by
    rw [level_closeTo]
    omega
  simp only [add, aligned, same, if_true, if_neg enough]

end Nesting

/-- Blank lines and comments have no indentation that matters. -/
def Statement.isSilent : Statement → Bool
  | .simple .blank | .simple (.comment _) => true
  | _ => false

/-- Code is never recognised as a blank line or a comment. -/
theorem isSilent_recognise (s : Text) : (recognise s).isSilent = false := by
  unfold recognise
  split
  · rfl
  · split
    · rfl
    · simp only [simple, Option.orElse_eq_orElse, Option.orElse_eq_or]
      cases found : ((returning? s).map Simple.returning).or ((assignment? s).or (printing? s)) with
      | none =>
        rw [Option.getD_none]
        split <;> rfl
      | some statement =>
        simp only [Option.or_eq_some_iff] at found
        rw [Option.getD_some]
        rcases found with found | ⟨-, found | ⟨-, found⟩⟩
        · obtain ⟨value, -, rfl⟩ := Option.map_eq_some_iff.1 found
          rfl
        · obtain ⟨⟨lhs, value⟩, -, found⟩ := Option.bind_eq_some_iff.1 found
          simp only at found
          split at found
          · cases found
          · obtain ⟨_, -, made⟩ := Option.bind_eq_some_iff.1 found
            cases made
            rfl
        · obtain ⟨u, -, found⟩ := Option.bind_eq_some_iff.1 found
          obtain ⟨-, made⟩ := Option.ite_none_right_eq_some.1 found
          cases made
          rfl

theorem isBlank_nodesFrom (number : Nat) (forest : List Nested) :
    ∀ b ∈ nodesFrom number forest, b.isBlank = false := by
  induction forest generalizing number with
  | nil => simp [nodesFrom]
  | cons t ts ih =>
    obtain ⟨text, inner⟩ := t
    rw [nodesFrom]
    refine List.forall_mem_cons.2 ⟨?_, ih _⟩
    rw [Nested.node]
    split
    · next s leaf =>
      have loud := isSilent_recognise text
      rw [leaf] at loud
      cases s with
      | blank => cases loud
      | _ => rfl
    · rfl

theorem nodesFrom_ne_nil {number : Nat} {forest : List Nested} (filled : forest ≠ []) :
    nodesFrom number forest ≠ [] := by
  cases forest with
  | nil => exact absurd rfl filled
  | cons t ts => exact List.cons_ne_nil _ _

theorem sizes_line (text : Text) (inner rest : List Nested) :
    sizes (.line text inner :: rest) = 1 + sizes inner + sizes rest := by
  rw [sizes, Nested.size, Nat.add_comm (sizes inner)]

/-- Reading a statement of a level closes what is open further in, and places it there. -/
theorem foldl_line {unit level number : Nat} {i text : Text} {n : Nesting} (wide : 1 ≤ unit)
    (statement : OneLiner text) (indentation : Indentation unit level i)
    (fits : exactColumns unit (i ++ text) < wordSize) (inside : level ≤ n.level)
    (more : List Text) :
    (logicalLinesFrom unit number ((i ++ text) :: more)).foldl (Nesting.add unit) n =
      (logicalLinesFrom unit (number + 1) more).foldl (Nesting.add unit)
        ((n.closeTo level).place number (recognise text)) := by
  have width : columns unit (i ++ text) = level * unit := by
    rw [columns_of_lt fits, statement.exactColumns_eq indentation]
  have alone : logicalLine unit number (i ++ text) more = _ :=
    statement.logicalLine_eq indentation more
  rw [logicalLinesFrom_single (by rw [alone]), alone, List.foldl_cons, width,
    Nesting.add_aligned wide inside]

/-- Reading the lines of a tree at a level adds its nodes to the block of that level, whatever
stands open around it. -/
theorem foldl_written {unit level : Nat} {forest : List Nested} {ls : List Text} (wide : 1 ≤ unit)
    (written : Written unit level forest ls) (well : WellNested forest)
    (fits : ∀ l ∈ ls, exactColumns unit l < wordSize) (number : Nat) (n : Nesting)
    (inside : level ≤ n.level) :
    ∃ m : Nesting, level ≤ m.level ∧
      m.closeTo level = (n.closeTo level).append (nodesFrom number forest) ∧
      ∀ more, (logicalLinesFrom unit number (ls ++ more)).foldl (Nesting.add unit) n =
        (logicalLinesFrom unit (number + sizes forest) more).foldl (Nesting.add unit) m := by
  induction written generalizing number n with
  | nil level => exact ⟨n, inside, (Nesting.append_nil _).symm, fun more => rfl⟩
  | @cons level text i inner rest ls ms indentation within behind ihWithin ihBehind =>
    obtain _ | ⟨statement, opens, wellWithin, wellBehind⟩ := well
    obtain ⟨fitsFirst, fitsRest⟩ := List.forall_mem_cons.1 fits
    obtain ⟨fitsWithin, fitsBehind⟩ := List.forall_mem_append.1 fitsRest
    have first (more : List Text) :
        (logicalLinesFrom unit number (((i ++ text) :: (ls ++ ms)) ++ more)).foldl
            (Nesting.add unit) n =
          (logicalLinesFrom unit (number + 1) (ls ++ (ms ++ more))).foldl (Nesting.add unit)
            ((n.closeTo level).place number (recognise text)) := by
      rw [List.cons_append, List.append_assoc]
      exact foldl_line wide statement indentation fitsFirst inside _
    have closed : (n.closeTo level).level = level := by
      rw [Nesting.level_closeTo]
      omega
    cases kind : recognise text with
    | simple s =>
      have leaf : inner = [] := by
        by_contra filled
        obtain ⟨h, header⟩ := opens.2 filled
        rw [kind] at header
        cases header
      subst leaf
      cases within
      have placed : ((n.closeTo level).append [.leaf number s]).level = level := by
        rw [Nesting.level_append, closed]
      obtain ⟨m, deep, same, run⟩ := ihBehind wellBehind fitsBehind (number + 1) _ placed.ge
      refine ⟨m, deep, ?_, fun more => ?_⟩
      · rw [same, Nesting.closeTo_of_le placed.le, Nesting.append_append, nodesFrom, Nested.node,
          kind]
        rfl
      · rw [first, kind, sizes_line, ← Nat.add_assoc]
        exact run more
    | header h =>
      have body : nodesFrom (number + 1) inner ≠ [] := nodesFrom_ne_nil (opens.1 ⟨h, kind⟩)
      have opened : ((n.closeTo level).place number (.header h)).level = level + 1 :=
        congrArg (· + 1) closed
      obtain ⟨m, deep, same, run⟩ := ihWithin wellWithin fitsWithin (number + 1) _ opened.ge
      obtain ⟨m', deep', same', run'⟩ := ihBehind wellBehind fitsBehind
        (number + 1 + sizes inner) m (Nat.le_of_succ_le deep)
      have block : m.closeTo level =
          (n.closeTo level).append [.block number h (nodesFrom (number + 1) inner)] := by
        rw [Nesting.closeTo_of_lt deep, same, Nesting.closeTo_of_le opened.le,
          Nesting.close_place_append _ _ _ body (isBlank_nodesFrom _ _)]
      refine ⟨m', deep', ?_, fun more => ?_⟩
      · rw [same', block, Nesting.append_append, nodesFrom, Nested.node, kind, Nested.size,
          Nat.add_comm (sizes inner), ← Nat.add_assoc]
        rfl
      · rw [first, kind, run, run', sizes_line, ← Nat.add_assoc, ← Nat.add_assoc]

theorem chomp_written {unit level : Nat} {forest : List Nested} {ls : List Text}
    (written : Written unit level forest ls) (well : WellNested forest) :
    ∀ l ∈ ls, '\n' ∉ l ∧ chomp l = l := by
  induction written with
  | nil => simp
  | @cons level text i inner rest ls ms indentation within behind ihWithin ihBehind =>
    obtain _ | ⟨statement, opens, wellWithin, wellBehind⟩ := well
    refine List.forall_mem_cons.2 ⟨⟨?_, statement.chomp_eq i⟩,
      List.forall_mem_append.2 ⟨ihWithin wellWithin, ihBehind wellBehind⟩⟩
    exact fun mem => (List.mem_append.1 mem).elim (newline_not_mem_indentation indentation)
      statement.oneLine

theorem lines_written {unit level : Nat} {forest : List Nested} {ls : List Text}
    (written : Written unit level forest ls) (well : WellNested forest) :
    lines (unlines ls) = ls := by
  have plain := chomp_written written well
  rw [lines_unlines fun l mem => (plain l mem).1]
  exact (List.map_congr_left fun l mem => (plain l mem).2).trans (List.map_id ls)

/-- A script that writes each statement of a tree on a line of its own, indented by a tab or by
`unit` spaces for each level, is read as this tree, if the columns of its lines fit in machine
words: with the numbers of the lines and without a warning. -/
theorem nest_written {unit : Nat} {forest : List Nested} {ls : List Text} (wide : 1 ≤ unit)
    (written : Written unit 0 forest ls) (well : WellNested forest)
    (fits : ∀ l ∈ ls, exactColumns unit l < wordSize) :
    nest unit (unlines ls) = ⟨nodesFrom 1 forest, []⟩ := by
  obtain ⟨m, -, same, run⟩ := foldl_written wide written well fits 1 .start (Nat.zero_le _)
  have whole := run []
  rw [List.append_nil, logicalLinesFrom_nil, List.foldl_nil] at whole
  rw [nest, logicalLines, lines_written written well, whole, same,
    Nesting.closeTo_of_le (Nat.zero_le 0)]
  rfl

end SwiftDraft.Script
