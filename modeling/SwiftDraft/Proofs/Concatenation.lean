import SwiftDraft.Proofs.Continuation
import SwiftDraft.Proofs.DraftLines
import SwiftDraft.Proofs.Indented

/-!
# Scripts behind one another

A script can be cut in front of a statement that is not indented, if what stands before it is
complete: the draft of the whole is put together from the drafts of the two parts
(`ofScript_append`). Two facts carry this. Such a statement closes the same blocks as the end of a
script (`foldl_of_unindented`), and what was read before only precedes what is read behind, under
other line numbers (`foldl_behind`).
-/

namespace SwiftDraft

open Text

namespace Script

def Warning.shift (k : Nat) (w : Warning) : Warning := { w with line := w.line + k }

mutual

/-- A node of a script that starts `k` lines further down. -/
def Node.shift (k : Nat) : Node → Node
  | .leaf n s => .leaf (n + k) s
  | .block n h body => .block (n + k) h (shifted k body)

/-- The nodes of a script that starts `k` lines further down. -/
def shifted (k : Nat) : List Node → List Node
  | [] => []
  | n :: ns => n.shift k :: shifted k ns

end

def LogicalLine.shift (k : Nat) (l : LogicalLine) : LogicalLine := { l with line := l.line + k }

def OpenBlock.shift (k : Nat) (b : OpenBlock) : OpenBlock :=
  ⟨b.line + k, b.header, shifted k b.body⟩

theorem shifted_eq_map (k : Nat) (ns : List Node) : shifted k ns = ns.map (Node.shift k) := by
  induction ns with
  | nil => rfl
  | cons n ns ih => rw [shifted, ih, List.map_cons]

@[simp] theorem shifted_append (k : Nat) (ns ms : List Node) :
    shifted k (ns ++ ms) = shifted k ns ++ shifted k ms := by
  simp [shifted_eq_map]

@[simp] theorem isBlank_shift (k : Nat) (n : Node) : (n.shift k).isBlank = n.isBlank := by
  cases n with
  | leaf n s => cases s <;> rfl
  | block n h body => rfl

theorem splitTrailingBlanks_shifted (k : Nat) (ns : List Node) :
    splitTrailingBlanks (shifted k ns) =
      (shifted k (splitTrailingBlanks ns).1, shifted k (splitTrailingBlanks ns).2) := by
  have kept : Node.isBlank ∘ Node.shift k = Node.isBlank := by
    funext n
    exact isBlank_shift k n
  simp only [splitTrailingBlanks, shifted_eq_map, ← List.map_reverse, List.dropWhile_map,
    List.takeWhile_map, kept]

section

variable (unit number k : Nat)

theorem logicalLine_shift (l : Text) (further : List Text) :
    logicalLine unit (number + k) l further = (logicalLine unit number l further).shift k := by
  rcases line_cases l with blank | ⟨text, comment⟩ | ⟨quotes, first, starts⟩ | code
  · simp only [logicalLine_blank unit _ further blank, LogicalLine.shift]
  · simp only [logicalLine_comment unit _ further comment, LogicalLine.shift]
  · simp only [logicalLine_docstring unit _ further starts, LogicalLine.shift]
  · simp only [logicalLine_code unit _ further code, LogicalLine.shift]

theorem logicalLinesFrom_shift (ls : List Text) :
    logicalLinesFrom unit (number + k) ls =
      (logicalLinesFrom unit number ls).map (LogicalLine.shift k) := by
  induction number, ls using lines_induction unit with
  | nil number => simp only [logicalLinesFrom_nil, List.map_nil]
  | cons number l own behind ends ih =>
    have moved := logicalLine_shift unit number k l (own ++ behind)
    have ends' : (logicalLine unit (number + k) l (own ++ behind)).count = own.length + 1 := by
      rw [moved]
      exact ends
    have next : number + k + (own.length + 1) = number + (own.length + 1) + k := by omega
    rw [logicalLinesFrom_cons ends', logicalLinesFrom_cons ends, moved, next, ih, List.map_cons]

end

namespace Nesting

/-- What has been read of a script, with its lines `k` lines further down and behind another script
that is read already. -/
def behind (r : Reading) (k : Nat) (n : Nesting) : Nesting where
  outer := r.nodes ++ shifted k n.outer
  blocks := n.blocks.map (OpenBlock.shift k)
  warnings := r.warnings ++ n.warnings.map (Warning.shift k)

variable (r : Reading) (k : Nat) (n : Nesting)

@[simp] theorem level_behind : (n.behind r k).level = n.level := by
  simp [behind, level]

theorem behind_warn (w : Warning) : (n.warn w).behind r k = (n.behind r k).warn (w.shift k) := by
  simp [behind, warn]

theorem behind_append (nodes : List Node) :
    (n.append nodes).behind r k = (n.behind r k).append (shifted k nodes) := by
  obtain ⟨outer, blocks, warnings⟩ := n
  cases blocks with
  | nil => simp [behind, append]
  | cons b bs => simp [behind, append, OpenBlock.shift]

theorem behind_close : n.close.behind r k = (n.behind r k).close := by
  obtain ⟨outer, blocks, warnings⟩ := n
  cases blocks with
  | nil => rfl
  | cons b bs =>
    have innermost : (behind r k ⟨outer, b :: bs, warnings⟩).blocks =
        b.shift k :: bs.map (OpenBlock.shift k) := rfl
    have body : splitTrailingBlanks (b.shift k).body =
        (shifted k (splitTrailingBlanks b.body).1, shifted k (splitTrailingBlanks b.body).2) :=
      splitTrailingBlanks_shifted k b.body
    have empty : (shifted k (splitTrailingBlanks b.body).1).isEmpty =
        (splitTrailingBlanks b.body).1.isEmpty := by
      rw [shifted_eq_map, List.isEmpty_map]
    rw [close_of_blocks innermost, close_of_blocks rfl, behind_append, body]
    simp only [empty]
    -- The warning about an empty block and its node are shifted alike.
    split
    · rw [behind_warn]
      rfl
    · rfl

theorem behind_closeMany (j : Nat) : (closeMany j n).behind r k = closeMany j (n.behind r k) := by
  induction j generalizing n with
  | zero => rfl
  | succ j ih => rw [closeMany, closeMany, ih, behind_close]

theorem behind_closeTo (level : Nat) :
    (n.closeTo level).behind r k = (n.behind r k).closeTo level := by
  rw [closeTo, closeTo, behind_closeMany, level_behind]

theorem behind_place (line : Nat) (s : Statement) :
    (n.place line s).behind r k = (n.behind r k).place (line + k) s := by
  cases s with
  | simple s =>
    simp only [place, behind_append]
    rfl
  | header h => rfl

theorem behind_add (unit : Nat) (l : LogicalLine) :
    (n.add unit l).behind r k = (n.behind r k).add unit (l.shift k) := by
  obtain ⟨line, count, indent, statement⟩ := l
  cases indent with
  | none => exact behind_place r k n line statement
  | some width =>
    have misaligned (m : Nesting) :
        (m.warn (misaligned line width unit)).behind r k =
          (m.behind r k).warn (Script.misaligned (line + k) width unit) := behind_warn r k m _
    have unexpected (m : Nesting) :
        (m.warn (unexpectedIndent line)).behind r k =
          (m.behind r k).warn (unexpectedIndent (line + k)) := behind_warn r k m _
    simp only [add, LogicalLine.shift, behind_place]
    by_cases aligned : width % unit = 0
    · simp only [if_pos aligned]
      rw [← behind_closeTo, level_behind]
      split
      · rw [unexpected]
      · rfl
    · simp only [if_neg aligned]
      rw [← misaligned, ← behind_closeTo, level_behind]
      split
      · rw [unexpected]
      · rfl

/-- Reading goes on in the same way behind whatever was read before. -/
theorem foldl_behind (unit : Nat) (items : List LogicalLine) :
    (items.foldl (add unit) n).behind r k =
      (items.map (LogicalLine.shift k)).foldl (add unit) (n.behind r k) := by
  induction items generalizing n with
  | nil => rfl
  | cons l items ih => rw [List.foldl_cons, ih, behind_add, List.map_cons, List.foldl_cons]

end Nesting

/-- The lines of a logical line, the first of which is `l`, leave nothing open: a statement of code
is over, and a docstring is closed on one of them. -/
structure Finished (l : Text) (further : List Text) : Prop where
  stops : IsCode l → ¬ (gather (l :: further)).GoesOn
  closed : ∀ quotes first, docstringStart? (trim l) = some (quotes, first) →
    (cutAt? quotes first).isSome ∨ ∃ m ∈ further, (cutAt? quotes (trim m)).isSome

/-- A logical line that is complete in a script. -/
def LogicalLine.Complete (item : LogicalLine) (source : Text) : Prop :=
  ∃ l further, item.own source = l :: further ∧ Finished l further

theorem docstringRest_append {quotes : Text} {own : List Text}
    (closed : ∃ m ∈ own, (cutAt? quotes (trim m)).isSome) (more : List Text) :
    docstringRest quotes (own ++ more) = docstringRest quotes own := by
  induction own with
  | nil =>
    obtain ⟨m, mem, -⟩ := closed
    cases mem
  | cons l own ih =>
    rw [List.cons_append, docstringRest, docstringRest]
    cases cut : cutAt? quotes (trim l) with
    | some parts => rfl
    | none =>
      have later : ∃ m ∈ own, (cutAt? quotes (trim m)).isSome := by
        obtain ⟨m, mem, found⟩ := closed
        rcases List.mem_cons.1 mem with rfl | inOwn
        · rw [cut] at found
          cases found
        · exact ⟨m, inOwn, found⟩
      simp only [ih later]

theorem docstring_append {quotes first : Text} {own : List Text}
    (closed : (cutAt? quotes first).isSome ∨ ∃ m ∈ own, (cutAt? quotes (trim m)).isSome)
    (more : List Text) :
    docstring quotes first (own ++ more) = docstring quotes first own := by
  unfold docstring
  cases cut : cutAt? quotes first with
  | some parts => rfl
  | none =>
    have later : ∃ m ∈ own, (cutAt? quotes (trim m)).isSome := by
      apply closed.resolve_left
      simp [cut]
    simp only [docstringRest_append later]

theorem continued_append {g : Gathered} {own : List Text}
    (all : (continued g.text g.depth own).2 = own.length)
    (stopped : ¬ (own.foldl Gathered.absorb g).GoesOn) (more : List Text) :
    continued g.text g.depth (own ++ more) = continued g.text g.depth own := by
  obtain ⟨taken, rest, g', rfl, absorbs, stops⟩ := exists_absorbs g own
  have read := continued_of_absorbs absorbs stops
  have none_left : rest = [] := by
    rw [read, List.length_append] at all
    apply List.eq_nil_of_length_eq_zero
    omega
  subst none_left
  have reached := absorbs.eq_foldl
  rw [List.append_nil] at stopped read ⊢
  rw [← reached] at stopped
  rw [read, continued_of_absorbs absorbs (Or.inr stopped)]

/-- A finished logical line takes in none of the lines that are put behind it. -/
theorem Finished.logicalLine_append {unit number : Nat} {l : Text} {own : List Text}
    (finished : Finished l own) (count : (logicalLine unit number l own).count = own.length + 1)
    (more : List Text) :
    logicalLine unit number l (own ++ more) = logicalLine unit number l own := by
  rcases line_cases l with blank | ⟨text, comment⟩ | ⟨quotes, first, starts⟩ | code
  · rw [logicalLine_blank unit number _ blank, logicalLine_blank unit number _ blank]
  · rw [logicalLine_comment unit number _ comment, logicalLine_comment unit number _ comment]
  · have same := docstring_append (finished.closed quotes first starts) more
    rw [logicalLine_docstring unit number _ starts, logicalLine_docstring unit number _ starts,
      same]
  · rw [logicalLine_code unit number _ code] at count
    have all : (continued (trim l) (bracketDelta (trim l)) own).2 = own.length := by
      simpa using count
    have same := continued_append (g := .start l) all (finished.stops code) more
    simp only [Gathered.start] at same
    rw [logicalLine_code unit number _ code, logicalLine_code unit number _ code, same]

theorem logicalLinesFrom_last {unit number : Nat} {l : Text} {own : List Text}
    (count : (logicalLine unit number l own).count = own.length + 1) :
    logicalLinesFrom unit number (l :: own) = [logicalLine unit number l own] := by
  have alone : (logicalLine unit number l (own ++ [])).count = own.length + 1 := by
    rw [List.append_nil]
    exact count
  have read := logicalLinesFrom_cons alone
  rwa [List.append_nil, logicalLinesFrom_nil] at read

/-- Where the last logical line of a script stands: no line is behind its own. -/
theorem exists_last {unit : Nat} {a : Text} {item : LogicalLine}
    (last : item ∈ (logicalLines unit a).getLast?) :
    ∃ front l own before, lines a = front ++ l :: own ∧
      item = logicalLine unit (1 + front.length) l own ∧ item.count = own.length + 1 ∧
      item.own a = l :: own ∧
      ∀ more, logicalLinesFrom unit 1 (front ++ more) =
        before ++ logicalLinesFrom unit (1 + front.length) more := by
  obtain ⟨front, l, own, behind, before, whole, here, count, same⟩ :=
    split_of_mem (List.mem_of_getLast? last)
  have at_line : item.line = 1 + front.length := by rw [here, line_logicalLine]
  have ends : (logicalLine unit (1 + front.length) l (own ++ behind)).count = own.length + 1 := by
    rw [← here]
    exact count
  have none_behind : behind = [] := by
    by_contra filled
    have split : logicalLines unit a = (before ++ [item]) ++
        logicalLinesFrom unit (1 + front.length + (own.length + 1)) behind := by
      rw [logicalLines, whole, same, logicalLinesFrom_cons ends, ← here]
      simp
    have tiles := tiles_logicalLinesFrom unit (1 + front.length + (own.length + 1)) behind
    have some_items : logicalLinesFrom unit (1 + front.length + (own.length + 1)) behind ≠ [] := by
      obtain ⟨b, bs, rfl⟩ := List.exists_cons_of_ne_nil filled
      rw [logicalLinesFrom]
      exact List.cons_ne_nil _ _
    -- The last logical line would start behind itself.
    rw [split, List.getLast?_append_of_ne_nil _ some_items] at last
    have low := (tiles.within (List.mem_of_getLast? last)).1
    omega
  subst none_behind
  rw [List.append_nil] at whole here
  refine ⟨front, l, own, before, whole, here, count, ?_, same⟩
  rw [LogicalLine.own, whole, at_line, Nat.add_sub_cancel_left, List.drop_left, count]
  exact List.take_of_length_le (Nat.le_refl _)

/-- Behind a script whose last logical line is complete, other lines are read by themselves. -/
theorem logicalLinesFrom_append {unit : Nat} {a : Text}
    (complete : ∀ item ∈ (logicalLines unit a).getLast?, item.Complete a) (more : List Text) :
    logicalLinesFrom unit 1 (lines a ++ more) =
      logicalLines unit a ++ logicalLinesFrom unit (1 + (lines a).length) more := by
  cases last : (logicalLines unit a).getLast? with
  | none =>
    have nothing : logicalLines unit a = [] := List.getLast?_eq_none_iff.1 last
    have empty : lines a = [] := by
      have tiles := tiles_logicalLinesFrom unit 1 (lines a)
      change Tiles 1 (logicalLines unit a) _ at tiles
      rw [nothing] at tiles
      generalize stop : 1 + (lines a).length = n at tiles
      cases tiles
      apply List.eq_nil_of_length_eq_zero
      omega
    rw [nothing, empty]
    rfl
  | some item =>
    obtain ⟨front, l, own, before, whole, here, count, owned, same⟩ := exists_last last
    obtain ⟨l', own', owned', finished⟩ := complete item last
    rw [owned] at owned'
    obtain ⟨rfl, rfl⟩ := List.cons.inj owned'
    have alone : (logicalLine unit (1 + front.length) l own).count = own.length + 1 := by
      rw [← here]
      exact count
    have kept := finished.logicalLine_append alone more
    have all : logicalLines unit a = before ++ [item] := by
      rw [logicalLines, whole, same, logicalLinesFrom_last alone, ← here]
    have size : 1 + front.length + (own.length + 1) = 1 + (lines a).length := by
      rw [whole, List.length_append, List.length_cons]
      omega
    rw [whole, List.append_assoc, same, List.cons_append,
      logicalLinesFrom_cons (by rw [kept]; exact alone), kept, ← here, size, all, whole]
    simp

/-- A line that starts a statement at the outermost level: not indented, neither blank nor a
comment. -/
def StartsStatement (l : Text) : Prop := ∃ c r, l = c :: r ∧ isBlank c = false ∧ c ≠ '#'

theorem StartsStatement.indent_eq {unit number : Nat} {l : Text} (starts : StartsStatement l)
    (further : List Text) : (logicalLine unit number l further).indent = some 0 := by
  obtain ⟨c, r, rfl, visible, noComment⟩ := starts
  have width : columns unit (c :: r) = 0 := by
    simp [columns, exactColumns, visible]
  have shown : ∃ t, trim (c :: r) = c :: t := by
    rw [trim, trimStart_cons_of_not_blank visible]
    exact trimEnd_cons_of_not_blank visible r
  obtain ⟨t, shown⟩ := shown
  rcases line_cases (c :: r) with blank | ⟨text, comment⟩ | ⟨quotes, first, docstring⟩ | code
  · rw [shown] at blank
    cases blank
  · rw [shown] at comment
    exact absurd (List.cons.inj comment).1 noComment
  · rw [logicalLine_docstring unit number further docstring, width]
  · rw [logicalLine_code unit number further code, width]

/-- A statement that is not indented closes all open blocks, as the end of a script does. -/
theorem foldl_of_unindented {unit : Nat} {item : LogicalLine} (wide : 1 ≤ unit)
    (unindented : item.indent = some 0) (items : List LogicalLine) (n : Nesting) :
    (item :: items).foldl (Nesting.add unit) n =
      (item :: items).foldl (Nesting.add unit) (n.closeTo 0) := by
  obtain ⟨line, count, indent, statement⟩ := item
  subst unindented
  have closes (m : Nesting) : m.add unit ⟨line, count, some 0, statement⟩ =
      (m.closeTo 0).place line statement := by
    have aligned : m.add unit ⟨line, count, some (0 * unit), statement⟩ =
        (m.closeTo 0).place line statement := Nesting.add_aligned wide (Nat.zero_le _)
    rwa [Nat.zero_mul] at aligned
  have closed : (n.closeTo 0).closeTo 0 = n.closeTo 0 := by
    apply Nesting.closeTo_of_le
    rw [Nesting.level_closeTo]
    omega
  rw [List.foldl_cons, List.foldl_cons, closes, closes, closed]

theorem Nesting.eq_of_closed {n : Nesting} (closed : n.level = 0) :
    n = ⟨n.outer, [], n.warnings⟩ := by
  obtain ⟨outer, blocks, warnings⟩ := n
  have none_open : blocks = [] := List.length_eq_zero_iff.1 closed
  rw [none_open]

/-- The tree of a script behind another one. -/
theorem nest_append {unit : Nat} {a b : Text} (wide : 1 ≤ unit) (whole : EndsLine a)
    (complete : ∀ item ∈ (logicalLines unit a).getLast?, item.Complete a)
    (starts : ∃ l ∈ (lines b).head?, StartsStatement l) :
    nest unit (a ++ b) =
      ⟨(nest unit a).nodes ++ shifted (lines a).length (nest unit b).nodes,
        (nest unit a).warnings ++ (nest unit b).warnings.map (Warning.shift (lines a).length)⟩ := by
  obtain ⟨l, first, starts⟩ := starts
  obtain ⟨ls, split⟩ := List.head?_eq_some_iff.1 first
  have items : logicalLines unit (a ++ b) = logicalLines unit a ++
      (logicalLines unit b).map (LogicalLine.shift (lines a).length) := by
    rw [logicalLines, lines_append whole, logicalLinesFrom_append complete,
      logicalLinesFrom_shift]
    rfl
  obtain ⟨item, rest, shape, unindented⟩ : ∃ item rest,
      (logicalLines unit b).map (LogicalLine.shift (lines a).length) = item :: rest ∧
        item.indent = some 0 := by
    rw [logicalLines, split, logicalLinesFrom]
    exact ⟨_, _, rfl, starts.indent_eq ls⟩
  have closed : ((logicalLines unit a).foldl (Nesting.add unit) .start).closeTo 0 =
      Nesting.start.behind (nest unit a) (lines a).length := by
    rw [Nesting.eq_of_closed ((Nesting.level_closeTo _ 0).trans (Nat.min_zero _)), nest]
    simp [Nesting.behind, Nesting.start, shifted]
  have read : ((logicalLines unit (a ++ b)).foldl (Nesting.add unit) .start).closeTo 0 =
      (((logicalLines unit b).foldl (Nesting.add unit) .start).closeTo 0).behind
        (nest unit a) (lines a).length := by
    rw [items, List.foldl_append, shape, foldl_of_unindented wide unindented, closed, ← shape,
      ← Nesting.foldl_behind, Nesting.behind_closeTo]
  rw [nest, read]
  rfl

end Script

namespace Draft

open Script

/-- Line numbers do not show in a draft. -/
theorem blockLines_shifted (depth k : Nat) (ns : List Node) :
    blockLines depth (shifted k ns) = blockLines depth ns := by
  induction ns using forest_induction generalizing depth with
  | nil => rfl
  | leaf number s ns ih =>
    simp only [shifted, Node.shift, blockLines, nodeLines, ih]
  | block number h body ns ihBody ih =>
    simp only [shifted, Node.shift, blockLines, nodeLines, ihBody, ih]

theorem blockLines_append (depth : Nat) (ns ms : List Node) :
    blockLines depth (ns ++ ms) = blockLines depth ns ++ blockLines depth ms := by
  induction ns with
  | nil => rfl
  | cons n ns ih => rw [List.cons_append, blockLines, blockLines, ih, List.append_assoc]

/-- The statements of a script's draft, without the header in front of them. -/
def body (unit : Nat) (source : Text) : Text :=
  render (effectiveUnit unit) (nest (effectiveUnit unit) source).nodes

/-- A script in front of another one that starts with a statement at the outermost level. If the
last logical line of the first is complete, both are read, warned about and drafted by themselves:
the tree and the warnings of the second follow with its lines numbered behind those of the first,
and so does its draft, without its header. -/
theorem ofScript_append {unit : Nat} {a b : Text} (whole : EndsLine a)
    (complete : ∀ item ∈ (logicalLines (effectiveUnit unit) a).getLast?, item.Complete a)
    (starts : ∃ l ∈ (lines b).head?, StartsStatement l) :
    (nest (effectiveUnit unit) (a ++ b)).nodes =
      (nest (effectiveUnit unit) a).nodes ++
        shifted (lines a).length (nest (effectiveUnit unit) b).nodes ∧
    (nest (effectiveUnit unit) (a ++ b)).warnings =
      (nest (effectiveUnit unit) a).warnings ++
        (nest (effectiveUnit unit) b).warnings.map (Warning.shift (lines a).length) ∧
    ∀ generatedAt, ∃ bodyA bodyB,
      (ofScript unit generatedAt a).text = header generatedAt ++ bodyA ∧
      (ofScript unit generatedAt b).text = header generatedAt ++ bodyB ∧
      ofScript unit generatedAt (a ++ b) = ⟨header generatedAt ++ (bodyA ++ bodyB),
        (ofScript unit generatedAt a).warnings ++
          (ofScript unit generatedAt b).warnings.map (Warning.shift (lines a).length)⟩ := by
  have reading := nest_append (Nat.le_max_right unit 1) whole complete starts
  refine ⟨congrArg Reading.nodes reading, congrArg Reading.warnings reading, ?_⟩
  intro generatedAt
  have drafted (source : Text) : ofScript unit generatedAt source =
      ⟨header generatedAt ++ render (effectiveUnit unit) (nest (effectiveUnit unit) source).nodes,
        (nest (effectiveUnit unit) source).warnings⟩ := rfl
  refine ⟨_, _, congrArg Draft.text (drafted a), congrArg Draft.text (drafted b), ?_⟩
  unfold effectiveUnit at drafted ⊢
  rw [drafted, drafted a, drafted b, reading]
  simp only [render, blockLines_append, blockLines_shifted, List.flatMap_append]

/-- An empty class, and one that is still open at its last statement. -/
def twoClasses : Text := "class A:\nclass B:\n\tx = (1,\n2)\n".toList

/-- A statement, and one that is indented without a block. -/
def looseStatement : Text := "y = 1\n\tz = 2\n".toList

theorem logicalLines_twoClasses : logicalLines 4 twoClasses =
    [⟨1, 1, some 0, .header (.classType "A".toList)⟩,
      ⟨2, 1, some 0, .header (.classType "B".toList)⟩,
      ⟨3, 2, some 4, .simple (.assign "x".toList none "(1, 2)".toList)⟩] := by
  have split : lines twoClasses =
      ["class A:".toList, "class B:".toList, "\tx = (1,".toList, "2)".toList] := by decide
  rw [logicalLines, split, logicalLinesFrom_single (by decide),
    logicalLinesFrom_single (by decide), logicalLinesFrom_last (by decide)]
  decide

theorem logicalLines_looseStatement : logicalLines 4 looseStatement =
    [⟨1, 1, some 0, .simple (.assign "y".toList none "1".toList)⟩,
      ⟨2, 1, some 4, .simple (.assign "z".toList none "2".toList)⟩] := by
  have split : lines looseStatement = ["y = 1".toList, "\tz = 2".toList] := by decide
  rw [logicalLines, split, logicalLinesFrom_single (by decide),
    logicalLinesFrom_single (by decide), logicalLinesFrom_nil]
  decide

/-- The warning about the empty class comes before the one about the indented statement, which
stands on line 6 of the whole. -/
theorem ofScript_append_classes :
    (nest 4 (twoClasses ++ looseStatement)).nodes =
      [.block 1 (.classType "A".toList) [],
        .block 2 (.classType "B".toList) [.leaf 3 (.assign "x".toList none "(1, 2)".toList)],
        .leaf 5 (.assign "y".toList none "1".toList),
        .leaf 6 (.assign "z".toList none "2".toList)] ∧
    (nest 4 (twoClasses ++ looseStatement)).warnings = [emptyBlock 1, unexpectedIndent 6] := by
  have complete : ∀ item ∈ (logicalLines 4 twoClasses).getLast?, item.Complete twoClasses := by
    rw [logicalLines_twoClasses]
    rintro item ⟨⟩
    refine ⟨"\tx = (1,".toList, ["2)".toList], by decide, fun _ => by decide, ?_⟩
    intro quotes first starts
    cases starts
  have starts : ∃ l ∈ (lines looseStatement).head?, StartsStatement l :=
    ⟨"y = 1".toList, by decide, 'y', " = 1".toList, by decide, by decide, by decide⟩
  have whole : EndsLine twoClasses := Or.inr (by decide)
  obtain ⟨nodes, warnings, -⟩ := @ofScript_append 4 _ _ whole complete starts
  change (nest 4 _).nodes = _ at nodes
  change (nest 4 _).warnings = _ at warnings
  rw [nodes, warnings]
  simp only [nest, effectiveUnit]
  rw [show max 4 1 = 4 from rfl, logicalLines_twoClasses, logicalLines_looseStatement]
  exact ⟨rfl, rfl⟩

end Draft

end SwiftDraft
