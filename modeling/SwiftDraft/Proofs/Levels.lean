import SwiftDraft.Proofs.SilentLines

/-!
# Levels

At which depth the statements of a script come to stand, whatever their indentation: at the level of
the indentation, or less deep with a warning (`statements_settled`). The statements that are read
(`Nesting.spoken`), the blocks that are closed (`Nesting.closed`) and the warnings are followed
together, one operation after the other.
-/

namespace SwiftDraft

open Text

namespace Script

/-- A statement where it stands in a tree: inside of how many blocks, and on which line of the
script. -/
structure Standing where
  depth : Nat
  line : Nat
  statement : Statement
  deriving DecidableEq, Repr

mutual

def Node.standings (depth : Nat) : Node → List Standing
  | .leaf n s => [⟨depth, n, .simple s⟩]
  | .block n h body => ⟨depth, n, .header h⟩ :: standings (depth + 1) body

/-- All statements of nodes at a depth, in the order of the text. -/
def standings (depth : Nat) : List Node → List Standing
  | [] => []
  | n :: ns => n.standings depth ++ standings depth ns

end

/-- The statements that are neither blank lines nor comments. -/
def spoken (depth : Nat) (ns : List Node) : List Standing :=
  (standings depth ns).filter (! ·.statement.isSilent)

mutual

def Node.blocksIn : Node → List (Nat × List Node)
  | .leaf _ _ => []
  | .block n _ body => (n, body) :: blocksIn body

/-- The blocks of a tree, each with its line and its body. -/
def blocksIn : List Node → List (Nat × List Node)
  | [] => []
  | n :: ns => n.blocksIn ++ blocksIn ns

end

section

variable (depth number : Nat) (s : Simple) (h : Header) (body ns ms : List Node)

@[simp] theorem spoken_nil : spoken depth [] = [] := rfl

theorem spoken_leaf : spoken depth (.leaf number s :: ns) =
    (if (Statement.simple s).isSilent then [] else [⟨depth, number, .simple s⟩]) ++
      spoken depth ns := by
  unfold spoken
  rw [standings, Node.standings, List.filter_append]
  cases silent : (Statement.simple s).isSilent <;> simp [silent]

theorem spoken_block : spoken depth (.block number h body :: ns) =
    ⟨depth, number, .header h⟩ :: (spoken (depth + 1) body ++ spoken depth ns) := by
  unfold spoken
  rw [standings, Node.standings, List.cons_append, List.filter_cons_of_pos rfl, List.filter_append]

@[simp] theorem spoken_append : spoken depth (ns ++ ms) = spoken depth ns ++ spoken depth ms := by
  induction ns with
  | nil => rfl
  | cons n ns ih =>
    unfold spoken at ih ⊢
    rw [List.cons_append, standings, standings, List.filter_append, List.filter_append, ih,
      List.append_assoc]

theorem blocksIn_block : blocksIn (.block number h body :: ns) =
    (number, body) :: (blocksIn body ++ blocksIn ns) := rfl

@[simp] theorem blocksIn_append : blocksIn (ns ++ ms) = blocksIn ns ++ blocksIn ms := by
  induction ns with
  | nil => rfl
  | cons n ns ih => rw [List.cons_append, blocksIn, blocksIn, ih, List.append_assoc]

end

theorem of_blanks {ns : List Node} (blanks : ∀ n ∈ ns, n.isBlank) (depth : Nat) :
    spoken depth ns = [] ∧ blocksIn ns = [] := by
  induction ns with
  | nil => exact ⟨rfl, rfl⟩
  | cons n ns ih =>
    obtain ⟨first, rest⟩ := List.forall_mem_cons.1 blanks
    obtain ⟨number, rfl⟩ := n.eq_of_isBlank first
    exact ih rest

theorem splitTrailingBlanks_spoken (ns : List Node) (depth : Nat) :
    spoken depth (splitTrailingBlanks ns).1 = spoken depth ns ∧
      blocksIn (splitTrailingBlanks ns).1 = blocksIn ns ∧
      spoken depth (splitTrailingBlanks ns).2 = [] ∧ blocksIn (splitTrailingBlanks ns).2 = [] := by
  obtain ⟨silent, flat⟩ := of_blanks isBlank_of_mem_trailing depth
  have whole := append_splitTrailingBlanks ns
  refine ⟨?_, ?_, silent, flat⟩
  · conv => rhs; rw [← whole, spoken_append, silent, List.append_nil]
  · conv => rhs; rw [← whole, blocksIn_append, flat, List.append_nil]

theorem last_splitTrailingBlanks {ns : List Node} :
    ∀ n ∈ (splitTrailingBlanks ns).1.getLast?, n.isBlank = false := by
  intro n last
  rw [splitTrailingBlanks, List.getLast?_reverse] at last
  have first := List.head?_dropWhile_not Node.isBlank ns.reverse
  rw [Option.mem_def.1 last] at first
  exact first

/-- The statements in the open blocks, the outermost first. -/
def openSpoken : List OpenBlock → List Standing
  | [] => []
  | b :: bs => openSpoken bs ++ ⟨bs.length, b.line, .header b.header⟩ ::
      spoken (bs.length + 1) b.body

namespace Nesting

/-- The statements read so far. -/
def spoken (n : Nesting) : List Standing := Script.spoken 0 n.outer ++ openSpoken n.blocks

/-- The blocks that were closed so far. -/
def closed (n : Nesting) : List (Nat × List Node) :=
  blocksIn n.outer ++ n.blocks.flatMap fun b => blocksIn b.body

variable (n : Nesting)

theorem spoken_append (nodes : List Node) :
    (n.append nodes).spoken = n.spoken ++ Script.spoken n.level nodes := by
  obtain ⟨outer, blocks, warnings⟩ := n
  cases blocks with
  | nil => simp [append, spoken, openSpoken, level]
  | cons b bs => simp [append, spoken, openSpoken, level]

theorem closed_append (nodes : List Node) :
    (n.append nodes).closed.Perm (blocksIn nodes ++ n.closed) := by
  obtain ⟨outer, blocks, warnings⟩ := n
  cases blocks with
  | nil => simpa [append, closed] using List.perm_append_comm
  | cons b bs =>
    simp only [append, closed, List.flatMap_cons, blocksIn_append, List.append_assoc]
    -- The new nodes come behind the body of the innermost block.
    have inner : (blocksIn outer ++ (blocksIn b.body ++ blocksIn nodes)).Perm
        (blocksIn outer ++ (blocksIn nodes ++ blocksIn b.body)) :=
      List.perm_append_comm.append_left _
    have moved : (blocksIn outer ++ blocksIn nodes ++ blocksIn b.body).Perm
        (blocksIn nodes ++ blocksIn outer ++ blocksIn b.body) :=
      List.perm_append_comm.append_right _
    simp only [List.append_assoc] at moved
    have front := (inner.trans moved).append_right (bs.flatMap fun b => blocksIn b.body)
    simpa only [List.append_assoc] using front

theorem warnings_append (nodes : List Node) : (n.append nodes).warnings = n.warnings := by
  unfold append
  split <;> rfl

theorem spoken_place (line : Nat) (s : Statement) :
    (n.place line s).spoken =
      n.spoken ++ if s.isSilent then [] else [⟨n.level, line, s⟩] := by
  cases s with
  | simple s =>
    rw [place, spoken_append, spoken_leaf, spoken_nil, List.append_nil]
  | header h =>
    simp [place, spoken, openSpoken, level, Statement.isSilent]

theorem warnings_place (line : Nat) (s : Statement) : (n.place line s).warnings = n.warnings := by
  cases s with
  | simple s => exact warnings_append n _
  | header h => rfl

theorem closed_place (line : Nat) (s : Statement) : (n.place line s).closed.Perm n.closed := by
  cases s with
  | simple s => exact closed_append n [.leaf line s]
  | header h => exact .of_eq (by simp [place, closed, blocksIn])

end Nesting

/-- The warnings about the blocks among these that have no body. -/
def emptyBlocks (blocks : List (Nat × List Node)) : List Warning :=
  (blocks.filter (·.2.isEmpty)).map fun b => emptyBlock b.1

/-- No body ends with a blank line. -/
def Tidy (blocks : List (Nat × List Node)) : Prop :=
  ∀ b ∈ blocks, ∀ last ∈ b.2.getLast?, last.isBlank = false

theorem emptyBlocks_append (bs cs : List (Nat × List Node)) :
    emptyBlocks (bs ++ cs) = emptyBlocks bs ++ emptyBlocks cs := by
  rw [emptyBlocks, List.filter_append, List.map_append]
  rfl

theorem emptyBlocks_perm {bs cs : List (Nat × List Node)} (same : bs.Perm cs) :
    (emptyBlocks bs).Perm (emptyBlocks cs) := (same.filter _).map _

/-- Between two states some blocks were closed, and nothing else happened. -/
structure Closing (n m : Nesting) (blocks : List (Nat × List Node)) : Prop where
  spoken : m.spoken = n.spoken
  closed : m.closed.Perm (blocks ++ n.closed)
  warnings : m.warnings = n.warnings ++ emptyBlocks blocks
  tidy : Tidy blocks

namespace Closing

theorem refl (n : Nesting) : Closing n n [] :=
  ⟨rfl, .refl _, (List.append_nil _).symm, nofun⟩

theorem trans {n m k : Nesting} {bs cs : List (Nat × List Node)} (first : Closing n m bs)
    (second : Closing m k cs) : Closing n k (bs ++ cs) where
  spoken := second.spoken.trans first.spoken
  closed := by
    refine second.closed.trans ((first.closed.append_left cs).trans ?_)
    rw [← List.append_assoc]
    exact List.perm_append_comm.append_right _
  warnings := by
    rw [second.warnings, first.warnings, emptyBlocks_append, List.append_assoc]
  tidy := List.forall_mem_append.2 ⟨first.tidy, second.tidy⟩

theorem close (n : Nesting) : ∃ blocks, Closing n n.close blocks := by
  cases innermost : n.blocks with
  | nil =>
    refine ⟨[], ?_⟩
    rw [show n.close = n by rw [Nesting.close, innermost]]
    exact refl n
  | cons b bs =>
    obtain ⟨body, inner, -, flat⟩ := splitTrailingBlanks_spoken b.body (bs.length + 1)
    obtain ⟨-, -, silent, -⟩ := splitTrailingBlanks_spoken b.body bs.length
    obtain ⟨rest, made⟩ : ∃ rest, (if (splitTrailingBlanks b.body).1.isEmpty then
        Nesting.warn { n with blocks := bs } (emptyBlock b.line) else { n with blocks := bs }) =
          rest := ⟨_, rfl⟩
    have outside : rest.spoken = Script.spoken 0 n.outer ++ openSpoken bs ∧
        rest.level = bs.length ∧
        rest.closed = blocksIn n.outer ++ bs.flatMap fun b => blocksIn b.body := by
      rw [← made]
      split <;> exact ⟨rfl, rfl, rfl⟩
    have closes := Nesting.close_of_blocks innermost
    rw [made] at closes
    rw [closes]
    refine ⟨[(b.line, (splitTrailingBlanks b.body).1)], ?_, ?_, ?_, ?_⟩
    · rw [Nesting.spoken_append, outside.1, outside.2.1, Nesting.spoken, innermost, spoken_block,
        body, silent, List.append_nil, List.append_assoc]
      rfl
    · have block : blocksIn (.block b.line b.header (splitTrailingBlanks b.body).1 ::
          (splitTrailingBlanks b.body).2) =
            (b.line, (splitTrailingBlanks b.body).1) :: blocksIn b.body := by
        rw [blocksIn_block, inner, flat, List.append_nil]
      have around := Nesting.closed_append rest
        (.block b.line b.header (splitTrailingBlanks b.body).1 :: (splitTrailingBlanks b.body).2)
      rw [block, outside.2.2] at around
      have swap : (blocksIn b.body ++ blocksIn n.outer ++ bs.flatMap fun b => blocksIn b.body).Perm
          (blocksIn n.outer ++ blocksIn b.body ++ bs.flatMap fun b => blocksIn b.body) :=
        List.perm_append_comm.append_right _
      rw [List.append_assoc, List.append_assoc] at swap
      have opened : n.closed = blocksIn n.outer ++ (blocksIn b.body ++
          bs.flatMap fun b => blocksIn b.body) := by
        rw [Nesting.closed, innermost, List.flatMap_cons]
      rw [opened]
      exact around.trans (swap.cons _)
    · rw [Nesting.warnings_append, ← made]
      cases empty : (splitTrailingBlanks b.body).1.isEmpty <;> simp [emptyBlocks, Nesting.warn, empty]
    · exact List.forall_mem_singleton.2 last_splitTrailingBlanks

theorem closeMany (k : Nat) (n : Nesting) : ∃ blocks, Closing n (n.closeMany k) blocks := by
  induction k generalizing n with
  | zero => exact ⟨[], refl n⟩
  | succ k ih =>
    obtain ⟨bs, first⟩ := close n
    obtain ⟨cs, further⟩ := ih n.close
    exact ⟨bs ++ cs, first.trans further⟩

end Closing

/-- The warnings that the indentation of a statement gives rise to. -/
def indentWarnings (unit width : Nat) (p : Standing) : List Warning :=
  (if width % unit = 0 then [] else [misaligned p.line width unit]) ++
    if p.depth < width / unit then [unexpectedIndent p.line] else []

/-- What holds of all that was read, where `width` is the indentation of each line: every statement
stands at the level of its indentation or less deep, no closed block ends with a blank line, and
there is a warning for each statement and each block that deserves one, and no other. -/
structure Settled (unit : Nat) (width : Nat → Nat) (n : Nesting) : Prop where
  shallow : ∀ p ∈ n.spoken, p.depth ≤ width p.line / unit
  tidy : Tidy n.closed
  warned : n.warnings.Perm
    ((n.spoken.flatMap fun p => indentWarnings unit (width p.line) p) ++ emptyBlocks n.closed)

namespace Nesting

/-- A statement is placed where its indentation allows, and no deeper than the open blocks reach. -/
theorem add_of_indent (unit : Nat) (n : Nesting) (line count width : Nat) {s : Statement}
    (loud : s.isSilent = false) :
    let p : Standing := ⟨min n.level (width / unit), line, s⟩
    let m := n.add unit ⟨line, count, some width, s⟩
    ∃ blocks, Tidy blocks ∧ m.spoken = n.spoken ++ [p] ∧ m.closed.Perm (blocks ++ n.closed) ∧
      m.warnings.Perm (n.warnings ++ indentWarnings unit width p ++ emptyBlocks blocks) := by
  intro p m
  obtain ⟨n₁, first⟩ : ∃ n₁, (if width % unit = 0 then n else n.warn (misaligned line width unit)) =
    n₁ := ⟨_, rfl⟩
  obtain ⟨n₂, second⟩ : ∃ n₂, n₁.closeTo (width / unit) = n₂ := ⟨_, rfl⟩
  obtain ⟨n₃, third⟩ : ∃ n₃, (if n₂.level < width / unit then n₂.warn (unexpectedIndent line)
    else n₂) = n₃ := ⟨_, rfl⟩
  have placed : m = n₃.place line s := by
    rw [← third, ← second, ← first]
    rfl
  have before : n₁.spoken = n.spoken ∧ n₁.closed = n.closed ∧ n₁.level = n.level ∧
      n₁.warnings = n.warnings ++ if width % unit = 0 then [] else [misaligned line width unit] := by
    rw [← first]
    split
    · exact ⟨rfl, rfl, rfl, (List.append_nil _).symm⟩
    · exact ⟨rfl, rfl, rfl, rfl⟩
  obtain ⟨blocks, closing⟩ := Closing.closeMany (n₁.level - width / unit) n₁
  change Closing n₁ (n₁.closeTo (width / unit)) blocks at closing
  rw [second] at closing
  have depth : n₂.level = p.depth := by
    rw [← second, level_closeTo, before.2.2.1]
  have behind : n₃.spoken = n₂.spoken ∧ n₃.closed = n₂.closed ∧ n₃.level = n₂.level ∧
      n₃.warnings = n₂.warnings ++ if p.depth < width / unit then [unexpectedIndent line] else [] := by
    rw [← third, depth]
    split
    · exact ⟨rfl, rfl, depth, rfl⟩
    · exact ⟨rfl, rfl, depth, (List.append_nil _).symm⟩
  refine ⟨blocks, closing.tidy, ?_, ?_, ?_⟩
  · rw [placed, spoken_place, behind.1, behind.2.2.1, depth, closing.spoken, before.1, loud]
    rfl
  · rw [placed, ← before.2.1]
    exact (closed_place n₃ line s).trans (.trans (.of_eq behind.2.1) closing.closed)
  · rw [placed, warnings_place, behind.2.2.2, closing.warnings, before.2.2.2, List.perm_iff_count]
    intro w
    have here : p.line = line := rfl
    simp only [indentWarnings, here, List.count_append]
    omega

end Nesting

/-- The indentation that a logical line is read with: silent ones have none. -/
def LogicalLine.HasWidth (width : Nat → Nat) (l : LogicalLine) : Prop :=
  l.indent = if l.statement.isSilent then none else some (width l.line)

namespace Settled

variable {unit : Nat} {width : Nat → Nat} {n m : Nesting}

theorem start : Settled unit width .start := ⟨nofun, nofun, .refl _⟩

/-- Some statements more, at depths that their indentation allows, and some closed blocks more. -/
theorem step {blocks : List (Nat × List Node)} {ps : List Standing} (settled : Settled unit width n)
    (spoken : m.spoken = n.spoken ++ ps) (shallow : ∀ p ∈ ps, p.depth ≤ width p.line / unit)
    (closed : m.closed.Perm (blocks ++ n.closed)) (tidy : Tidy blocks)
    (warnings : m.warnings.Perm (n.warnings ++
      (ps.flatMap fun p => indentWarnings unit (width p.line) p) ++ emptyBlocks blocks)) :
    Settled unit width m where
  shallow := spoken ▸ List.forall_mem_append.2 ⟨settled.shallow, shallow⟩
  tidy b mem := by
    rcases List.mem_append.1 (closed.mem_iff.1 mem) with new | old
    · exact tidy b new
    · exact settled.tidy b old
  warned := by
    have empty := emptyBlocks_perm closed
    have warned := settled.warned
    rw [emptyBlocks_append, List.perm_iff_count] at empty
    rw [List.perm_iff_count] at warned warnings
    rw [spoken, List.perm_iff_count]
    intro w
    have count := empty w
    have before := warned w
    have now := warnings w
    simp only [List.count_append, List.flatMap_append] at count before now ⊢
    omega

theorem closing {blocks : List (Nat × List Node)} (settled : Settled unit width n)
    (closing : Closing n m blocks) : Settled unit width m := by
  refine settled.step ?_ (List.forall_mem_nil _) closing.closed closing.tidy ?_
  · rw [closing.spoken, List.append_nil]
  · rw [closing.warnings, List.flatMap_nil, List.append_nil]

theorem add {l : LogicalLine} (settled : Settled unit width n) (wide : l.HasWidth width) :
    Settled unit width (n.add unit l) := by
  obtain ⟨line, count, indent, s⟩ := l
  cases loud : s.isSilent with
  | true =>
    have unindented : indent = none := by simpa [LogicalLine.HasWidth, loud] using wide
    subst unindented
    have silent : Closing n (n.add unit ⟨line, count, none, s⟩) [] := by
      refine ⟨?_, n.closed_place line s, ?_, nofun⟩
      · exact (n.spoken_place line s).trans (by simp [loud])
      · exact (n.warnings_place line s).trans (List.append_nil _).symm
    exact settled.closing silent
  | false =>
    have indented : indent = some (width line) := by simpa [LogicalLine.HasWidth, loud] using wide
    subst indented
    obtain ⟨blocks, tidy, spoken, closed, warnings⟩ :=
      n.add_of_indent unit line count (width line) loud
    refine settled.step spoken (List.forall_mem_singleton.2 (Nat.min_le_right _ _)) closed tidy ?_
    rw [List.flatMap_singleton]
    exact warnings

theorem foldl {items : List LogicalLine} (settled : Settled unit width n)
    (wide : ∀ l ∈ items, l.HasWidth width) : Settled unit width (items.foldl (Nesting.add unit) n) := by
  induction items generalizing n with
  | nil => exact settled
  | cons l items ih =>
    obtain ⟨first, rest⟩ := List.forall_mem_cons.1 wide
    exact ih (settled.add first) rest

end Settled

/-- The indentation of a line of a script, by its number. -/
def widthOf (unit : Nat) (source : Text) (line : Nat) : Nat :=
  columns unit ((lines source).getD (line - 1) [])

theorem hasWidth_logicalLine (unit number : Nat) (l : Text) (further : List Text) :
    (logicalLine unit number l further).indent =
      if (logicalLine unit number l further).statement.isSilent then none
      else some (columns unit l) := by
  rcases line_cases l with blank | ⟨text, comment⟩ | ⟨quotes, first, starts⟩ | code
  · rw [logicalLine_blank unit number further blank]
    rfl
  · rw [logicalLine_comment unit number further comment]
    rfl
  · rw [logicalLine_docstring unit number further starts]
    rfl
  · rw [logicalLine_code unit number further code]
    simp only [isSilent_recognise]
    rfl

theorem hasWidth_of_mem {unit : Nat} {source : Text} {item : LogicalLine}
    (mem : item ∈ logicalLines unit source) : item.HasWidth (widthOf unit source) := by
  obtain ⟨front, l, own, behind, before, whole, rfl, -, -⟩ := split_of_mem mem
  have own : widthOf unit source (1 + front.length) = columns unit l := by
    simp [widthOf, whole]
  unfold LogicalLine.HasWidth
  rw [line_logicalLine, own]
  exact hasWidth_logicalLine unit (1 + front.length) l _

/-- What holds of all that was read holds of the whole script, behind whose end nothing is open. -/
theorem settled_nest (unit : Nat) (source : Text) :
    Settled unit (widthOf unit source)
      ⟨(nest unit source).nodes, [], (nest unit source).warnings⟩ := by
  have read : Settled unit (widthOf unit source)
      ((logicalLines unit source).foldl (Nesting.add unit) .start) :=
    Settled.start.foldl fun item mem => hasWidth_of_mem mem
  obtain ⟨blocks, closing⟩ := Closing.closeMany
    (((logicalLines unit source).foldl (Nesting.add unit) .start).level - 0)
    ((logicalLines unit source).foldl (Nesting.add unit) .start)
  have outermost := Nesting.eq_of_closed
    ((Nesting.level_closeTo ((logicalLines unit source).foldl (Nesting.add unit) .start) 0).trans
      (Nat.min_zero _))
  exact outermost ▸ read.closing closing

theorem spoken_of_closed (ns : List Node) (ws : List Warning) :
    Nesting.spoken ⟨ns, [], ws⟩ = spoken 0 ns := by
  rw [Nesting.spoken, openSpoken, List.append_nil]

/-- The statements of a script at their depths, and the warnings about them. Each statement stands
at the level of its indentation, or less deep and with a warning; no block ends with a blank line;
and the warnings are exactly those about statements whose indentation is no multiple of the unit,
statements that stand less deep than they are indented, and blocks without a body. -/
theorem statements_settled (unit : Nat) (source : Text) :
    let reading := nest unit source
    let width := widthOf unit source
    (∀ p ∈ spoken 0 reading.nodes, p.depth ≤ width p.line / unit ∧
      (unexpectedIndent p.line ∉ reading.warnings → p.depth = width p.line / unit)) ∧
    Tidy (blocksIn reading.nodes) ∧
    reading.warnings.Perm
      (((spoken 0 reading.nodes).flatMap fun p => indentWarnings unit (width p.line) p) ++
        emptyBlocks (blocksIn reading.nodes)) := by
  intro reading width
  obtain ⟨shallow, tidy, warned⟩ : Settled unit width ⟨reading.nodes, [], reading.warnings⟩ :=
    settled_nest unit source
  simp only [spoken_of_closed, Nesting.closed, List.flatMap_nil, List.append_nil]
    at shallow tidy warned
  refine ⟨fun p mem => ⟨shallow p mem, fun quiet => ?_⟩, tidy, warned⟩
  by_contra deeper
  have less : p.depth < width p.line / unit := by
    have := shallow p mem
    omega
  refine quiet (warned.mem_iff.2 (List.mem_append_left _ ?_))
  exact List.mem_flatMap.2 ⟨p, mem, by simp [indentWarnings, less]⟩

end Script

end SwiftDraft
