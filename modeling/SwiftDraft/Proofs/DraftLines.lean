import SwiftDraft.Draft.Printer
import SwiftDraft.Proofs.Folding
import SwiftDraft.Proofs.Lines
import SwiftDraft.Proofs.Pieces
import SwiftDraft.Proofs.Preorder
import SwiftDraft.Proofs.Rewriting

/-!
# The lines of a draft

Each line of a draft was printed for a statement of the script or for the end of a block
(`Printed`). The statements come in the order of the script, and the brace that closes a block comes
right behind everything in it (`LaidOut`).
-/

namespace SwiftDraft

open Text

namespace Draft

open Script (Parameter Header Simple Statement Node preorder forest_induction)

/-- The lines of a statement, without their indentation; a header has one, which opens its block. -/
def statementLines : Statement → List Text
  | .simple s => simpleLines s
  | .header h => [openingLine h]

/-- How many lines a statement has: a docstring one for each line of its content. -/
def lineCount : Statement → Nat
  | .simple (.docstring content) => content.length
  | _ => 1

/-- Whether a statement opens a block in braces: every header but an unsupported one does. -/
def isBraced : Statement → Bool
  | .header (.unsupported _) | .simple _ => false
  | .header _ => true

/-- A line of a draft, the statement it was printed for, and whether it closes the block of this
statement. -/
structure Printed where
  line : Line
  origin : Nat × Statement
  closes : Bool

/-- The line that opens a block. -/
def opening (depth number : Nat) (h : Header) : Printed :=
  ⟨⟨depth, openingLine h⟩, (number, .header h), false⟩

/-- The line that closes a block in braces. -/
def closing (depth number : Nat) (h : Header) : Printed :=
  ⟨⟨depth, ['}']⟩, (number, .header h), true⟩

mutual

def printedNode (depth : Nat) : Node → List Printed
  | .leaf number s => (simpleLines s).map fun t => ⟨⟨depth, t⟩, (number, .simple s), false⟩
  | .block number h body =>
    opening depth number h :: printed (depth + 1) body ++
      if isBraced (.header h) then [closing depth number h] else []

/-- The lines of nodes at a depth. -/
def printed (depth : Nat) : List Node → List Printed
  | [] => []
  | n :: ns => printedNode depth n ++ printed depth ns

end

section

variable (depth number : Nat) (s : Simple) (h : Header) (body ns : List Node)

@[simp] theorem printed_nil : printed depth [] = [] := rfl

@[simp] theorem printed_leaf : printed depth (.leaf number s :: ns) =
    (simpleLines s).map (fun t => ⟨⟨depth, t⟩, (number, .simple s), false⟩) ++ printed depth ns :=
  rfl

@[simp] theorem printed_block : printed depth (.block number h body :: ns) =
    opening depth number h :: (printed (depth + 1) body ++
      ((if isBraced (.header h) then [closing depth number h] else []) ++ printed depth ns)) := by
  simp [printed, printedNode]

end

theorem closingLines_eq (h : Header) (depth : Nat) :
    closingLines h depth = if isBraced (.header h) then [⟨depth, ['}']⟩] else [] := by
  cases h <;> rfl

/-- The lines of a draft are those that are printed. -/
theorem map_line_printed (depth : Nat) (ns : List Node) :
    (printed depth ns).map Printed.line = blockLines depth ns := by
  induction ns using forest_induction generalizing depth with
  | nil => rfl
  | leaf number s ns ih =>
    rw [printed_leaf, List.map_append, List.map_map, ih]
    rfl
  | block number h body ns ihBody ih =>
    rw [printed_block, List.map_cons, List.map_append, List.map_append, ihBody, ih, blockLines,
      nodeLines, closingLines_eq]
    cases isBraced (.header h) <;> simp [opening, closing]

/-- A node stands somewhere in a tree. -/
inductive Occurs (n : Node) : List Node → Prop
  | here (ns : List Node) : Occurs n (n :: ns)
  | behind {ns : List Node} (m : Node) (later : Occurs n ns) : Occurs n (m :: ns)
  | within {body : List Node} (number : Nat) (h : Header) (ns : List Node)
      (inside : Occurs n body) : Occurs n (.block number h body :: ns)

/-- The lines of a tree: each statement has its own in the order of the script, and each block in
braces is closed once, right behind the lines of its body. -/
structure LaidOut (ns : List Node) (lines : List Printed) : Prop where
  statements : (lines.filter (! ·.closes)).map (fun p => (p.origin, p.line.text)) =
    (preorder ns).flatMap fun s => (statementLines s.2).map fun t => (s, t)
  counts : ∀ s ∈ preorder ns, (statementLines s.2).length = lineCount s.2
  closings : ((lines.filter (·.closes)).map Printed.origin).Perm
    ((preorder ns).filter fun s => isBraced s.2)
  braces : ∀ p ∈ lines, p.closes → p.line.text = ['}']
  placed : ∀ number h body, Occurs (.block number h body) ns →
    ∃ depth before after, lines = before ++ opening depth number h :: (printed (depth + 1) body ++
      ((if isBraced (.header h) then [closing depth number h] else []) ++ after))

theorem statements_printed (depth : Nat) (ns : List Node) :
    ((printed depth ns).filter (! ·.closes)).map (fun p => (p.origin, p.line.text)) =
      (preorder ns).flatMap fun s => (statementLines s.2).map fun t => (s, t) := by
  induction ns using forest_induction generalizing depth with
  | nil => rfl
  | leaf number s ns ih =>
    rw [printed_leaf, List.filter_append, List.map_append, ih, Script.preorder_leaf,
      List.flatMap_cons]
    simp [List.filter_map, Function.comp_def, statementLines]
  | block number h body ns ihBody ih =>
    have brace : (if isBraced (.header h) then [closing depth number h] else []).filter
        (! ·.closes) = [] := by
      split <;> rfl
    rw [printed_block, List.filter_cons_of_pos (by rfl), List.filter_append, List.filter_append,
      brace, List.nil_append, List.map_cons, List.map_append, ihBody, ih, Script.preorder_block,
      List.cons_append, List.flatMap_cons, List.flatMap_append]
    rfl

theorem closings_printed (depth : Nat) (ns : List Node) :
    (((printed depth ns).filter (·.closes)).map Printed.origin).Perm
      ((preorder ns).filter fun s => isBraced s.2) := by
  induction ns using forest_induction generalizing depth with
  | nil => exact .nil
  | leaf number s ns ih =>
    rw [printed_leaf, List.filter_append, Script.preorder_leaf,
      List.filter_cons_of_neg (by simp [isBraced])]
    simpa [List.filter_map, Function.comp_def] using ih depth
  | block number h body ns ihBody ih =>
    -- The brace comes behind the body's braces, its header in front of the body's headers.
    rw [printed_block, List.filter_cons_of_neg (by simp [opening]), List.filter_append,
      List.filter_append, List.map_append, List.map_append, Script.preorder_block,
      List.cons_append]
    have both := (ihBody (depth + 1)).append (ih depth)
    rw [← List.filter_append] at both
    cases braced : isBraced (.header h) with
    | false =>
      rw [List.filter_cons_of_neg (by simp [braced])]
      exact both
    | true =>
      rw [List.filter_cons_of_pos (by simpa using braced)]
      exact List.perm_middle.trans (both.cons _)

theorem placed_printed {number : Nat} {h : Header} {body ns : List Node}
    (occurs : Occurs (.block number h body) ns) (depth : Nat) :
    ∃ depth' before after, printed depth ns =
      before ++ opening depth' number h :: (printed (depth' + 1) body ++
        ((if isBraced (.header h) then [closing depth' number h] else []) ++ after)) := by
  induction occurs generalizing depth with
  | here ns => exact ⟨depth, [], printed depth ns, printed_block _ _ _ _ _⟩
  | behind m later ih =>
    obtain ⟨depth', before, after, split⟩ := ih depth
    refine ⟨depth', printedNode depth m ++ before, after, ?_⟩
    rw [printed, split, List.append_assoc]
  | within outer g ns inside ih =>
    obtain ⟨depth', before, after, split⟩ := ih (depth + 1)
    refine ⟨depth', opening depth outer g :: before,
      after ++ ((if isBraced (.header g) then [closing depth outer g] else []) ++
        printed depth ns), ?_⟩
    rw [printed_block, split]
    simp only [List.cons_append, List.append_assoc]

theorem length_statementLines (s : Statement) : (statementLines s).length = lineCount s := by
  cases s with
  | header h => rfl
  | simple s =>
    cases s with
    | docstring content => exact List.length_map _
    | returning value => cases value <;> rfl
    | _ => rfl

theorem braces_printed {depth : Nat} {ns : List Node} {p : Printed} (mem : p ∈ printed depth ns)
    (closes : p.closes) : p.line.text = ['}'] := by
  induction ns using forest_induction generalizing depth with
  | nil => cases mem
  | leaf number s ns ih =>
    rw [printed_leaf, List.mem_append] at mem
    rcases mem with here | later
    · obtain ⟨t, -, rfl⟩ := List.mem_map.1 here
      cases closes
    · exact ih later
  | block number h body ns ihBody ih =>
    rw [printed_block, List.mem_cons, List.mem_append, List.mem_append] at mem
    rcases mem with rfl | inside | brace | later
    · cases closes
    · exact ihBody inside
    · split at brace
      · rw [List.mem_singleton.1 brace]
        rfl
      · cases brace
    · exact ih later

theorem le_depth_of_mem_printed {depth : Nat} {ns : List Node} {p : Printed}
    (mem : p ∈ printed depth ns) : depth ≤ p.line.depth := by
  induction ns using forest_induction generalizing depth with
  | nil => cases mem
  | leaf number s ns ih =>
    rw [printed_leaf, List.mem_append] at mem
    rcases mem with here | later
    · obtain ⟨t, -, rfl⟩ := List.mem_map.1 here
      exact Nat.le_refl depth
    · exact ih later
  | block number h body ns ihBody ih =>
    rw [printed_block, List.mem_cons, List.mem_append, List.mem_append] at mem
    rcases mem with rfl | inside | brace | later
    · exact Nat.le_refl depth
    · exact Nat.le_of_succ_le (ihBody inside)
    · split at brace
      · rw [List.mem_singleton.1 brace]
        exact Nat.le_refl depth
      · cases brace
    · exact ih later

theorem laidOut_printed (depth : Nat) (ns : List Node) : LaidOut ns (printed depth ns) where
  statements := statements_printed depth ns
  counts s _ := length_statementLines s.2
  closings := closings_printed depth ns
  braces _ mem closes := braces_printed mem closes
  placed _ _ _ occurs := placed_printed occurs depth

section

variable {s t : Text}

theorem newline_not_mem_expression (h : '\n' ∉ s) : '\n' ∉ expression s :=
  not_mem_expression (by decide) h

theorem newline_not_mem_hintType (hint : Text) : '\n' ∉ (hintType hint).text :=
  not_mem_hintType (by decide) hint

theorem newline_not_mem_iterable (h : '\n' ∉ s) : '\n' ∉ iterable s := by
  have piece {arguments : List Text} (found : rangeArguments? (trim s) = some arguments) :
      ∀ a ∈ arguments, '\n' ∉ expression a := by
    unfold rangeArguments? at found
    split at found
    · cases found
    · next rest behind =>
      split at found
      · next ends =>
        cases found
        intro a mem
        refine newline_not_mem_expression fun inside => ends.2 ?_
        exact List.dropLast_subset _ (subset_of_mem_splitTopLevel mem inside)
      · cases found
  unfold iterable
  split
  · next stop found =>
    exact List.not_mem_append (by decide) (piece found stop (by simp))
  · next start stop found =>
    exact List.not_mem_append (List.not_mem_append (piece found start (by simp)) (by decide))
      (piece found stop (by simp))
  · exact newline_not_mem_expression h

theorem newline_not_mem_parameter {p : Parameter} (h : ∀ t ∈ p.texts, '\n' ∉ t) :
    '\n' ∉ parameter p := by
  simp only [Parameter.texts, List.forall_mem_cons, List.forall_mem_append, Option.mem_toList] at h
  obtain ⟨name, -, default⟩ := h
  unfold parameter
  split
  · next rest behind =>
    exact List.not_mem_append (fun mem => name (subset_of_after? behind mem)) (by decide)
  · split
    · next rest behind =>
      exact List.not_mem_append (List.not_mem_append (by decide)
        fun mem => name (subset_of_after? behind mem)) (by decide)
    · refine List.not_mem_append (List.not_mem_append name ?_) ?_
      · split
        · exact List.not_mem_append (by decide) (newline_not_mem_hintType _)
        · exact List.not_mem_nil
      · split
        · next d given =>
          exact List.not_mem_append (by decide) (newline_not_mem_expression (default d given))
        · exact List.not_mem_nil

theorem newline_not_mem_returnClause (returns : Option Text) : '\n' ∉ returnClause returns := by
  unfold returnClause
  split
  · exact List.not_mem_nil
  · simp only
    split
    · exact List.not_mem_nil
    · exact List.not_mem_append (by decide) (newline_not_mem_hintType _)

theorem newline_not_mem_functionHeader {name : Text} {parameters : List Parameter}
    (named : '\n' ∉ name) (h : ∀ p ∈ parameters, ∀ t ∈ p.texts, '\n' ∉ t) (returns : Option Text) :
    '\n' ∉ functionHeader name parameters returns := by
  have list : '\n' ∉ join ", " (parameters.map parameter) := by
    intro mem
    rcases mem_join mem with sep | ⟨part, inParts, inside⟩
    · exact absurd sep (by decide)
    · obtain ⟨p, hp, rfl⟩ := List.mem_map.1 inParts
      exact newline_not_mem_parameter (h p hp) inside
  have behind := List.not_mem_cons_of_ne_of_not_mem (show '\n' ≠ ')' by decide)
    (newline_not_mem_returnClause returns)
  have inside := List.not_mem_cons_of_ne_of_not_mem (show '\n' ≠ '(' by decide) list
  exact List.not_mem_append (List.not_mem_append (List.not_mem_append (by decide) named) inside)
    behind

theorem newline_not_mem_openingLine {h : Header} (texts : ∀ t ∈ h.texts, '\n' ∉ t) :
    '\n' ∉ openingLine h := by
  have braced {text : Text} (plain : '\n' ∉ text) : '\n' ∉ text ++ " \x7b".toList :=
    List.not_mem_append plain (by decide)
  cases h with
  | function name parameters returns =>
    simp only [Header.texts, List.forall_mem_cons, List.forall_mem_append,
      List.mem_flatMap] at texts
    exact braced (newline_not_mem_functionHeader texts.1
      (fun p hp t ht => texts.2.1 t ⟨p, hp, ht⟩) returns)
  | classType name =>
    exact braced (List.not_mem_append (by decide) (texts name (by simp [Header.texts])))
  | ifTest condition | elseIf condition | whileTest condition =>
    exact braced (List.not_mem_append (by decide)
      (newline_not_mem_expression (texts condition (by simp [Header.texts]))))
  | otherwise => decide
  | loop target items =>
    have target := texts target (by simp [Header.texts])
    have items := texts items (by simp [Header.texts])
    exact braced (List.not_mem_append (List.not_mem_append (List.not_mem_append (by decide)
      fun mem => target (trim_subset _ mem)) (by decide)) (newline_not_mem_iterable items))
  | unsupported header =>
    exact List.not_mem_append (by decide) (texts header (by simp [Header.texts]))

theorem newline_not_mem_simpleLines {s : Simple} (texts : ∀ t ∈ s.texts, '\n' ∉ t) :
    ∀ l ∈ simpleLines s, '\n' ∉ l := by
  have only {t : Text} (plain : '\n' ∉ t) : ∀ l ∈ [t], '\n' ∉ l :=
    List.forall_mem_singleton.2 plain
  cases s with
  | blank | pass => decide
  | comment text =>
    exact only (List.not_mem_append (by decide) (texts text (by simp [Simple.texts])))
  | docstring content =>
    intro l mem
    obtain ⟨t, ht, rfl⟩ := List.mem_map.1 mem
    unfold docstringLine
    split
    · decide
    · exact List.not_mem_append (by decide) (texts t ht)
  | importing text =>
    exact only (List.not_mem_append (List.not_mem_append (by decide)
      (texts text (by simp [Simple.texts]))) (by decide))
  | returning value =>
    cases value with
    | none => decide
    | some value =>
      exact only (List.not_mem_append (by decide)
        (newline_not_mem_expression (texts value (by simp [Simple.texts]))))
  | assign target hint value =>
    have target := texts target (by simp [Simple.texts])
    have value := texts value (by simp [Simple.texts])
    refine only (List.not_mem_append (List.not_mem_append (List.not_mem_append
      (List.not_mem_append (by decide) ?_) ?_) (by decide)) (newline_not_mem_expression value))
    · split
      · simpa using target
      · exact target
    · split
      · exact List.not_mem_append (by decide) (newline_not_mem_hintType _)
      · exact List.not_mem_nil
  | printing arguments =>
    exact only (List.not_mem_append (List.not_mem_append (by decide)
      (newline_not_mem_expression (texts arguments (by simp [Simple.texts])))) (by decide))
  | raw text => exact only (newline_not_mem_expression (texts text (by simp [Simple.texts])))

theorem newline_not_mem_statementLines {s : Statement} (texts : ∀ t ∈ s.texts, '\n' ∉ t) :
    ∀ l ∈ statementLines s, '\n' ∉ l := by
  cases s with
  | simple s => exact newline_not_mem_simpleLines texts
  | header h => exact List.forall_mem_singleton.2 (newline_not_mem_openingLine texts)

end

end Draft

namespace Script

theorem subset_of_cutAt? {sep s front back : Text} (h : cutAt? sep s = some (front, back)) :
    front ⊆ s := by
  induction s generalizing front with
  | nil =>
    unfold cutAt? at h
    split at h
    · cases h
      exact List.nil_subset _
    · cases h
  | cons c s ih =>
    unfold cutAt? at h
    split at h
    · cases h
      exact List.nil_subset _
    · obtain ⟨⟨f, b⟩, found, same⟩ := Option.map_eq_some_iff.1 h
      cases same
      exact List.cons_subset_cons c (ih found)

theorem newline_not_mem_trim {s : Text} (h : '\n' ∉ s) : '\n' ∉ trim s :=
  fun mem => h (trim_subset s mem)

theorem newline_not_mem_continued {text : Text} {depth : Int} {ls : List Text} (h : '\n' ∉ text)
    (plain : ∀ l ∈ ls, '\n' ∉ l) : '\n' ∉ (continued text depth ls).1 := by
  induction ls generalizing text depth with
  | nil => exact h
  | cons l ls ih =>
    obtain ⟨first, rest⟩ := List.forall_mem_cons.1 plain
    rw [continued]
    split
    · refine ih (List.not_mem_append (fun mem => h ?_) ?_) rest
      · have inHead := trimEnd_subset _ mem
        split at inHead
        · exact List.dropLast_subset _ inHead
        · exact inHead
      · exact List.not_mem_cons_of_ne_of_not_mem (by decide) (newline_not_mem_trim first)
    · exact h

theorem newline_not_mem_docstringRest {quotes : Text} {ls : List Text}
    (plain : ∀ l ∈ ls, '\n' ∉ l) : ∀ t ∈ (docstringRest quotes ls).1, '\n' ∉ t := by
  induction ls with
  | nil => exact List.forall_mem_nil _
  | cons l ls ih =>
    obtain ⟨first, rest⟩ := List.forall_mem_cons.1 plain
    rw [docstringRest]
    split
    · next last behind found =>
      have inLine := subset_of_cutAt? found
      simp only
      split
      · exact List.forall_mem_nil _
      · exact List.forall_mem_singleton.2
          (newline_not_mem_trim fun mem => newline_not_mem_trim first (inLine mem))
    · exact List.forall_mem_cons.2 ⟨newline_not_mem_trim first, ih rest⟩

theorem newline_not_mem_docstring {quotes first : Text} {ls : List Text} (h : '\n' ∉ first)
    (plain : ∀ l ∈ ls, '\n' ∉ l) : ∀ t ∈ (docstring quotes first ls).1, '\n' ∉ t := by
  have rest : ∀ t ∈ (docstringRest quotes ls).1, '\n' ∉ t := newline_not_mem_docstringRest plain
  unfold docstring
  split
  · next only behind found =>
    exact List.forall_mem_singleton.2
      (newline_not_mem_trim fun mem => h (subset_of_cutAt? found mem))
  · simp only
    split
    · exact rest
    · exact List.forall_mem_cons.2 ⟨newline_not_mem_trim h, rest⟩

theorem newline_not_mem_logicalLine {unit number : Nat} {l : Text} {further : List Text}
    (h : '\n' ∉ l) (plain : ∀ l ∈ further, '\n' ∉ l) :
    ∀ t ∈ (logicalLine unit number l further).statement.texts, '\n' ∉ t := by
  have first := newline_not_mem_trim h
  rcases line_cases l with blank | ⟨text, comment⟩ | ⟨quotes, start, starts⟩ | code
  · rw [logicalLine_blank unit number further blank]
    exact nofun
  · rw [logicalLine_comment unit number further comment]
    rw [comment] at first
    exact List.forall_mem_singleton.2 fun mem => first (List.mem_cons_of_mem _ mem)
  · rw [logicalLine_docstring unit number further starts]
    rw [(docstringStart?_eq_some starts).2] at first
    exact newline_not_mem_docstring (fun mem => first (List.mem_append_right quotes mem)) plain
  · rw [logicalLine_code unit number further code]
    intro t ht mem
    exact newline_not_mem_continued first plain (subset_of_mem_recognise ht mem)

/-- The texts of a script's statements stand on one line. -/
theorem newline_not_mem_logicalLines {unit : Nat} {source : Text} {item : LogicalLine}
    (mem : item ∈ logicalLines unit source) : ∀ t ∈ item.statement.texts, '\n' ∉ t := by
  obtain ⟨front, l, own, behind, before, whole, rfl, -, -⟩ := split_of_mem mem
  have plain : ∀ l ∈ lines source, '\n' ∉ l := fun l => newline_not_mem_of_mem_lines
  rw [whole] at plain
  obtain ⟨first, further⟩ := List.forall_mem_cons.1 (List.forall_mem_append.1 plain).2
  exact newline_not_mem_logicalLine first further

end Script

namespace Draft

open Script

/-- A line as it stands in a draft. -/
def Line.shown (unit : Nat) (l : Line) : Text :=
  if l.text = [] then [] else List.replicate (l.depth * unit) ' ' ++ l.text

theorem render_eq (unit : Nat) (l : Line) : l.render unit = l.shown unit ++ ['\n'] := by
  unfold Line.render Line.shown
  split <;> rfl

theorem newline_not_mem_shown {unit : Nat} {l : Line} (h : '\n' ∉ l.text) :
    '\n' ∉ l.shown unit := by
  unfold Line.shown
  split
  · exact List.not_mem_nil
  · exact List.not_mem_append (by simp) h

theorem mem_statementLines_of_printed {depth : Nat} {ns : List Node} {p : Printed}
    (mem : p ∈ printed depth ns) (own : p.closes = false) :
    p.origin ∈ preorder ns ∧ p.line.text ∈ statementLines p.origin.2 := by
  have kept : (p.origin, p.line.text) ∈
      ((printed depth ns).filter (! ·.closes)).map fun p => (p.origin, p.line.text) :=
    List.mem_map_of_mem (List.mem_filter.2 ⟨mem, by simp [own]⟩)
  rw [statements_printed, List.mem_flatMap] at kept
  obtain ⟨s, inTree, made⟩ := kept
  obtain ⟨t, inLines, same⟩ := List.mem_map.1 made
  cases same
  exact ⟨inTree, inLines⟩

/-- No line of a script's draft has a newline in it. -/
theorem newline_not_mem_printed {unit : Nat} {source : Text} {p : Printed}
    (mem : p ∈ printed 0 (nest unit source).nodes) : '\n' ∉ p.line.text := by
  cases kind : p.closes with
  | true =>
    rw [braces_printed mem kind]
    decide
  | false =>
    obtain ⟨inTree, inLines⟩ := mem_statementLines_of_printed mem kind
    rw [preorder_nest] at inTree
    obtain ⟨item, inItems, same⟩ := List.mem_map.1 inTree
    rw [← same] at inLines
    exact newline_not_mem_statementLines (newline_not_mem_logicalLines inItems) _ inLines

theorem text_eq_printed (unit : Nat) (generatedAt source : Text) :
    (ofScript unit generatedAt source).text = header generatedAt ++
      unlines ((printed 0 (nest (effectiveUnit unit) source).nodes).map fun p =>
        p.line.shown (effectiveUnit unit)) := by
  change _ ++ render _ _ = _
  rw [render, ← map_line_printed, unlines, List.flatMap_map, List.flatMap_map]
  simp only [render_eq]

/-- The draft of a script line by line. Every physical line of the script belongs to exactly one
logical line, which is read from its own lines alone; the tree lists the logical lines in order; and
behind its header the draft has the lines of their statements in this order, with one brace behind
each block that stands in braces. -/
theorem draft_accounts_for_script (unit : Nat) (generatedAt source : Text) :
    let items := logicalLines (effectiveUnit unit) source
    let nodes := (nest (effectiveUnit unit) source).nodes
    let drafted := printed 0 nodes
    (∀ k, 1 ≤ k → k ≤ (lines source).length → ∃! item, item ∈ items ∧ item.Covers k) ∧
    (∀ item ∈ items, 1 ≤ item.line ∧ 1 ≤ item.count ∧
      item.line + item.count ≤ (lines source).length + 1 ∧
      ∃ l own, ((lines source).drop (item.line - 1)).take item.count = l :: own ∧
        item = logicalLine (effectiveUnit unit) item.line l own) ∧
    (items.Pairwise fun item later => item.line < later.line) ∧
    preorder nodes = items.map (fun item => (item.line, item.statement)) ∧
    LaidOut nodes drafted ∧
    (∀ p ∈ drafted, '\n' ∉ p.line.shown (effectiveUnit unit)) ∧
    (ofScript unit generatedAt source).text =
      header generatedAt ++ unlines (drafted.map fun p => p.line.shown (effectiveUnit unit)) := by
  intro items nodes drafted
  have tiles := tiles_logicalLinesFrom (effectiveUnit unit) 1 (lines source)
  refine ⟨fun k low high => tiles.existsUnique_covers low (by omega), fun item mem => ?_,
    tiles.ascending, preorder_nest _ source, laidOut_printed 0 nodes, fun p mem => ?_,
    text_eq_printed unit generatedAt source⟩
  · obtain ⟨first, filled, last⟩ := tiles.within mem
    exact ⟨first, filled, by omega, read_from_own mem⟩
  · exact newline_not_mem_shown (newline_not_mem_printed mem)

end Draft

end SwiftDraft
