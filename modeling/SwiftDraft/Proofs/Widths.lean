import SwiftDraft.Proofs.Levels

/-!
# Widths in machine words

Columns are counted in machine words, and a unit may be almost as large as one. A build without
overflow checks reads a line at its level exactly if its columns fit in a word (`level_eq_iff`); one
with checks stops at a line whose columns do not (`nest?_eq_none_iff`). So a tree that was written
with tabs or spaces is read back exactly if the columns of its lines fit (`written_read_back`).
-/

namespace SwiftDraft

namespace Text

/-- The tabs among the blanks that start a line. -/
def tabs (l : Text) : Nat := (l.takeWhile isBlank).countP (· = '\t')

/-- The other blanks that start a line. -/
def otherBlanks (l : Text) : Nat := (l.takeWhile isBlank).countP (· ≠ '\t')

theorem exactColumns_eq (unit : Nat) (l : Text) :
    exactColumns unit l = tabs l * unit + otherBlanks l := by
  induction l with
  | nil => simp [tabs, otherBlanks, exactColumns]
  | cons c l ih =>
    unfold tabs otherBlanks at ih ⊢
    rw [exactColumns]
    split
    · next blank =>
      rw [List.takeWhile_cons_of_pos blank, List.countP_cons, List.countP_cons, ih]
      by_cases tab : c = '\t' <;> simp [tab, Nat.add_mul] <;> omega
    · next visible =>
      rw [List.takeWhile_cons_of_neg visible]
      simp

/-- No line is wider than one of tabs only. -/
theorem exactColumns_le {unit : Nat} (positive : 0 < unit) (l : Text) :
    exactColumns unit l ≤ l.length * unit := by
  induction l with
  | nil => exact Nat.zero_le _
  | cons c l ih =>
    rw [exactColumns, List.length_cons, Nat.succ_mul]
    split
    · split <;> omega
    · exact Nat.zero_le _

theorem exactColumns_replicate_tab (unit n : Nat) :
    exactColumns unit (List.replicate n '\t') = n * unit := by
  induction n with
  | zero => simp [exactColumns]
  | succ n ih =>
    rw [List.replicate_succ, exactColumns, if_pos (by decide), if_pos rfl, ih, Nat.succ_mul,
      Nat.add_comm]

theorem columns_lt (unit : Nat) (l : Text) : columns unit l < wordSize :=
  Nat.mod_lt _ (by decide)

/-- Columns that do not fit in a word are counted at least a word short. -/
theorem columns_add_wordSize_le {unit : Nat} {l : Text} (wide : wordSize ≤ exactColumns unit l) :
    columns unit l + wordSize ≤ exactColumns unit l := by
  have less := Nat.mod_le (exactColumns unit l - wordSize) wordSize
  rw [columns, Nat.mod_eq_sub_mod wide]
  omega

/-- A line is read at its level if its columns fit in a word, and at a smaller one otherwise: a
level is less than a word. -/
theorem level_eq_iff {unit : Nat} (positive : 0 < unit) (word : unit < wordSize) (l : Text) :
    columns unit l / unit = exactColumns unit l / unit ↔ exactColumns unit l < wordSize := by
  refine ⟨fun same => ?_, fun fits => by rw [columns_of_lt fits]⟩
  by_contra wide
  have lost := columns_add_wordSize_le (Nat.le_of_not_lt wide)
  have level : columns unit l / unit + 1 ≤ exactColumns unit l / unit := by
    rw [← Nat.add_div_right _ positive]
    exact Nat.div_le_div_right (by omega)
  omega

theorem length_chomp_le (l : Text) : (chomp l).length ≤ l.length := by
  unfold chomp
  split
  · rw [List.length_dropLast]
    omega
  · exact Nat.le_refl _

/-- A text has at least one character for each of its lines. -/
theorem length_lines_le (s : Text) : (lines s).length ≤ s.length := by
  induction s using lineInduction with
  | last s plain =>
    by_cases filled : s = []
    · rw [filled]
      exact Nat.le_refl _
    · rw [lines_last plain filled]
      exact List.length_pos_iff.2 filled
  | line l rest plain ih =>
    rw [lines_line_append plain, List.length_cons, List.length_append, List.length_cons]
    omega

theorem length_le_of_mem_lines {s l : Text} (mem : l ∈ lines s) : l.length ≤ s.length := by
  induction s using lineInduction with
  | last s plain =>
    by_cases filled : s = []
    · rw [filled] at mem
      cases mem
    · rw [lines_last plain filled, List.mem_singleton] at mem
      rw [mem]
  | line first rest plain ih =>
    have short := length_chomp_le first
    rw [List.length_append, List.length_cons]
    rw [lines_line_append plain] at mem
    rcases List.mem_cons.1 mem with rfl | later
    · omega
    · have := ih later
      omega

end Text

namespace Script

open Text

/-- A logical line with the exact columns of its first physical line. -/
def LogicalLine.measured (unit : Nat) (source : Text) (item : LogicalLine) : LogicalLine :=
  { item with
    indent := item.indent.map fun _ => exactColumns unit ((lines source).getD (item.line - 1) []) }

/-- The tree of a script whose columns are counted exactly. -/
def nestExactly (unit : Nat) (source : Text) : Reading :=
  let items := (logicalLines unit source).map (LogicalLine.measured unit source)
  let n := (items.foldl (Nesting.add unit) Nesting.start).closeTo 0
  ⟨n.outer, n.warnings⟩

variable {unit : Nat} {source : Text}

theorem fits_getD {ls : List Text} (fits : ∀ l ∈ ls, exactColumns unit l < wordSize) (i : Nat) :
    exactColumns unit (ls.getD i []) < wordSize := by
  rw [List.getD_eq_getElem?_getD]
  cases found : ls[i]? with
  | none => exact show 0 < wordSize by decide
  | some l => exact fits l (List.mem_of_getElem? found)

theorem widthOf_of_fits (fits : ∀ l ∈ lines source, exactColumns unit l < wordSize) (number : Nat) :
    widthOf unit source number = exactColumns unit ((lines source).getD (number - 1) []) :=
  columns_of_lt (fits_getD fits _)

theorem measured_of_fits (fits : ∀ l ∈ lines source, exactColumns unit l < wordSize)
    {item : LogicalLine} (mem : item ∈ logicalLines unit source) :
    item.measured unit source = item := by
  have width : item.indent = _ := hasWidth_of_mem mem
  unfold LogicalLine.measured
  rw [← widthOf_of_fits fits]
  obtain ⟨line, count, indent, statement⟩ := item
  simp only at width ⊢
  rw [width]
  split <;> rfl

/-- Where all columns fit in words, the tree is that of the exact columns. -/
theorem nest_eq_nestExactly (fits : ∀ l ∈ lines source, exactColumns unit l < wordSize) :
    nest unit source = nestExactly unit source := by
  have same : (logicalLines unit source).map (LogicalLine.measured unit source) =
      logicalLines unit source :=
    (List.map_congr_left fun item mem => measured_of_fits fits mem).trans (List.map_id _)
  rw [nestExactly, same]
  rfl

theorem nest?_eq (unit : Nat) (source : Text) :
    nest? unit source =
      if ∀ l ∈ measuredLines unit source, exactColumns unit l < wordSize then
        some (nest unit source)
      else none := by
  have counted (l : Text) : (columns? unit l).isSome ↔ exactColumns unit l < wordSize := by
    rw [columns?_eq]
    split <;> simp_all
  simp only [nest?, List.all_eq_true, counted]

/-- With overflow checks a script is read as without them, if none of its lines is too wide. -/
theorem nest?_eq_some_iff {reading : Reading} : nest? unit source = some reading ↔
    (∀ l ∈ measuredLines unit source, exactColumns unit l < wordSize) ∧
      nest unit source = reading := by
  rw [nest?_eq, Option.ite_none_right_eq_some, Option.some.injEq]

theorem nest?_eq_none_iff : nest? unit source = none ↔
    ∃ l ∈ measuredLines unit source, wordSize ≤ exactColumns unit l := by
  rw [nest?_eq]
  simp

theorem fits_measuredLines (fits : ∀ l ∈ lines source, exactColumns unit l < wordSize) :
    ∀ l ∈ measuredLines unit source, exactColumns unit l < wordSize :=
  List.forall_mem_map.2 fun _ _ => fits_getD fits _

theorem depth_lt_of_mem_standings {depth : Nat} {ns : List Node} {p : Standing}
    (mem : p ∈ standings depth ns) : p.depth < depth + (preorder ns).length := by
  induction ns using forest_induction generalizing depth with
  | nil => cases mem
  | leaf number s ns ih =>
    rw [preorder_leaf, List.length_cons]
    rcases List.mem_cons.1 mem with rfl | later
    · exact Nat.lt_add_of_pos_right (Nat.succ_pos _)
    · have := ih later
      omega
  | block number h body ns ihBody ih =>
    rw [preorder_block, List.cons_append, List.length_cons, List.length_append]
    rcases List.mem_cons.1 mem with rfl | further
    · exact Nat.lt_add_of_pos_right (Nat.succ_pos _)
    · rcases List.mem_append.1 further with inside | later
      · have := ihBody inside
        omega
      · have := ih later
        omega

theorem Tiles.length_le {start stop : Nat} {items : List LogicalLine}
    (tiles : Tiles start items stop) : start + items.length ≤ stop := by
  induction tiles with
  | nil n => exact Nat.le_refl n
  | cons first filled rest ih =>
    rw [List.length_cons]
    omega

/-- A script has more characters than blocks around one of its statements. -/
theorem depth_lt_length {p : Standing} (mem : p ∈ standings 0 (nest unit source).nodes) :
    p.depth < source.length := by
  have below := depth_lt_of_mem_standings mem
  have tiled := (tiles_logicalLinesFrom unit 1 (lines source)).length_le
  have short := length_lines_le source
  rw [preorder_nest, List.length_map] at below
  unfold logicalLines at below
  omega

/-- A statement stands so deep only that the spaces in front of it are columns of its line. -/
theorem depth_mul_lt_of_spoken {p : Standing} (mem : p ∈ standings 0 (nest unit source).nodes)
    (loud : p.statement.isSilent = false) : p.depth * unit < wordSize := by
  have shallow := (settled_nest unit source).shallow
  rw [spoken_of_closed] at shallow
  have level : p.depth ≤ widthOf unit source p.line / unit :=
    shallow p (List.mem_filter.2 ⟨mem, by rw [loud]; rfl⟩)
  calc p.depth * unit ≤ widthOf unit source p.line / unit * unit := Nat.mul_le_mul_right unit level
    _ ≤ widthOf unit source p.line := Nat.div_mul_le_self _ _
    _ < wordSize := columns_lt unit _

section

variable {level number : Nat} {forest : List Nested} {ls : List Text}

/-- Each line of a written tree stands alone. -/
theorem alone_of_written (written : Written unit level forest ls) (well : WellNested forest) :
    ∀ l ∈ ls, ∀ number further, (logicalLine unit number l further).count = 1 := by
  induction written with
  | nil level => exact List.forall_mem_nil _
  | @cons level text i inner rest ls ms indentation within behind ihWithin ihBehind =>
    obtain _ | ⟨statement, opens, wellWithin, wellBehind⟩ := well
    refine List.forall_mem_cons.2 ⟨fun number further => ?_,
      List.forall_mem_append.2 ⟨ihWithin wellWithin, ihBehind wellBehind⟩⟩
    rw [statement.logicalLine_eq indentation]

theorem map_line_of_alone
    (alone : ∀ l ∈ ls, ∀ number further, (logicalLine unit number l further).count = 1) :
    (logicalLinesFrom unit number ls).map LogicalLine.line = List.range' number ls.length := by
  induction ls generalizing number with
  | nil => rw [logicalLinesFrom_nil, List.map_nil, List.length_nil, List.range'_zero]
  | cons l ls ih =>
    obtain ⟨first, rest⟩ := List.forall_mem_cons.1 alone
    rw [logicalLinesFrom_single (first number ls), List.map_cons, line_logicalLine, ih rest,
      List.length_cons, List.range'_succ]

/-- The columns of all lines of a written tree are counted. -/
theorem measuredLines_written (written : Written unit level forest ls) (well : WellNested forest) :
    measuredLines unit (unlines ls) = ls := by
  have numbers : (logicalLines unit (unlines ls)).map LogicalLine.line =
      List.range' 1 ls.length := by
    rw [logicalLines, lines_written written well, map_line_of_alone (alone_of_written written well)]
  have byNumber : measuredLines unit (unlines ls) =
      ((logicalLines unit (unlines ls)).map LogicalLine.line).map fun k => ls.getD (k - 1) [] := by
    rw [measuredLines, lines_written written well, List.map_map]
    rfl
  rw [byNumber, numbers]
  refine List.ext_getElem (by simp) fun k inList inLines => ?_
  simp [inLines]

/-- Each line of a written tree is as wide as its statement stands deep. -/
theorem width_of_written (written : Written unit level forest ls) (well : WellNested forest) :
    ∀ l ∈ ls, ∃ p ∈ standings level (nodesFrom number forest),
      p.statement.isSilent = false ∧ exactColumns unit l = p.depth * unit := by
  induction written generalizing number with
  | nil level => exact List.forall_mem_nil _
  | @cons level text i inner rest ls ms indentation within behind ihWithin ihBehind =>
    obtain _ | ⟨statement, opens, wellWithin, wellBehind⟩ := well
    have width : exactColumns unit (i ++ text) = level * unit :=
      statement.exactColumns_eq indentation
    have loud := isSilent_recognise text
    intro l mem
    rw [nodesFrom, standings, Nested.node]
    cases kind : recognise text with
    | simple s =>
      rw [kind] at loud
      have leaf : inner = [] := by
        by_contra filled
        obtain ⟨h, header⟩ := opens.2 filled
        rw [kind] at header
        cases header
      subst leaf
      cases within
      rcases List.mem_cons.1 mem with rfl | later
      · exact ⟨⟨level, number, .simple s⟩, List.mem_cons_self, loud, width⟩
      · obtain ⟨p, inTree, spoken⟩ := ihBehind wellBehind l later
        exact ⟨p, List.mem_append_right _ inTree, spoken⟩
    | header h =>
      rcases List.mem_cons.1 mem with rfl | further
      · exact ⟨⟨level, number, .header h⟩, List.mem_cons_self, rfl, width⟩
      · rcases List.mem_append.1 further with inside | later
        · obtain ⟨p, inTree, spoken⟩ := ihWithin wellWithin l inside
          exact ⟨p, List.mem_append_left _ (List.mem_cons_of_mem _ inTree), spoken⟩
        · obtain ⟨p, inTree, spoken⟩ := ihBehind wellBehind l later
          exact ⟨p, List.mem_append_right _ inTree, spoken⟩

/-- No tree stands deeper than its lines are wide in words, so it is read back only if they fit. -/
theorem nest_written_iff (wide : 1 ≤ unit) (written : Written unit 0 forest ls)
    (well : WellNested forest) :
    nest unit (unlines ls) = ⟨nodesFrom 1 forest, []⟩ ↔
      ∀ l ∈ ls, exactColumns unit l < wordSize := by
  constructor
  · intro read l mem
    obtain ⟨p, inTree, loud, width⟩ := width_of_written written well l mem
    have inReading : p ∈ standings 0 (nest unit (unlines ls)).nodes := by
      rw [read]
      exact inTree
    rw [width]
    exact depth_mul_lt_of_spoken inReading loud
  · exact nest_written wide written well

theorem nest?_written_iff (wide : 1 ≤ unit) (written : Written unit 0 forest ls)
    (well : WellNested forest) :
    nest? unit (unlines ls) = some ⟨nodesFrom 1 forest, []⟩ ↔
      ∀ l ∈ ls, exactColumns unit l < wordSize := by
  rw [nest?_eq_some_iff, measuredLines_written written well, nest_written_iff wide written well,
    and_self]

end

/-- A script that writes each statement of a tree on a line of its own, indented by a tab or by
`unit` spaces for each level, is read as this tree, with the numbers of its lines and without a
warning, exactly if the columns of each line fit in a machine word. With overflow checks, the
reading stops otherwise; without them it gives something else. -/
theorem written_read_back {unit : Nat} {forest : List Nested} {ls : List Text} (wide : 1 ≤ unit)
    (written : Written unit 0 forest ls) (well : WellNested forest) :
    (nest? unit (unlines ls) = some ⟨nodesFrom 1 forest, []⟩ ↔
      ∀ l ∈ ls, exactColumns unit l < wordSize) ∧
    (nest? unit (unlines ls) = none ↔ ∃ l ∈ ls, wordSize ≤ exactColumns unit l) ∧
    (nest unit (unlines ls) = ⟨nodesFrom 1 forest, []⟩ ↔
      ∀ l ∈ ls, exactColumns unit l < wordSize) := by
  refine ⟨nest?_written_iff wide written well, ?_, nest_written_iff wide written well⟩
  rw [nest?_eq_none_iff, measuredLines_written written well]

/-- A class with a method, and a statement behind it. -/
def methodTree : List Nested :=
  [.line "class A:".toList [.line "def f(a):".toList [.line "return a".toList []]],
    .line "x = 1".toList []]

/-- Its lines, the body of the method behind a tab and four spaces. -/
def methodLines : List Text :=
  ["class A:".toList, "\tdef f(a):".toList, "\t    return a".toList, "x = 1".toList]

theorem wellNested_method : WellNested methodTree :=
  .block (h := .classType "A".toList) (by decide) (by decide) (List.cons_ne_nil _ _)
    (.block (h := .function "f".toList [⟨"a".toList, none, none⟩] none) (by decide) (by decide)
      (List.cons_ne_nil _ _)
      (.leaf (s := .returning (some "a".toList)) (by decide) (by decide) .nil) .nil)
    (.leaf (s := .assign "x".toList none "1".toList) (by decide) (by decide) .nil)

theorem written_read_back_of_method :
    let reading : Reading :=
      ⟨[.block 1 (.classType "A".toList)
          [.block 2 (.function "f".toList [⟨"a".toList, none, none⟩] none)
            [.leaf 3 (.returning (some "a".toList))]],
        .leaf 4 (.assign "x".toList none "1".toList)], []⟩
    nest? 4 (unlines methodLines) = some reading ∧ nest 4 (unlines methodLines) = reading := by
  have written : Written 4 0 methodTree methodLines :=
    .cons .none
      (.cons (.tab .none) (.cons (.tab (.spaces .none)) (.nil _) (.nil _)) (.nil _))
      (.cons .none (.nil _) (.nil _))
  obtain ⟨checked, -, unchecked⟩ := written_read_back (by decide) written wellNested_method
  have fits : ∀ l ∈ methodLines, exactColumns 4 l < wordSize := by decide
  exact ⟨checked.2 fits, unchecked.2 fits⟩

/-- Half of a machine word, which the settings may have as their unit. -/
def halfWord : Nat := 0x8000000000000000

/-- The lines of the same tree with tabs only. -/
def tabbedMethodLines : List Text :=
  ["class A:".toList, "\tdef f(a):".toList, "\t\treturn a".toList, "x = 1".toList]

/-- With a unit of half a word, two tabs are a column too many for a word. -/
theorem tabbed_method_unread :
    1 ≤ halfWord ∧ Written halfWord 0 methodTree tabbedMethodLines ∧ WellNested methodTree ∧
      nest? halfWord (unlines tabbedMethodLines) = none ∧
      nest halfWord (unlines tabbedMethodLines) ≠ ⟨nodesFrom 1 methodTree, []⟩ := by
  have written : Written halfWord 0 methodTree tabbedMethodLines :=
    .cons .none (.cons (.tab .none) (.cons (.tab (.tab .none)) (.nil _) (.nil _)) (.nil _))
      (.cons .none (.nil _) (.nil _))
  have wide : 1 ≤ halfWord := by decide
  have deepest : "\t\treturn a".toList ∈ tabbedMethodLines := by decide
  have full : wordSize ≤ exactColumns halfWord "\t\treturn a".toList := by decide
  refine ⟨wide, written, wellNested_method, ?_, fun read => ?_⟩
  · rw [nest?_eq_none_iff, measuredLines_written written wellNested_method]
    exact ⟨_, deepest, full⟩
  · have fits := (nest_written_iff wide written wellNested_method).1 read _ deepest
    exact absurd full (Nat.not_le_of_lt fits)

end Script

end SwiftDraft
