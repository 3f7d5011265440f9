import SwiftDraft.Draft.Printer
import SwiftDraft.Proofs.Widths
import SwiftDraft.Workbench.Provider

/-!
# Spaces in front of the lines of a draft

The spaces in front of a statement of a draft are columns of its line, so they always fit in a
machine word; only blank lines and comments may stand a level deeper than any line was indented
(`exactlyIndented_iff_silent`). A writer with overflow checks never comes to such a line: one with
half a word of spaces stands before it (`ends_ofScript?`).
-/

namespace SwiftDraft

/-- A unit that passes the check of the settings has a column. -/
theorem Workbench.Config.indentWidth_pos {config : Config} (usable : config.bad? = none) :
    0 < config.indentWidth := by
  refine Nat.pos_of_ne_zero fun zero => ?_
  rw [bad?, if_pos zero] at usable
  cases usable

namespace Draft

open Text
open Workbench (Config)
open Script (Header Simple Node Standing standings nest nest? nestExactly measuredLines halfWord
  forest_induction logicalLines logicalLinesFrom_single logicalLinesFrom_nil unexpectedIndent
  nest?_eq_none_iff nest?_eq_some_iff fits_measuredLines depth_mul_lt_of_spoken)

section

variable {depth : Nat} {ns : List Node}

theorem blockLines_leaf (number : Nat) (s : Simple) :
    blockLines depth (.leaf number s :: ns) =
      (simpleLines s).map (Line.mk depth) ++ blockLines depth ns := rfl

theorem blockLines_block (number : Nat) (h : Header) (body : List Node) :
    blockLines depth (.block number h body :: ns) = ⟨depth, openingLine h⟩ ::
      (blockLines (depth + 1) body ++ (closingLines h depth ++ blockLines depth ns)) := by
  simp [blockLines, nodeLines]

theorem depth_of_mem_closingLines {h : Header} {l : Line} (mem : l ∈ closingLines h depth) :
    l.depth = depth := by
  unfold closingLines at mem
  split at mem
  · rw [List.mem_singleton.1 mem]
  · cases mem

/-- Every line of a draft stands where a statement does. -/
theorem exists_standing {l : Line} (mem : l ∈ blockLines depth ns) :
    ∃ p ∈ standings depth ns, p.depth = l.depth := by
  induction ns using forest_induction generalizing depth with
  | nil => cases mem
  | leaf number s ns ih =>
    rw [blockLines_leaf] at mem
    rcases List.mem_append.1 mem with here | later
    · obtain ⟨t, -, rfl⟩ := List.mem_map.1 here
      exact ⟨⟨depth, number, .simple s⟩, List.mem_cons_self, rfl⟩
    · obtain ⟨p, inTree, same⟩ := ih later
      exact ⟨p, List.mem_cons_of_mem _ inTree, same⟩
  | block number h body ns ihBody ih =>
    rw [blockLines_block, List.mem_cons, List.mem_append, List.mem_append] at mem
    have header : (⟨depth, number, .header h⟩ : Standing) ∈
        standings depth (.block number h body :: ns) := List.mem_cons_self
    rcases mem with rfl | inside | brace | later
    · exact ⟨_, header, rfl⟩
    · obtain ⟨p, inTree, same⟩ := ihBody inside
      exact ⟨p, List.mem_cons_of_mem _ (List.mem_append_left _ inTree), same⟩
    · exact ⟨_, header, (depth_of_mem_closingLines brace).symm⟩
    · obtain ⟨p, inTree, same⟩ := ih later
      exact ⟨p, List.mem_cons_of_mem _ (List.mem_append_right _ inTree), same⟩

/-- A blank line and a comment have a line of their own in a draft. -/
theorem exists_line_of_silent {p : Standing} (mem : p ∈ standings depth ns)
    (silent : p.statement.isSilent) : ∃ l ∈ blockLines depth ns, l.depth = p.depth := by
  induction ns using forest_induction generalizing depth with
  | nil => cases mem
  | leaf number s ns ih =>
    rw [blockLines_leaf]
    rcases List.mem_cons.1 mem with rfl | later
    · obtain ⟨t, only⟩ : ∃ t, simpleLines s = [t] := by
        cases s with
        | blank | comment text => exact ⟨_, rfl⟩
        | _ => cases silent
      exact ⟨⟨depth, t⟩, List.mem_append_left _ (by rw [only]; exact List.mem_cons_self), rfl⟩
    · obtain ⟨l, inDraft, same⟩ := ih later
      exact ⟨l, List.mem_append_right _ inDraft, same⟩
  | block number h body ns ihBody ih =>
    rw [blockLines_block]
    rcases List.mem_cons.1 mem with rfl | further
    · cases silent
    · rcases List.mem_append.1 further with inside | later
      · obtain ⟨l, inDraft, same⟩ := ihBody inside
        exact ⟨l, List.mem_cons_of_mem _ (List.mem_append_left _ inDraft), same⟩
      · obtain ⟨l, inDraft, same⟩ := ih later
        exact ⟨l, List.mem_cons_of_mem _
          (List.mem_append_right _ (List.mem_append_right _ inDraft)), same⟩

theorem le_depth_of_mem {l : Line} (mem : l ∈ blockLines depth ns) : depth ≤ l.depth := by
  rw [← map_line_printed] at mem
  obtain ⟨p, inDraft, rfl⟩ := List.mem_map.1 mem
  exact le_depth_of_mem_printed inDraft

end

/-- Each line deeper than `base` comes behind one that is a level less deep and has a property. -/
def Stepped (P : Line → Prop) (base : Nat) (ls : List Line) : Prop :=
  ∀ before l after, ls = before ++ l :: after → base < l.depth →
    ∃ opener ∈ before, opener.depth + 1 = l.depth ∧ P opener

namespace Stepped

variable {P : Line → Prop} {base : Nat} {ls ms : List Line}

theorem of_flat (flat : ∀ l ∈ ls, l.depth = base) : Stepped P base ls := by
  rintro before l after rfl deeper
  have := flat l (List.mem_append_right _ List.mem_cons_self)
  omega

theorem append (first : Stepped P base ls) (second : Stepped P base ms) :
    Stepped P base (ls ++ ms) := by
  intro before l after split deeper
  rcases List.append_eq_append_iff.1 split with ⟨front, rfl, behind⟩ | ⟨front, rfl, behind⟩
  · obtain ⟨opener, mem, step⟩ := second front l after behind deeper
    exact ⟨opener, List.mem_append_right _ mem, step⟩
  · cases front with
    | nil =>
      obtain ⟨opener, mem, step⟩ := second [] l after behind.symm deeper
      cases mem
    | cons c front =>
      obtain ⟨rfl, -⟩ := List.cons.inj behind
      exact first before l front rfl deeper

/-- The lines of a block behind the one that opens it. -/
theorem block {t : Text} (opens : P ⟨base, t⟩) (inner : Stepped P (base + 1) ls)
    (deep : ∀ l ∈ ls, base + 1 ≤ l.depth) : Stepped P base (⟨base, t⟩ :: ls) := by
  intro before l after split deeper
  cases before with
  | nil =>
    obtain ⟨rfl, -⟩ := List.cons.inj split
    exact absurd deeper (Nat.lt_irrefl _)
  | cons first before =>
    obtain ⟨rfl, rfl⟩ := List.cons.inj split
    have least := deep l (List.mem_append_right _ List.mem_cons_self)
    by_cases direct : l.depth = base + 1
    · exact ⟨⟨base, t⟩, List.mem_cons_self, direct.symm, opens⟩
    · obtain ⟨opener, mem, step⟩ := inner before l after rfl (by omega)
      exact ⟨opener, List.mem_cons_of_mem _ mem, step⟩

end Stepped

/-- A line inside a block comes behind the one that opens this block. -/
theorem stepped_blockLines {P : Line → Prop} {depth : Nat} {ns : List Node}
    (opens : ∀ d n h, (⟨d, n, .header h⟩ : Standing) ∈ standings depth ns → P ⟨d, openingLine h⟩) :
    Stepped P depth (blockLines depth ns) := by
  induction ns using forest_induction generalizing depth with
  | nil => exact .of_flat (List.forall_mem_nil _)
  | leaf number s ns ih =>
    rw [blockLines_leaf]
    refine .append (.of_flat (List.forall_mem_map.2 fun t _ => rfl)) (ih fun d n h mem => ?_)
    exact opens d n h (List.mem_cons_of_mem _ mem)
  | block number h body ns ihBody ih =>
    rw [blockLines_block, ← List.cons_append]
    refine .append (.block ?_ (ihBody fun d n g mem => ?_) fun l => le_depth_of_mem)
      (.append (.of_flat fun l => depth_of_mem_closingLines) (ih fun d n g mem => ?_))
    · exact opens depth number h List.mem_cons_self
    · exact opens d n g (List.mem_cons_of_mem _ (List.mem_append_left _ mem))
    · exact opens d n g (List.mem_cons_of_mem _ (List.mem_append_right _ mem))

theorem openingLine_ne_nil (h : Header) : openingLine h ≠ [] := by
  cases h with
  | unsupported header => exact List.append_ne_nil_of_left_ne_nil (by decide) header
  | _ => exact List.append_ne_nil_of_right_ne_nil _ (by decide)

section

variable {unit : Nat}

theorem render?_ok {l : Line} {t : Text} (written : l.render? unit = .ok t) :
    t = l.render unit ∧ (l.text ≠ [] → l.depth * unit < textLimit) := by
  unfold Line.render? at written
  split at written
  · next empty =>
    cases written
    exact ⟨rfl, fun filled => absurd empty filled⟩
  · split at written
    · cases written
    · split at written
      · cases written
      · next short =>
        cases written
        exact ⟨rfl, fun _ => Nat.lt_of_not_le short⟩

theorem render?_error {l : Line} {stop : Stop} (stopped : l.render? unit = .error stop) :
    stop = .spaces ∧ wordSize ≤ l.depth * unit ∨
      stop = .capacity ∧ l.text ≠ [] ∧ textLimit ≤ l.depth * unit := by
  unfold Line.render? at stopped
  split at stopped
  · cases stopped
  · next filled =>
    split at stopped
    · next overflow =>
      cases stopped
      exact .inl ⟨rfl, overflow⟩
    · split at stopped
      · next long =>
        cases stopped
        exact .inr ⟨rfl, filled, long⟩
      · cases stopped

/-- All lines are written, or the writing stops at the first that cannot be. -/
theorem mapM_render?_cases (unit : Nat) (ls : List Line) :
    ls.mapM (Line.render? unit) = .ok (ls.map (Line.render unit)) ∧
        (∀ l ∈ ls, l.text ≠ [] → l.depth * unit < textLimit) ∨
      ∃ before l after stop, ls = before ++ l :: after ∧
        (∀ o ∈ before, o.text ≠ [] → o.depth * unit < textLimit) ∧
        l.render? unit = .error stop ∧ ls.mapM (Line.render? unit) = .error stop := by
  induction ls with
  | nil => exact .inl ⟨rfl, List.forall_mem_nil _⟩
  | cons l ls ih =>
    rw [List.mapM_cons]
    cases here : l.render? unit with
    | error stop => exact .inr ⟨[], l, ls, stop, rfl, List.forall_mem_nil _, here, rfl⟩
    | ok t =>
      obtain ⟨rfl, fits⟩ := render?_ok here
      rcases ih with ⟨written, fitting⟩ | ⟨before, o, after, stop, rfl, fitting, stops, stopped⟩
      · rw [written]
        exact .inl ⟨rfl, List.forall_mem_cons.2 ⟨fits, fitting⟩⟩
      · rw [stopped]
        exact .inr ⟨l :: before, o, after, stop, rfl, List.forall_mem_cons.2 ⟨fits, fitting⟩, stops,
          rfl⟩

end

/-- A script is read and written with the indentation that it has: nothing that is counted or
multiplied for it leaves a machine word, so that no line is taken for one of another level and the
reading does not stop at one. -/
structure ExactlyIndented (unit : Nat) (source : Text) : Prop where
  widths : ∀ l ∈ lines source, exactColumns unit l < wordSize
  spaces : ∀ l ∈ blockLines 0 (nest unit source).nodes, l.depth * unit < wordSize
  levels : ∀ l ∈ lines source, columns unit l / unit = exactColumns unit l / unit
  unchecked : nest unit source = nestExactly unit source
  checked : nest? unit source = some (nestExactly unit source)

section

variable {unit : Nat} {generatedAt source : Text}

theorem ExactlyIndented.mk_of_fits (fits : ∀ l ∈ lines source, exactColumns unit l < wordSize)
    (spaces : ∀ l ∈ blockLines 0 (nest unit source).nodes, l.depth * unit < wordSize) :
    ExactlyIndented unit source := by
  have exact : nest unit source = nestExactly unit source := Script.nest_eq_nestExactly fits
  exact {
    widths := fits
    spaces
    levels := fun l mem => by rw [columns_of_lt (fits l mem)]
    unchecked := exact
    checked := nest?_eq_some_iff.2 ⟨fits_measuredLines fits, exact⟩ }

/-- What stands in front of the lines of a draft fits in a word if it does for those of blank lines
and comments. -/
theorem spaces_fit_of_silent (silent : ∀ p ∈ standings 0 (nest unit source).nodes,
    p.statement.isSilent → p.depth * unit < wordSize) :
    ∀ l ∈ blockLines 0 (nest unit source).nodes, l.depth * unit < wordSize := by
  intro l mem
  obtain ⟨p, inTree, same⟩ := exists_standing mem
  rw [← same]
  cases kind : p.statement.isSilent with
  | true => exact silent p inTree kind
  | false => exact depth_mul_lt_of_spoken inTree kind

theorem exactlyIndented_iff_silent : ExactlyIndented unit source ↔
    (∀ l ∈ lines source, exactColumns unit l < wordSize) ∧
      ∀ p ∈ standings 0 (nest unit source).nodes, p.statement.isSilent →
        p.depth * unit < wordSize := by
  refine ⟨fun exact => ⟨exact.widths, fun p mem silent => ?_⟩, fun ⟨fits, silent⟩ => ?_⟩
  · obtain ⟨l, inDraft, same⟩ := exists_line_of_silent mem silent
    rw [← same]
    exact exact.spaces l inDraft
  · exact .mk_of_fits fits (spaces_fit_of_silent silent)

/-- Spaces that do not fit in a word only come behind a line with at least half a word of them. -/
theorem half_word_before_overflow (word : unit < wordSize) {before after : List Line} {l : Line}
    (split : blockLines 0 (nest unit source).nodes = before ++ l :: after)
    (wide : wordSize ≤ l.depth * unit) :
    ∃ opener ∈ before, opener.text ≠ [] ∧ opener.depth * unit < wordSize ∧
      wordSize ≤ 2 * (opener.depth * unit) := by
  have stepped : Stepped (fun o => o.text ≠ [] ∧ o.depth * unit < wordSize) 0
      (blockLines 0 (nest unit source).nodes) :=
    stepped_blockLines fun d n h mem =>
      ⟨openingLine_ne_nil h, depth_mul_lt_of_spoken mem rfl⟩
  have deep : l.depth ≠ 0 := by
    intro outermost
    rw [outermost, Nat.zero_mul] at wide
    exact absurd wide (by decide)
  obtain ⟨opener, mem, step, filled, fits⟩ := stepped before l after split (by omega)
  refine ⟨opener, mem, filled, fits, ?_⟩
  rw [← step, Nat.succ_mul] at wide
  -- The opener itself is indented: a single unit fits in a word.
  have inside : 1 ≤ opener.depth := by
    by_contra outermost
    rw [Nat.lt_one_iff.1 (Nat.lt_of_not_le outermost)] at wide
    omega
  have unit_le := Nat.le_mul_of_pos_left unit inside
  omega

/-- A short script is read and written exactly, whatever is in it. -/
theorem exactlyIndented_of_length (positive : 0 < unit) (short : source.length * unit < wordSize) :
    ExactlyIndented unit source := by
  refine .mk_of_fits (fun l mem => ?_) fun l mem => ?_
  · calc exactColumns unit l ≤ l.length * unit := exactColumns_le positive l
      _ ≤ source.length * unit := Nat.mul_le_mul_right unit (length_le_of_mem_lines mem)
      _ < wordSize := short
  · obtain ⟨p, inTree, same⟩ := exists_standing mem
    have shallow := Script.depth_lt_length inTree
    calc l.depth * unit ≤ source.length * unit := Nat.mul_le_mul_right unit (by omega)
      _ < wordSize := short

/-- Tabs alone make a script of any length too wide. -/
theorem lt_wordSize_of_tabs {n : Nat} (exact : ExactlyIndented unit (List.replicate n '\t')) :
    n * unit < wordSize := by
  cases n with
  | zero => rw [Nat.zero_mul]; decide
  | succ n =>
    have plain : '\n' ∉ List.replicate (n + 1) '\t' := fun mem =>
      absurd (List.eq_of_mem_replicate mem) (by decide)
    have only := lines_last plain (List.cons_ne_nil _ _)
    have fits := exact.widths _ (only ▸ List.mem_singleton.2 rfl)
    rwa [exactColumns_replicate_tab] at fits

theorem effectiveUnit_of_pos (positive : 0 < unit) : effectiveUnit unit = unit :=
  Nat.max_eq_left positive

theorem ofScript?_of_fits (positive : 0 < unit) (generatedAt : Text)
    (fits : ∀ l ∈ measuredLines unit source, exactColumns unit l < wordSize) :
    ofScript? unit generatedAt source =
      (render? unit (nest unit source).nodes).map fun body =>
        ⟨header generatedAt ++ body, (nest unit source).warnings⟩ := by
  have read : nest? unit source = some (nest unit source) := nest?_eq_some_iff.2 ⟨fits, rfl⟩
  simp only [ofScript?, effectiveUnit_of_pos positive, read]

theorem ofScript?_of_wide (positive : 0 < unit) (generatedAt : Text)
    (wide : ∃ l ∈ measuredLines unit source, wordSize ≤ exactColumns unit l) :
    ofScript? unit generatedAt source = .error .columns := by
  have read : nest? unit source = none := nest?_eq_none_iff.2 wide
  simp only [ofScript?, effectiveUnit_of_pos positive, read]

/-- What may come of a script with overflow checks. -/
inductive Ends (unit : Nat) (generatedAt source : Text) : Except Stop Draft → Prop
  | columns (wide : ∃ l ∈ measuredLines unit source, wordSize ≤ exactColumns unit l) :
      Ends unit generatedAt source (.error .columns)
  | capacity (fits : ∀ l ∈ measuredLines unit source, exactColumns unit l < wordSize)
      (long : ∃ l ∈ blockLines 0 (nest unit source).nodes,
        l.text ≠ [] ∧ textLimit ≤ l.depth * unit) :
      Ends unit generatedAt source (.error .capacity)
  | draft (fits : ∀ l ∈ measuredLines unit source, exactColumns unit l < wordSize)
      (short : ∀ l ∈ blockLines 0 (nest unit source).nodes,
        l.text ≠ [] → l.depth * unit < textLimit) :
      Ends unit generatedAt source (.ok (ofScript unit generatedAt source))

/-- The product for a line never overflows: the writing has stopped before, at a line with half a
word of spaces. -/
theorem ends_ofScript? (positive : 0 < unit) (word : unit < wordSize) (generatedAt source : Text) :
    Ends unit generatedAt source (ofScript? unit generatedAt source) := by
  by_cases wide : ∃ l ∈ measuredLines unit source, wordSize ≤ exactColumns unit l
  · rw [ofScript?_of_wide positive generatedAt wide]
    exact .columns wide
  · have fits : ∀ l ∈ measuredLines unit source, exactColumns unit l < wordSize :=
      fun l mem => Nat.lt_of_not_le fun full => wide ⟨l, mem, full⟩
    rw [ofScript?_of_fits positive generatedAt fits, render?]
    rcases mapM_render?_cases unit (blockLines 0 (nest unit source).nodes) with
      ⟨written, short⟩ | ⟨before, l, after, stop, split, short, stops, stopped⟩
    · have same : ofScript unit generatedAt source =
          ⟨header generatedAt ++ render unit (nest unit source).nodes,
            (nest unit source).warnings⟩ := by
        rw [ofScript, effectiveUnit_of_pos positive]
      have made : Ends unit generatedAt source _ := .draft fits short
      rw [same, render, List.flatMap_def] at made
      rw [written]
      exact made
    · rcases render?_error stops with ⟨rfl, overflow⟩ | ⟨rfl, long⟩
      · obtain ⟨opener, mem, filled, -, half⟩ := half_word_before_overflow word split overflow
        have less := short opener mem filled
        unfold textLimit at less
        omega
      · rw [stopped]
        exact .capacity fits ⟨l, split ▸ List.mem_append_right _ List.mem_cons_self, long⟩

namespace Ends

variable {result : Except Stop Draft}

theorem eq_columns_iff (ends : Ends unit generatedAt source result) : result = .error .columns ↔
    ∃ l ∈ measuredLines unit source, wordSize ≤ exactColumns unit l := by
  cases ends with
  | columns wide => exact iff_of_true rfl wide
  | capacity fits | draft fits =>
    refine iff_of_false nofun fun ⟨l, mem, wide⟩ => ?_
    exact absurd wide (Nat.not_le_of_lt (fits l mem))

theorem eq_capacity_iff (ends : Ends unit generatedAt source result) : result = .error .capacity ↔
    (∀ l ∈ measuredLines unit source, exactColumns unit l < wordSize) ∧
      ∃ l ∈ blockLines 0 (nest unit source).nodes, l.text ≠ [] ∧ textLimit ≤ l.depth * unit := by
  cases ends with
  | columns wide =>
    obtain ⟨l, mem, wide⟩ := wide
    exact iff_of_false nofun fun ⟨fits, _⟩ => absurd wide (Nat.not_le_of_lt (fits l mem))
  | capacity fits long => exact iff_of_true rfl ⟨fits, long⟩
  | draft fits short =>
    refine iff_of_false nofun fun ⟨_, l, mem, filled, long⟩ => ?_
    exact absurd long (Nat.not_le_of_lt (short l mem filled))

theorem eq_ok_iff (ends : Ends unit generatedAt source result) {draft : Draft} :
    result = .ok draft ↔ draft = ofScript unit generatedAt source ∧
      (∀ l ∈ measuredLines unit source, exactColumns unit l < wordSize) ∧
      ∀ l ∈ blockLines 0 (nest unit source).nodes, l.text ≠ [] → l.depth * unit < textLimit := by
  cases ends with
  | columns wide =>
    obtain ⟨l, mem, wide⟩ := wide
    exact iff_of_false nofun fun ⟨_, fits, _⟩ => absurd wide (Nat.not_le_of_lt (fits l mem))
  | capacity fits long =>
    obtain ⟨l, mem, filled, long⟩ := long
    refine iff_of_false nofun fun ⟨_, _, short⟩ => ?_
    exact absurd long (Nat.not_le_of_lt (short l mem filled))
  | draft fits short =>
    rw [Except.ok.injEq]
    exact ⟨fun same => ⟨same.symm, fits, short⟩, fun ⟨same, _⟩ => same.symm⟩

theorem ne_spaces (ends : Ends unit generatedAt source result) : result ≠ .error .spaces := by
  cases ends <;> exact nofun

end Ends

end

/-- Which indentation is exact, for every unit that the settings may have. A script is indented
exactly if and only if the blanks in front of each of its lines are columns that fit in a word, and
no blank line or comment in its blocks stands so deep that the spaces in front of it do not. With
overflow checks no draft is made if a line whose columns are counted is too wide, or else a line of
the draft would have more spaces than a text can; a product never overflows, and in all other cases
the draft is the one that is made without the checks. Without them, a line is read at its level if
and only if its own columns fit. And all scripts up to a length are indented exactly if and only if
as many units fit in a word. -/
theorem exactlyIndented_iff {config : Config} (usable : config.bad? = none)
    (word : config.indentWidth < wordSize) :
    let unit := config.indentWidth
    (∀ source, ExactlyIndented unit source ↔
      (∀ l ∈ lines source, tabs l * unit + otherBlanks l < wordSize) ∧
        ∀ p ∈ standings 0 (nest unit source).nodes, p.statement.isSilent →
          p.depth * unit < wordSize) ∧
    (∀ generatedAt source,
      (ofScript? unit generatedAt source = .error .columns ↔
        ∃ l ∈ measuredLines unit source, wordSize ≤ tabs l * unit + otherBlanks l) ∧
      (ofScript? unit generatedAt source = .error .capacity ↔
        (∀ l ∈ measuredLines unit source, tabs l * unit + otherBlanks l < wordSize) ∧
          ∃ l ∈ blockLines 0 (nest unit source).nodes,
            l.text ≠ [] ∧ textLimit ≤ l.depth * unit) ∧
      ofScript? unit generatedAt source ≠ .error .spaces ∧
      ∀ draft, ofScript? unit generatedAt source = .ok draft ↔
        draft = ofScript unit generatedAt source ∧
          (∀ l ∈ measuredLines unit source, tabs l * unit + otherBlanks l < wordSize) ∧
          ∀ l ∈ blockLines 0 (nest unit source).nodes,
            l.text ≠ [] → l.depth * unit < textLimit) ∧
    (∀ l, columns unit l / unit = exactColumns unit l / unit ↔
      tabs l * unit + otherBlanks l < wordSize) ∧
    ∀ n, (∀ source, source.length ≤ n → ExactlyIndented unit source) ↔ n * unit < wordSize := by
  intro unit
  have positive : 0 < unit := Config.indentWidth_pos usable
  simp only [← exactColumns_eq]
  refine ⟨fun source => exactlyIndented_iff_silent, fun generatedAt source => ?stops,
    fun l => level_eq_iff positive word l, fun n => ⟨fun exact => ?wide, ?short⟩⟩
  case stops =>
    have ends := ends_ofScript? positive word generatedAt source
    exact ⟨ends.eq_columns_iff, ends.eq_capacity_iff, ends.ne_spaces, fun draft => ends.eq_ok_iff⟩
  case wide => exact lt_wordSize_of_tabs (exact _ (List.length_replicate).le)
  case short =>
    intro fits source short
    exact exactlyIndented_of_length positive
      (Nat.lt_of_le_of_lt (Nat.mul_le_mul_right unit short) fits)

/-- With the unit of four columns, scripts are indented exactly up to a quarter of a word of
characters, and no product overflows for any. -/
theorem exactlyIndented_iff_of_four :
    (Config.mk 4 256).bad? = none ∧ 4 < wordSize ∧
      (∀ source : Text, source.length ≤ 0x3FFFFFFFFFFFFFFF → ExactlyIndented 4 source) ∧
      ∀ generatedAt source, ofScript? 4 generatedAt source ≠ .error .spaces := by
  have usable : (Config.mk 4 256).bad? = none := rfl
  have word : (Config.mk 4 256).indentWidth < wordSize := by decide
  obtain ⟨-, stops, -, byLength⟩ := exactlyIndented_iff usable word
  refine ⟨usable, word, (byLength 0x3FFFFFFFFFFFFFFF).2 (by decide), fun generatedAt source => ?_⟩
  obtain ⟨-, -, never, -⟩ := stops generatedAt source
  exact never

/-- An assignment that is indented by two levels, where there is no block. -/
def tabbedAssignment : Text := "\t\tx = 1".toList

/-- A comment in a block of a block. -/
def nestedComment : Text := "if a:\n\tif b:\n# c".toList

theorem logicalLines_tabbedAssignment : logicalLines halfWord tabbedAssignment =
    [⟨1, 1, some 0, .simple (.assign "x".toList none "1".toList)⟩] := by
  have split : lines tabbedAssignment = ["\t\tx = 1".toList] := by decide
  rw [logicalLines, split, logicalLinesFrom_single (by decide), logicalLinesFrom_nil]
  decide

theorem logicalLines_nestedComment : logicalLines halfWord nestedComment =
    [⟨1, 1, some 0, .header (.ifTest "a".toList)⟩,
      ⟨2, 1, some halfWord, .header (.ifTest "b".toList)⟩,
      ⟨3, 1, none, .simple (.comment " c".toList)⟩] := by
  have split : lines nestedComment = ["if a:".toList, "\tif b:".toList, "# c".toList] := by decide
  rw [logicalLines, split, logicalLinesFrom_single (by decide), logicalLinesFrom_single (by decide),
    logicalLinesFrom_single (by decide), logicalLinesFrom_nil]
  decide

/-- A unit may be so wide that two tabs are a word of columns. With overflow checks no draft is made
of such a script. Without them the tabs count as no column: the statement behind them is read as one
that is not indented, and without the warning that it deserves. And the columns of all lines may fit
in words where the spaces in front of a comment do not. -/
theorem wide_unit_stops :
    (Config.mk halfWord 256).bad? = none ∧ halfWord < wordSize ∧
    (exactColumns halfWord tabbedAssignment = wordSize ∧
      (∀ generatedAt, ofScript? halfWord generatedAt tabbedAssignment = .error .columns) ∧
      columns halfWord tabbedAssignment = 0 ∧
      (nest halfWord tabbedAssignment).warnings = [] ∧
      (nestExactly halfWord tabbedAssignment).warnings = [unexpectedIndent 1] ∧
      ¬ ExactlyIndented halfWord tabbedAssignment) ∧
    ((∀ l ∈ lines nestedComment, exactColumns halfWord l < wordSize) ∧
      (∃ l ∈ blockLines 0 (nest halfWord nestedComment).nodes,
        l.text = "// c".toList ∧ l.depth * halfWord = wordSize) ∧
      ¬ ExactlyIndented halfWord nestedComment) := by
  have width : exactColumns halfWord tabbedAssignment = wordSize := by decide
  have only : lines tabbedAssignment = [tabbedAssignment] := by decide
  have inDraft : (⟨2, "// c".toList⟩ : Line) ∈
      blockLines 0 (nest halfWord nestedComment).nodes := by
    rw [nest, logicalLines_nestedComment]
    decide
  have spaces : 2 * halfWord = wordSize := by decide
  refine ⟨by decide, by decide, ⟨width, fun generatedAt => ?_, by decide, ?_, ?_, fun exact => ?_⟩,
    by decide, ⟨_, inDraft, rfl, spaces⟩, fun exact => ?_⟩
  · have measured : measuredLines halfWord tabbedAssignment = [tabbedAssignment] := by
      rw [measuredLines, logicalLines_tabbedAssignment, only]
      rfl
    apply ofScript?_of_wide (by decide)
    rw [measured]
    exact ⟨_, List.mem_singleton.2 rfl, width.ge⟩
  · rw [nest, logicalLines_tabbedAssignment]
    decide
  · rw [nestExactly, logicalLines_tabbedAssignment]
    decide
  · have fits := exact.widths tabbedAssignment (only ▸ List.mem_singleton.2 rfl)
    exact absurd width fits.ne
  · exact absurd spaces (exact.spaces _ inDraft).ne

end Draft

end SwiftDraft
