import SwiftDraft.Proofs.Pieces
import SwiftDraft.Script.LogicalLine
import Mathlib.Data.List.Basic

/-!
# Physical and logical lines

How a statement gathers its physical lines (`Absorbs`), and how the logical lines of a script tile
its physical ones: each is read from its own lines, whatever stands behind them (`split_of_mem`).
-/

namespace SwiftDraft.Script

open Text

/-- What has been read of a statement: its text, and how many brackets are open. -/
structure Gathered where
  text : Text
  depth : Int
  deriving DecidableEq, Repr

namespace Gathered

/-- The first line of a statement. -/
def start (l : Text) : Gathered := ⟨trim l, bracketDelta (trim l)⟩

/-- The next line of a statement; it replaces a backslash at the end of the text. -/
def absorb (g : Gathered) (l : Text) : Gathered where
  text := trimEnd (if g.text.getLast? = some '\\' then g.text.dropLast else g.text) ++ ' ' :: trim l
  depth := g.depth + bracketDelta (trim l)

/-- The statement is not over. -/
def GoesOn (g : Gathered) : Prop := 0 < g.depth ∨ g.text.getLast? = some '\\'

instance (g : Gathered) : Decidable g.GoesOn := inferInstanceAs (Decidable (_ ∨ _))

end Gathered

/-- A statement takes lines in as long as it is not over. -/
inductive Absorbs : Gathered → List Text → Gathered → Prop
  | nil (g : Gathered) : Absorbs g [] g
  | cons {g g' : Gathered} {l : Text} {ls : List Text} (on : g.GoesOn)
      (rest : Absorbs (g.absorb l) ls g') : Absorbs g (l :: ls) g'

theorem continued_nil (g : Gathered) : continued g.text g.depth [] = (g.text, 0) := rfl

theorem continued_stop {g : Gathered} (ends : ¬ g.GoesOn) (ls : List Text) :
    continued g.text g.depth ls = (g.text, 0) := by
  cases ls with
  | nil => rfl
  | cons l ls =>
    unfold Gathered.GoesOn at ends
    rw [continued, if_neg ends]

theorem continued_absorb {g : Gathered} (on : g.GoesOn) (l : Text) (ls : List Text) :
    continued g.text g.depth (l :: ls) =
      ((continued (g.absorb l).text (g.absorb l).depth ls).1,
        (continued (g.absorb l).text (g.absorb l).depth ls).2 + 1) := by
  unfold Gathered.GoesOn at on
  rw [continued, if_pos on]
  rfl

theorem continued_of_absorbs {g g' : Gathered} {ls : List Text} (taken : Absorbs g ls g')
    {rest : List Text} (stops : rest = [] ∨ ¬ g'.GoesOn) :
    continued g.text g.depth (ls ++ rest) = (g'.text, ls.length) := by
  induction taken with
  | nil g =>
    rcases stops with rfl | ends
    · exact continued_nil g
    · exact continued_stop ends rest
  | cons on _ ih => rw [List.cons_append, continued_absorb on, ih stops, List.length_cons]

theorem exists_absorbs (g : Gathered) (ls : List Text) :
    ∃ taken rest g', ls = taken ++ rest ∧ Absorbs g taken g' ∧ (rest = [] ∨ ¬ g'.GoesOn) := by
  induction ls generalizing g with
  | nil => exact ⟨[], [], g, rfl, .nil g, Or.inl rfl⟩
  | cons l ls ih =>
    by_cases on : g.GoesOn
    · obtain ⟨taken, rest, g', rfl, absorbs, stops⟩ := ih (g.absorb l)
      exact ⟨l :: taken, rest, g', rfl, .cons on absorbs, stops⟩
    · exact ⟨[], l :: ls, g, rfl, .nil g, Or.inr on⟩

theorem Absorbs.eq_foldl {g g' : Gathered} {ls : List Text} (taken : Absorbs g ls g') :
    g' = ls.foldl Gathered.absorb g := by
  induction taken with
  | nil => rfl
  | cons _ _ ih => exact ih

theorem absorbs_append_iff {g g' : Gathered} {ls more : List Text} :
    Absorbs g (ls ++ more) g' ↔
      Absorbs g ls (ls.foldl Gathered.absorb g) ∧
        Absorbs (ls.foldl Gathered.absorb g) more g' := by
  induction ls generalizing g with
  | nil => exact ⟨fun h => ⟨.nil g, h⟩, fun h => h.2⟩
  | cons l ls ih =>
    constructor
    · rintro (_ | ⟨on, rest⟩)
      exact ⟨.cons on (ih.1 rest).1, (ih.1 rest).2⟩
    · rintro ⟨_ | ⟨on, rest⟩, behind⟩
      exact .cons on (ih.2 ⟨rest, behind⟩)

/-- A line that starts a statement which is neither a comment nor a docstring. -/
def IsCode (l : Text) : Prop :=
  trim l ≠ [] ∧ (trim l).head? ≠ some '#' ∧ docstringStart? (trim l) = none

instance (l : Text) : Decidable (IsCode l) := inferInstanceAs (Decidable (_ ∧ _ ∧ _))

theorem docstringStart?_eq_some {s quotes first : Text}
    (starts : docstringStart? s = some (quotes, first)) :
    (quotes = "\"\"\"".toList ∨ quotes = "'''".toList) ∧ s = quotes ++ first := by
  unfold docstringStart? at starts
  split at starts
  · next rest found =>
    cases starts
    exact ⟨Or.inl rfl, after?_eq_some_iff.1 found⟩
  · obtain ⟨rest, found, made⟩ := Option.map_eq_some_iff.1 starts
    cases made
    exact ⟨Or.inr rfl, after?_eq_some_iff.1 found⟩

theorem head_of_docstringStart {s quotes first : Text}
    (starts : docstringStart? s = some (quotes, first)) :
    ∃ c rest, s = c :: rest ∧ isQuote c := by
  obtain ⟨rfl | rfl, rfl⟩ := docstringStart?_eq_some starts
  · exact ⟨'"', _, rfl, rfl⟩
  · exact ⟨'\'', _, rfl, rfl⟩

/-- The four kinds of lines that a logical line starts with. -/
theorem line_cases (l : Text) :
    trim l = [] ∨ (∃ text, trim l = '#' :: text) ∨
      (∃ quotes first, docstringStart? (trim l) = some (quotes, first)) ∨ IsCode l := by
  cases shape : trim l with
  | nil => exact Or.inl rfl
  | cons c rest =>
    by_cases comment : c = '#'
    · exact Or.inr (Or.inl ⟨rest, by rw [comment]⟩)
    · cases starts : docstringStart? (c :: rest) with
      | some parts => exact Or.inr (Or.inr (Or.inl ⟨parts.1, parts.2, rfl⟩))
      | none =>
        refine Or.inr (Or.inr (Or.inr ⟨?_, ?_, ?_⟩)) <;> rw [shape]
        · exact List.cons_ne_nil c rest
        · simpa using comment
        · exact starts

section

variable (unit number : Nat) {l : Text} (further : List Text)

theorem logicalLine_blank (blank : trim l = []) :
    logicalLine unit number l further = ⟨number, 1, none, .simple .blank⟩ := by
  simp only [logicalLine, blank]

theorem logicalLine_comment {text : Text} (comment : trim l = '#' :: text) :
    logicalLine unit number l further = ⟨number, 1, none, .simple (.comment text)⟩ := by
  simp only [logicalLine, comment]

theorem logicalLine_docstring {quotes first : Text}
    (starts : docstringStart? (trim l) = some (quotes, first)) :
    logicalLine unit number l further =
      ⟨number, (docstring quotes first further).2 + 1, some (columns unit l),
        .simple (.docstring (docstring quotes first further).1)⟩ := by
  obtain ⟨c, rest, shape, quote⟩ := head_of_docstringStart starts
  have noComment : c ≠ '#' := by
    rintro rfl
    cases quote
  rw [shape] at starts
  simp only [logicalLine, shape]
  split
  · next h => cases h
  · next h => exact absurd (List.cons.inj h).1 noComment
  · simp only [starts]

theorem logicalLine_code (code : IsCode l) :
    logicalLine unit number l further =
      ⟨number, (continued (trim l) (bracketDelta (trim l)) further).2 + 1, some (columns unit l),
        recognise (continued (trim l) (bracketDelta (trim l)) further).1⟩ := by
  obtain ⟨filled, noComment, noDocstring⟩ := code
  simp only [logicalLine]
  split
  · next h => exact absurd h filled
  · next text h => exact absurd (congrArg List.head? h) noComment
  · simp only [noDocstring]

theorem line_logicalLine (l : Text) : (logicalLine unit number l further).line = number := by
  rcases line_cases l with blank | ⟨text, comment⟩ | ⟨quotes, first, starts⟩ | code
  · rw [logicalLine_blank unit number further blank]
  · rw [logicalLine_comment unit number further comment]
  · rw [logicalLine_docstring unit number further starts]
  · rw [logicalLine_code unit number further code]

end

theorem docstringRest_le (quotes : Text) (ls : List Text) :
    (docstringRest quotes ls).2 ≤ ls.length := by
  induction ls with
  | nil => exact Nat.le_refl 0
  | cons l ls ih =>
    rw [docstringRest]
    split
    · exact Nat.succ_le_succ (Nat.zero_le _)
    · exact Nat.succ_le_succ ih

theorem docstring_le (quotes first : Text) (ls : List Text) :
    (docstring quotes first ls).2 ≤ ls.length := by
  unfold docstring
  split
  · exact Nat.zero_le _
  · exact docstringRest_le quotes ls

/-- A docstring that ends before the script does is read from its own lines. -/
theorem docstringRest_congr {quotes : Text} {own behind : List Text} (some_behind : behind ≠ [])
    (ends : (docstringRest quotes (own ++ behind)).2 = own.length) (other : List Text) :
    docstringRest quotes (own ++ other) = docstringRest quotes (own ++ behind) := by
  induction own with
  | nil =>
    obtain ⟨l, ls, rfl⟩ := List.exists_cons_of_ne_nil some_behind
    rw [List.nil_append, docstringRest] at ends
    split at ends <;> cases ends
  | cons l own ih =>
    rw [List.cons_append, docstringRest] at ends
    rw [List.cons_append, docstringRest, List.cons_append, docstringRest]
    split
    · rfl
    · next further =>
      rw [further] at ends
      rw [ih (Nat.succ.inj ends)]

theorem docstring_congr {quotes first : Text} {own behind : List Text} (some_behind : behind ≠ [])
    (ends : (docstring quotes first (own ++ behind)).2 = own.length) (other : List Text) :
    docstring quotes first (own ++ other) = docstring quotes first (own ++ behind) := by
  unfold docstring at ends ⊢
  split
  · rfl
  · next further =>
    rw [further] at ends
    rw [docstringRest_congr some_behind ends]

theorem continued_congr {g : Gathered} {own behind : List Text} (some_behind : behind ≠ [])
    (ends : (continued g.text g.depth (own ++ behind)).2 = own.length) (other : List Text) :
    continued g.text g.depth (own ++ other) = continued g.text g.depth (own ++ behind) := by
  obtain ⟨taken, rest, g', split, absorbs, stops⟩ := exists_absorbs g (own ++ behind)
  have all := continued_of_absorbs absorbs stops
  rw [← split] at all
  rw [all] at ends
  obtain ⟨rfl, rfl⟩ := List.append_inj split ends.symm
  rw [all, continued_of_absorbs absorbs (Or.inr (stops.resolve_left some_behind))]

theorem one_le_count (unit number : Nat) (l : Text) (further : List Text) :
    1 ≤ (logicalLine unit number l further).count := by
  rcases line_cases l with blank | ⟨text, comment⟩ | ⟨quotes, first, starts⟩ | code
  · have alone := congrArg LogicalLine.count (logicalLine_blank unit number further blank)
    exact Nat.le_of_eq alone.symm
  · have alone := congrArg LogicalLine.count (logicalLine_comment unit number further comment)
    exact Nat.le_of_eq alone.symm
  · rw [logicalLine_docstring unit number further starts]
    exact Nat.le_add_left 1 _
  · rw [logicalLine_code unit number further code]
    exact Nat.le_add_left 1 _

theorem count_le (unit number : Nat) (l : Text) (further : List Text) :
    (logicalLine unit number l further).count ≤ further.length + 1 := by
  rcases line_cases l with blank | ⟨text, comment⟩ | ⟨quotes, first, starts⟩ | code
  · rw [logicalLine_blank unit number further blank]
    exact Nat.le_add_left 1 _
  · rw [logicalLine_comment unit number further comment]
    exact Nat.le_add_left 1 _
  · rw [logicalLine_docstring unit number further starts]
    exact Nat.succ_le_succ (docstring_le quotes first further)
  · rw [logicalLine_code unit number further code]
    obtain ⟨taken, rest, g', rfl, absorbs, stops⟩ := exists_absorbs (Gathered.start l) further
    have all := continued_of_absorbs absorbs stops
    refine Nat.succ_le_succ ?_
    change (continued (Gathered.start l).text (Gathered.start l).depth _).2 ≤ _
    rw [all, List.length_append]
    exact Nat.le_add_right _ _

/-- A logical line that ends before the script does is read from its own lines. -/
theorem logicalLine_congr {unit number : Nat} {l : Text} {own behind : List Text}
    (some_behind : behind ≠ [])
    (ends : (logicalLine unit number l (own ++ behind)).count = own.length + 1)
    (other : List Text) :
    logicalLine unit number l (own ++ other) = logicalLine unit number l (own ++ behind) := by
  rcases line_cases l with blank | ⟨text, comment⟩ | ⟨quotes, first, starts⟩ | code
  · rw [logicalLine_blank unit number _ blank, logicalLine_blank unit number _ blank]
  · rw [logicalLine_comment unit number _ comment, logicalLine_comment unit number _ comment]
  · rw [logicalLine_docstring unit number _ starts] at ends
    rw [logicalLine_docstring unit number _ starts, logicalLine_docstring unit number _ starts,
      docstring_congr some_behind (Nat.succ.inj ends)]
  · rw [logicalLine_code unit number _ code] at ends
    rw [logicalLine_code unit number _ code, logicalLine_code unit number _ code]
    have same := continued_congr (g := Gathered.start l) some_behind (Nat.succ.inj ends) other
    simp only [Gathered.start] at same
    rw [same]

theorem logicalLinesFrom_nil (unit number : Nat) : logicalLinesFrom unit number [] = [] := by
  rw [logicalLinesFrom]

/-- The first logical line takes its own lines, and the others are read from what is left. -/
theorem logicalLinesFrom_cons {unit number : Nat} {l : Text} {own behind : List Text}
    (ends : (logicalLine unit number l (own ++ behind)).count = own.length + 1) :
    logicalLinesFrom unit number (l :: (own ++ behind)) =
      logicalLine unit number l (own ++ behind) ::
        logicalLinesFrom unit (number + (own.length + 1)) behind := by
  rw [logicalLinesFrom, ends, Nat.add_sub_cancel, List.drop_left]

theorem logicalLinesFrom_single {unit number : Nat} {l : Text} {ls : List Text}
    (alone : (logicalLine unit number l ls).count = 1) :
    logicalLinesFrom unit number (l :: ls) =
      logicalLine unit number l ls :: logicalLinesFrom unit (number + 1) ls := by
  rw [logicalLinesFrom, alone, Nat.sub_self, List.drop_zero]

/-- The own lines of a logical line, the first of which is `l`. -/
theorem exists_own (unit number : Nat) (l : Text) (ls : List Text) :
    ∃ own behind, ls = own ++ behind ∧
      (logicalLine unit number l (own ++ behind)).count = own.length + 1 := by
  have least := one_le_count unit number l ls
  have most := count_le unit number l ls
  refine ⟨ls.take ((logicalLine unit number l ls).count - 1),
    ls.drop ((logicalLine unit number l ls).count - 1), (List.take_append_drop _ _).symm, ?_⟩
  rw [List.take_append_drop, List.length_take]
  omega

/-- Induction over the physical lines of a script, one logical line after the other. -/
theorem lines_induction (unit : Nat) {motive : Nat → List Text → Prop}
    (nil : ∀ number, motive number [])
    (cons : ∀ number l own behind,
      (logicalLine unit number l (own ++ behind)).count = own.length + 1 →
      motive (number + (own.length + 1)) behind → motive number (l :: (own ++ behind)))
    (number : Nat) (ls : List Text) : motive number ls := by
  induction size : ls.length using Nat.strongRecOn generalizing number ls with
  | ind n ih =>
    cases ls with
    | nil => exact nil number
    | cons l ls =>
      obtain ⟨own, behind, rfl, ends⟩ := exists_own unit number l ls
      refine cons number l own behind ends (ih behind.length ?_ _ behind rfl)
      rw [List.length_cons, List.length_append] at size
      omega

/-- Logical lines that follow one another without a gap, from one physical line up to another. -/
inductive Tiles : Nat → List LogicalLine → Nat → Prop
  | nil (n : Nat) : Tiles n [] n
  | cons {n stop : Nat} {l : LogicalLine} {ls : List LogicalLine} (first : l.line = n)
      (filled : 1 ≤ l.count) (rest : Tiles (n + l.count) ls stop) : Tiles n (l :: ls) stop

/-- The physical lines of a logical line. -/
def LogicalLine.Covers (l : LogicalLine) (k : Nat) : Prop := l.line ≤ k ∧ k < l.line + l.count

theorem tiles_logicalLinesFrom (unit number : Nat) (ls : List Text) :
    Tiles number (logicalLinesFrom unit number ls) (number + ls.length) := by
  induction number, ls using lines_induction unit with
  | nil number =>
    rw [logicalLinesFrom_nil]
    exact .nil number
  | cons number l own behind ends ih =>
    rw [logicalLinesFrom_cons ends]
    refine .cons (line_logicalLine unit number _ l) (one_le_count unit number l _) ?_
    have stop : number + (l :: (own ++ behind)).length =
        number + (own.length + 1) + behind.length := by
      rw [List.length_cons, List.length_append]
      omega
    rw [ends, stop]
    exact ih

namespace Tiles

variable {start stop : Nat} {items : List LogicalLine}

theorem le (tiles : Tiles start items stop) : start ≤ stop := by
  induction tiles with
  | nil => exact Nat.le_refl _
  | cons _ _ _ ih => omega

theorem within (tiles : Tiles start items stop) {l : LogicalLine} (mem : l ∈ items) :
    start ≤ l.line ∧ 1 ≤ l.count ∧ l.line + l.count ≤ stop := by
  induction tiles with
  | nil => cases mem
  | cons first filled rest ih =>
    have bound := rest.le
    rcases List.mem_cons.1 mem with rfl | later
    · omega
    · have := ih later
      omega

theorem ascending (tiles : Tiles start items stop) :
    items.Pairwise fun l m => l.line < m.line := by
  induction tiles with
  | nil => exact List.Pairwise.nil
  | cons first filled rest ih =>
    refine List.pairwise_cons.2 ⟨fun m later => ?_, ih⟩
    have := rest.within later
    omega

theorem existsUnique_covers (tiles : Tiles start items stop) {k : Nat} (low : start ≤ k)
    (high : k < stop) : ∃! l, l ∈ items ∧ l.Covers k := by
  induction tiles with
  | nil => omega
  | @cons n stop l ls first filled rest ih =>
    by_cases here : k < n + l.count
    · refine ⟨l, ⟨List.mem_cons_self, ?_⟩, ?_⟩
      · exact ⟨by omega, by omega⟩
      · rintro m ⟨mem, covers⟩
        rcases List.mem_cons.1 mem with rfl | later
        · rfl
        · have := rest.within later
          have := covers.1
          omega
    · obtain ⟨m, ⟨mem, covers⟩, only⟩ := ih (by omega) high
      refine ⟨m, ⟨List.mem_cons_of_mem l mem, covers⟩, ?_⟩
      rintro m' ⟨mem', covers'⟩
      rcases List.mem_cons.1 mem' with rfl | later
      · have := covers'.2
        omega
      · exact only m' ⟨later, covers'⟩

end Tiles

/-- Where a logical line stands: behind other lines, which give the same logical lines whatever
follows them, and in front of the lines behind its own. -/
theorem split_of_mem {unit number : Nat} {ls : List Text} {item : LogicalLine}
    (mem : item ∈ logicalLinesFrom unit number ls) :
    ∃ front l own behind before, ls = front ++ l :: (own ++ behind) ∧
      item = logicalLine unit (number + front.length) l (own ++ behind) ∧
      item.count = own.length + 1 ∧
      ∀ more, logicalLinesFrom unit number (front ++ more) =
        before ++ logicalLinesFrom unit (number + front.length) more := by
  induction number, ls using lines_induction unit with
  | nil number =>
    rw [logicalLinesFrom_nil] at mem
    cases mem
  | cons number l own behind ends ih =>
    rw [logicalLinesFrom_cons ends] at mem
    rcases List.mem_cons.1 mem with rfl | later
    · exact ⟨[], l, own, behind, [], rfl, rfl, ends, fun more => rfl⟩
    · obtain ⟨front, l', own', behind', before, rfl, here, count, same⟩ := ih later
      have shift : number + (own.length + 1) + front.length =
          number + (l :: (own ++ front)).length := by
        rw [List.length_cons, List.length_append]
        omega
      refine ⟨l :: (own ++ front), l', own', behind',
        logicalLine unit number l (own ++ (front ++ l' :: (own' ++ behind'))) :: before,
        by simp, by rw [← shift]; exact here, count, fun more => ?_⟩
      have filled : front ++ l' :: (own' ++ behind') ≠ [] := by simp
      have kept := logicalLine_congr filled ends (front ++ more)
      rw [← kept] at ends
      rw [List.cons_append, List.append_assoc, logicalLinesFrom_cons ends, same, kept, ← shift,
        List.cons_append]

/-- A logical line is read from its own physical lines. -/
theorem read_from_own {unit number : Nat} {ls : List Text} {item : LogicalLine}
    (mem : item ∈ logicalLinesFrom unit number ls) :
    ∃ l own, (ls.drop (item.line - number)).take item.count = l :: own ∧
      item = logicalLine unit item.line l own := by
  obtain ⟨front, l, own, behind, before, rfl, rfl, count, -⟩ := split_of_mem mem
  refine ⟨l, own, ?_, ?_⟩
  · rw [line_logicalLine, Nat.add_sub_cancel_left, List.drop_left, count, List.take_succ_cons,
      List.take_left]
  · rw [line_logicalLine]
    cases behind with
    | nil => rw [List.append_nil]
    | cons b bs => simpa using (logicalLine_congr (List.cons_ne_nil b bs) count []).symm

end SwiftDraft.Script
