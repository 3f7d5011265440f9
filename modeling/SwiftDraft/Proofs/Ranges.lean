import SwiftDraft.Proofs.Brackets
import SwiftDraft.Proofs.OnePass

/-!
# What a loop runs over

A loop over `range(…)` with one or two items becomes a loop over a half-open range, and any other
iterable is rewritten as an expression. Only the ends of the text are compared, so the parenthesis
behind `range` may be closed before the end; then, and only then, brackets that were balanced are no
longer balanced (`IsRange.isBalanced_iff`).
-/

namespace SwiftDraft.Draft

open Text
open Script (isWord_of_isBlank)

section

variable {s t : Text} {c : Char}

theorem isInert_of_isWord (word : isWord c) : isInert c := by
  have plain := isDelimiter_of_isWord word
  have noBackslash : c ≠ '\\' := by
    rintro rfl
    cases word
  rw [isDelimiter, Bool.or_eq_false_iff] at plain
  simp [isInert, plain.1, noBackslash]

theorem isInert_of_isBlank (blank : isBlank c) : isInert c := by
  obtain ⟨-, noQuote, noOpening, noClosing⟩ := plain_of_isBlank blank
  have noBackslash : c ≠ '\\' := by
    rintro rfl
    cases blank
  simp [isInert, isStructural, noQuote, noOpening, noClosing, noBackslash]

theorem isInert_append (hs : ∀ c ∈ s, isInert c) (ht : ∀ c ∈ t, isInert c) :
    ∀ c ∈ s ++ t, isInert c :=
  List.forall_mem_append.2 ⟨hs, ht⟩

theorem isInert_substitute {w : Text} (named : IsWordName w) :
    ∀ c ∈ substitute substitutes w, isInert c := by
  rcases lookup?_cases substitutes w with ⟨e, mem, -, found⟩ | ⟨-, none⟩
  · have values : ∀ e ∈ substitutes, e.2.toList.all isInert := by decide
    rw [substitute, found]
    exact List.all_eq_true.1 (values e mem)
  · rw [substitute, none]
    exact fun c mem => isInert_of_isWord (named.2 c mem)

/-- Rewriting an expression keeps its brackets and the ends of its literals. -/
theorem alike_onePass (s : Text) : Alike s (onePass s) := by
  have blanks {gap : Text} (h : ∀ c ∈ gap, isBlank c) : ∀ c ∈ gap, isInert c :=
    fun c mem => isInert_of_isBlank (h c mem)
  induction s using word_induction with
  | nil =>
    rw [onePass_nil]
    exact .refl []
  | sign c r sign ih =>
    rw [onePass_sign sign]
    exact (Alike.refl [c]).append ih
  | word w rest named ends ih =>
    have word : ∀ c ∈ w, isInert c := fun c mem => isInert_of_isWord (named.2 c mem)
    obtain ⟨gap, whole, blank⟩ := exists_append_trimStart rest
    rw [onePass_word named ends]
    split
    · next joined =>
      obtain ⟨t, found⟩ := Option.isSome_iff_exists.1 joined.2
      have short := length_afterNot?_le rest
      rw [found] at short
      have split : w ++ rest = w ++ gap ++ "not".toList ++ t := by
        rw [whole, (afterNot?_eq_some_iff.1 found).2.1]
        simp
      rw [found, split]
      have not : ∀ c ∈ "not".toList, isInert c := List.all_eq_true.1 rfl
      have operator : ∀ c ∈ "!=".toList, isInert c := List.all_eq_true.1 rfl
      refine Alike.append (alike_of_isInert ?_ operator (by simp) (by decide)) (ih t short)
      exact isInert_append (isInert_append word (blanks blank)) not
    · split
      · have short : (trimStart rest).length ≤ rest.length :=
          (List.dropWhile_suffix isBlank).length_le
        have split : w ++ rest = w ++ gap ++ trimStart rest := by
          rw [List.append_assoc, ← whole]
        rw [split]
        have operator : ∀ c ∈ ['!'], isInert c := List.all_eq_true.1 rfl
        refine Alike.append (alike_of_isInert ?_ operator ?_ (by decide)) (ih _ short)
        · exact isInert_append word (blanks blank)
        · exact List.append_ne_nil_of_left_ne_nil named.1 gap
      · exact (alike_of_isInert word (isInert_substitute named) named.1
          (endsVisible_substitute named).1).append (ih rest (Nat.le_refl _))

theorem alike_expression {a : Text} (trimmed : trim a = a) : Alike a (expression a) := by
  rw [expression_eq_onePass, trimmed]
  exact alike_onePass a

theorem brackets_expression (e : Text) : brackets .code (expression e) = brackets .code e := by
  obtain ⟨i, j, whole, front, back⟩ := exists_blanks_trim e
  have inert {gap : Text} (h : ∀ c ∈ gap, isBlank c) : ∀ c ∈ gap, isInert c :=
    fun c mem => isInert_of_isBlank (h c mem)
  conv => rhs; rw [whole, brackets_around (inert front) (inert back)]
  rw [expression_eq_onePass]
  exact (alike_onePass (trim e) .code Place.proper_code).1.symm

end

theorem countP_expression (s : Text) : (expression s).countP (· == '<') = s.countP (· == '<') := by
  have kept : Unaffected (· == '<') s := by
    refine ⟨by decide, fun c _ blank => beq_eq_false_iff_ne.2 ?_⟩
    rintro rfl
    cases blank
  rw [List.countP_eq_length_filter, List.countP_eq_length_filter, filter_expression kept]

section

variable {s a b : Text}

/-- What stands around the items of a list. -/
def IsGap (s : Text) : Prop := ∀ c ∈ s, c = ',' ∨ isBlank c

theorem IsGap.isInert (gap : IsGap s) : ∀ c ∈ s, isInert c := by
  intro c mem
  rcases gap c mem with rfl | blank
  · decide
  · exact isInert_of_isBlank blank

theorem IsGap.append (hs : IsGap s) (ha : IsGap a) : IsGap (s ++ a) :=
  List.forall_mem_append.2 ⟨hs, ha⟩

theorem IsGap.countP (gap : IsGap s) : s.countP (· == '<') = 0 := by
  refine List.countP_eq_zero.2 fun c mem => ?_
  rcases gap c mem with rfl | blank
  · decide
  · rw [beq_iff_eq]
    rintro rfl
    cases blank

theorem isGap_of_blanks (blanks : ∀ c ∈ s, isBlank c) : IsGap s := fun c mem => .inr (blanks c mem)

theorem isGap_comma : IsGap [','] := by simp [IsGap]

theorem join_consPiece {ps : List Text} (filled : ps ≠ []) (c : Char) :
    join "," (consPiece c ps) = c :: join "," ps := by
  obtain ⟨p, ps, rfl⟩ := List.exists_cons_of_ne_nil filled
  cases ps with
  | nil => simp [join, consPiece]
  | cons q ps => simp [join, consPiece, List.intercalate_cons_cons]

theorem join_concat {ps : List Text} (filled : ps ≠ []) (last : Text) :
    join "," (ps ++ [last]) = join "," ps ++ ',' :: last := by
  unfold join
  induction ps with
  | nil => exact absurd rfl filled
  | cons p ps ih =>
    cases ps with
    | nil => simp
    | cons q ps =>
      rw [List.cons_append, List.cons_append, List.intercalate_cons_cons, ← List.cons_append,
        ih (List.cons_ne_nil q ps), List.intercalate_cons_cons]
      simp

/-- The pieces between commas are all of a text. -/
theorem join_commaPieces (depth : Int) (quote : Option Char) (s : Text) :
    join "," (commaPieces depth quote s) = s := by
  induction s generalizing depth quote with
  | nil => rfl
  | cons c s ih =>
    have goesOn (d : Int) (q : Option Char) :
        join "," (consPiece c (commaPieces d q s)) = c :: s := by
      rw [join_consPiece (commaPieces_ne_nil d q s), ih]
    unfold commaPieces
    split
    · exact goesOn _ _
    · split
      · exact goesOn _ _
      · split
        · exact goesOn _ _
        · split
          · exact goesOn _ _
          · split
            · next cut =>
              have filled := commaPieces_ne_nil depth none s
              rw [join, List.intercalate_cons_of_ne_nil filled, ← join, ih, cut.1]
              rfl
            · exact goesOn _ _

/-- The items of a list in their places: trimmed parts between commas, with a gap behind them. -/
theorem exists_parts (s : Text) : ∃ parts tail, s = join "," parts ++ tail ∧ IsGap tail ∧
    parts.map trim = splitTopLevel s := by
  have whole := join_commaPieces 0 none s
  have filled := commaPieces_ne_nil 0 none s
  by_cases blank : ((commaPieces 0 none s).map trim).getLast? = some []
  · obtain ⟨front, last, shape⟩ : ∃ front last, commaPieces 0 none s = front ++ [last] :=
      ⟨_, _, (List.dropLast_append_getLast filled).symm⟩
    have items : front.map trim = splitTopLevel s := by
      simp only [splitTopLevel, if_pos blank]
      rw [shape, List.map_append, List.map_singleton, List.dropLast_concat]
    have gap : IsGap last := by
      simp only [shape, List.map_append, List.map_singleton, List.getLast?_concat,
        Option.some.injEq] at blank
      obtain ⟨i, j, split, front, back⟩ := exists_blanks_trim last
      rw [split, blank, List.append_nil]
      exact (isGap_of_blanks front).append (isGap_of_blanks back)
    rw [shape] at whole
    by_cases alone : front = []
    · subst alone
      exact ⟨[], last, whole.symm.trans (by simp [join]), gap, items⟩
    · refine ⟨front, ',' :: last, ?_, isGap_comma.append gap, items⟩
      rw [← join_concat alone, whole]
  · refine ⟨commaPieces 0 none s, [], ?_, List.forall_mem_nil _, ?_⟩
    · rw [whole, List.append_nil]
    · simp only [splitTopLevel, if_neg blank]

theorem trim_of_mem_splitTopLevel (mem : a ∈ splitTopLevel s) : trim a = a := by
  obtain ⟨parts, -, -, -, items⟩ := exists_parts s
  rw [← items] at mem
  obtain ⟨part, -, rfl⟩ := List.mem_map.1 mem
  exact trim_trim part

theorem exists_gap_trim (s : Text) : ∃ i j, s = i ++ trim s ++ j ∧ IsGap i ∧ IsGap j := by
  obtain ⟨i, j, whole, front, back⟩ := exists_blanks_trim s
  exact ⟨i, j, whole, isGap_of_blanks front, isGap_of_blanks back⟩

theorem place_of_one (one : splitTopLevel s = [a]) :
    ∃ i j, s = i ++ a ++ j ∧ IsGap i ∧ IsGap j := by
  obtain ⟨parts, tail, whole, gap, items⟩ := exists_parts s
  rw [one] at items
  obtain ⟨part, rfl, rfl⟩ := List.map_eq_singleton_iff.1 items
  obtain ⟨i, j, split, front, back⟩ := exists_gap_trim part
  refine ⟨i, j ++ tail, ?_, front, back.append gap⟩
  conv => lhs; rw [whole, join, List.intercalate_singleton, split]
  simp

theorem places_of_two (two : splitTopLevel s = [a, b]) :
    ∃ i m j, s = i ++ a ++ m ++ b ++ j ∧ IsGap i ∧ IsGap m ∧ m ≠ [] ∧ IsGap j := by
  obtain ⟨parts, tail, whole, gap, items⟩ := exists_parts s
  rw [two] at items
  obtain ⟨first, others, rfl, rfl, further⟩ := List.map_eq_cons_iff.1 items
  obtain ⟨second, rfl, rfl⟩ := List.map_eq_singleton_iff.1 further
  obtain ⟨i, j, split, front, back⟩ := exists_gap_trim first
  obtain ⟨k, l, split', front', back'⟩ := exists_gap_trim second
  refine ⟨i, j ++ [','] ++ k, l ++ tail, ?_, front, (back.append isGap_comma).append front', ?_,
    back'.append gap⟩
  · conv =>
      lhs
      rw [whole, join, List.intercalate_cons_cons, List.intercalate_singleton, split, split']
    simp
  · simp

end

/-- The text of a `range` with one or two items, as far as its ends tell. -/
structure IsRange (e inner : Text) : Prop where
  written : trim e = "range(".toList ++ inner ++ [')']
  oneLine : '\n' ∉ inner
  count : (splitTopLevel inner).length = 1 ∨ (splitTopLevel inner).length = 2

/-- A bracket in front of a text is closed by the one right behind it, and nowhere before. -/
structure ClosedBehind (inner : Text) : Prop where
  nowhereBefore : ∀ t, t <+: outside .code inner → t.countP isClosing ≤ t.countP isOpening
  even : (outside .code inner).countP isClosing = (outside .code inner).countP isOpening
  place : inner.foldl Place.next .code = .code

section

variable {e inner : Text}

theorem rangeArguments?_eq_some_iff {e : Text} {items : List Text} :
    rangeArguments? e = some items ↔ ∃ inner, e = "range(".toList ++ inner ++ [')'] ∧
      '\n' ∉ inner ∧ splitTopLevel inner = items := by
  unfold rangeArguments?
  split
  · next none =>
    refine iff_of_false nofun ?_
    rintro ⟨inner, whole, -⟩
    rw [List.append_assoc, ← after?_eq_some_iff, none] at whole
    cases whole
  · next rest found =>
    rw [after?_eq_some_iff] at found
    rw [Option.ite_none_right_eq_some, Option.some.injEq]
    constructor
    · rintro ⟨⟨last, oneLine⟩, items⟩
      have shape : rest = rest.dropLast ++ [')'] := (List.dropLast_append_getLast? ')' last).symm
      refine ⟨rest.dropLast, ?_, fun mem => oneLine (List.dropLast_subset _ mem), items⟩
      rw [found, List.append_assoc, ← shape]
    · rintro ⟨inner, whole, oneLine, items⟩
      rw [found, List.append_assoc, List.append_cancel_left_eq] at whole
      subst whole
      refine ⟨⟨List.getLast?_concat, ?_⟩, ?_⟩
      · simpa using oneLine
      · rw [List.dropLast_concat, items]

theorem IsRange.cases (range : IsRange e inner) :
    (∃ a, splitTopLevel inner = [a] ∧ iterable e = "0..<".toList ++ expression a) ∨
      ∃ a b, splitTopLevel inner = [a, b] ∧
        iterable e = expression a ++ "..<".toList ++ expression b := by
  have found : rangeArguments? (trim e) = some (splitTopLevel inner) :=
    rangeArguments?_eq_some_iff.2 ⟨inner, range.written, range.oneLine, rfl⟩
  rcases range.count with one | two
  · obtain ⟨a, items⟩ := List.length_eq_one_iff.1 one
    rw [items] at found
    exact .inl ⟨a, items, by simp only [iterable, found]⟩
  · obtain ⟨a, b, items⟩ := List.length_eq_two.1 two
    rw [items] at found
    exact .inr ⟨a, b, items, by simp only [iterable, found]⟩

theorem iterable_of_not_isRange (other : ∀ inner, ¬IsRange e inner) :
    iterable e = expression e := by
  have count {items : List Text} (found : rangeArguments? (trim e) = some items) :
      ¬(items.length = 1 ∨ items.length = 2) := by
    obtain ⟨inner, written, oneLine, rfl⟩ := rangeArguments?_eq_some_iff.1 found
    exact fun count => other inner ⟨written, oneLine, count⟩
  unfold iterable
  split
  · next found => exact absurd (.inl rfl) (count found)
  · next found => exact absurd (.inr rfl) (count found)
  · rfl

/-- A range has the brackets of its items. -/
theorem IsRange.brackets_iterable (range : IsRange e inner) :
    brackets .code (iterable e) = brackets .code inner := by
  have operator : ∀ c ∈ "0..<".toList, isInert c := List.all_eq_true.1 rfl
  rcases range.cases with ⟨a, items, result⟩ | ⟨a, b, items, result⟩
  · obtain ⟨i, j, whole, front, back⟩ := place_of_one items
    rw [result, whole, brackets_around front.isInert back.isInert, ← brackets_expression a]
    simpa using brackets_around (v := []) operator (List.forall_mem_nil _) (expression a)
  · obtain ⟨i, m, j, whole, front, middle, filled, back⟩ := places_of_two items
    have trimmed {item : Text} (mem : item ∈ splitTopLevel inner) : trim item = item :=
      trim_of_mem_splitTopLevel mem
    have first : Alike a (expression a) := alike_expression (trimmed (by simp [items]))
    have second : Alike b (expression b) := alike_expression (trimmed (by simp [items]))
    have between : Alike m "..<".toList :=
      alike_of_isInert middle.isInert (List.all_eq_true.1 rfl) filled (by decide)
    have same := ((first.append between).append second .code Place.proper_code).1
    rw [result, whole, ← same, List.append_assoc i, List.append_assoc i,
      brackets_around front.isInert back.isInert]

/-- A range has one `<` more than its text. -/
theorem IsRange.iterable_ne (range : IsRange e inner) : iterable e ≠ expression e := by
  have text : e.countP (· == '<') = inner.countP (· == '<') := by
    obtain ⟨i, j, whole, front, back⟩ := exists_gap_trim e
    have ends : ("range(".toList).countP (· == '<') = 0 ∧ [')'].countP (· == '<') = 0 := by decide
    rw [whole, range.written]
    simp only [List.countP_append, front.countP, back.countP, ends, Nat.zero_add, Nat.add_zero]
  have operator : ("0..<".toList).countP (· == '<') = 1 ∧ ("..<".toList).countP (· == '<') = 1 := by
    decide
  intro same
  have count := congrArg (List.countP (· == '<')) same
  rw [countP_expression, text] at count
  rcases range.cases with ⟨a, items, result⟩ | ⟨a, b, items, result⟩
  · obtain ⟨i, j, whole, front, back⟩ := place_of_one items
    rw [result, whole] at count
    simp only [List.countP_append, front.countP, back.countP, countP_expression, operator] at count
    omega
  · obtain ⟨i, m, j, whole, front, middle, filled, back⟩ := places_of_two items
    rw [result, whole] at count
    simp only [List.countP_append, front.countP, middle.countP, back.countP, countP_expression,
      operator] at count
    omega

section

-- In front of a text and of the parenthesis behind it, only that parenthesis is awaited.
variable (inside : awaited codeBrackets [')']
  (outside .code inner ++ outside (inner.foldl Place.next .code) [')']) = some [])

include inside

theorem closedBehind_of_isBalanced (balanced : IsBalanced codeBrackets (outside .code inner)) :
    ClosedBehind inner := by
  refine ⟨fun t starts => balanced.countP_le starts, balanced.countP_eq, ?_⟩
  have framed : awaited codeBrackets [')'] (outside .code inner) = some [')'] :=
    awaited_frame balanced [')']
  rw [awaited_append, framed, Option.bind_some] at inside
  cases place : inner.foldl Place.next .code with
  | code => rfl
  | literal q =>
    rw [place] at inside
    cases inside
  | escape q =>
    rw [place] at inside
    cases inside

theorem isBalanced_of_closedBehind (closed : ClosedBehind inner) :
    IsBalanced codeBrackets (outside .code inner) := by
  rw [awaited_append] at inside
  obtain ⟨w, starts, -⟩ := Option.bind_eq_some_iff.1 inside
  obtain ⟨further, -, own⟩ := awaited_unframe (w := []) (v := [')']) starts fun t starts => by
    simpa using closed.nowhereBefore t starts
  have counted := length_awaited own
  have none : further = [] := by
    apply List.eq_nil_of_length_eq_zero
    rw [closed.even, List.length_nil] at counted
    omega
  rw [IsBalanced, own, none]

end

/-- The inside of a balanced text is balanced exactly if the parentheses around it are partners. -/
theorem IsRange.isBalanced_iff (range : IsRange e inner)
    (balanced : IsBalanced codeBrackets (outside .code e)) :
    IsBalanced codeBrackets (outside .code inner) ↔ ClosedBehind inner := by
  have inside : awaited codeBrackets [')']
      (outside .code inner ++ outside (inner.foldl Place.next .code) [')']) = some [] := by
    obtain ⟨i, j, whole, front, back⟩ := exists_gap_trim e
    rw [isBalanced_iff_brackets, whole, brackets_around front.isInert back.isInert,
      ← isBalanced_iff_brackets, IsBalanced, range.written, List.append_assoc] at balanced
    rw [← outside_append]
    exact balanced
  exact ⟨closedBehind_of_isBalanced inside, isBalanced_of_closedBehind inside⟩

theorem IsRange.unique {other : Text} (range : IsRange e inner) (same : IsRange e other) :
    other = inner := by
  have written := same.written.symm.trans range.written
  rwa [List.append_cancel_right_eq, List.append_cancel_left_eq] at written

/-- A loop runs over a range exactly if the text has the ends of `range(…)` and one or two items
between them. Its brackets are balanced like those of its text exactly if the two parentheses are
partners. -/
theorem iterable_range (e : Text) :
    (iterable e ≠ expression e ↔ ∃ inner, IsRange e inner) ∧
      (∀ inner, IsRange e inner →
        ((∃ a, splitTopLevel inner = [a] ∧ iterable e = "0..<".toList ++ expression a) ∨
          ∃ a b, splitTopLevel inner = [a, b] ∧
            iterable e = expression a ++ "..<".toList ++ expression b) ∧
        (¬EscapesQuote .code inner →
          splitTopLevel inner = itemsOf (markedPieces 0 (scriptMarks .code inner)))) ∧
      (IsBalanced codeBrackets (outside .code e) →
        (IsBalanced codeBrackets (outside .code (iterable e)) ↔
          ∀ inner, IsRange e inner → ClosedBehind inner)) := by
  refine ⟨⟨?_, ?_⟩, fun inner range => ⟨range.cases, ?_⟩, ?_⟩
  · intro differs
    by_contra none
    exact differs (iterable_of_not_isRange (not_exists.1 none))
  · rintro ⟨inner, range⟩
    exact range.iterable_ne
  · intro plain
    have marks : listMarks none inner = scriptMarks .code inner :=
      (marks_eq_iff Place.proper_code inner).2 plain
    rw [← marks, ← commaPieces_eq]
    rfl
  · intro balanced
    rw [isBalanced_iff_brackets]
    by_cases found : ∃ inner, IsRange e inner
    · obtain ⟨inner, range⟩ := found
      rw [range.brackets_iterable, ← isBalanced_iff_brackets, range.isBalanced_iff balanced]
      constructor
      · intro closed other same
        rwa [range.unique same]
      · intro all
        exact all inner range
    · rw [iterable_of_not_isRange (not_exists.1 found), brackets_expression,
        ← isBalanced_iff_brackets]
      exact iff_of_true balanced fun inner range => absurd ⟨inner, range⟩ found

/-- A single call with a call in it. -/
theorem iterable_range_of_single_call :
    IsRange "range(1, len(xs))".toList "1, len(xs)".toList ∧ ClosedBehind "1, len(xs)".toList ∧
      iterable "range(1, len(xs))".toList ≠ expression "range(1, len(xs))".toList ∧
      IsBalanced codeBrackets (outside .code (iterable "range(1, len(xs))".toList)) := by
  have range : IsRange "range(1, len(xs))".toList "1, len(xs)".toList :=
    ⟨by decide, by decide, by decide⟩
  have whole : IsBalanced codeBrackets (outside .code "range(1, len(xs))".toList) := by decide
  have closed : ClosedBehind "1, len(xs)".toList := (range.isBalanced_iff whole).1 (by decide)
  obtain ⟨differs, -, balanced⟩ := iterable_range "range(1, len(xs))".toList
  refine ⟨range, closed, differs.2 ⟨_, range⟩, (balanced whole).2 ?_⟩
  intro inner same
  rwa [range.unique same]

/-- A sum of two calls: the parenthesis behind `range` is closed long before the end, and the sum
becomes a range with unbalanced brackets. -/
theorem first_call_is_range :
    IsRange "range(1) + f(2)".toList "1) + f(2".toList ∧ ¬ClosedBehind "1) + f(2".toList ∧
      iterable "range(1) + f(2)".toList = "0..<1) + f(2".toList ∧
      expression "range(1) + f(2)".toList = "range(1) + f(2)".toList ∧
      IsBalanced codeBrackets (outside .code "range(1) + f(2)".toList) ∧
      ¬IsBalanced codeBrackets (outside .code (iterable "range(1) + f(2)".toList)) := by
  refine ⟨⟨by decide, by decide, by decide⟩, ?_, by decide +kernel, by decide +kernel, by decide,
    by decide +kernel⟩
  intro closed
  exact absurd (closed.nowhereBefore "1)".toList (by decide)) (by decide)

end

end SwiftDraft.Draft
