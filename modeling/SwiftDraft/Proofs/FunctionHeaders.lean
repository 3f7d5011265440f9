import SwiftDraft.Proofs.HeaderEnds

/-!
# The headers of functions

The parameter list of a header is taken as long as possible: it ends at the last `)` behind which a
header can end (`Closes`, `functionTail?_isSome_iff`), also at one of the return hint or of the
comment. Behind the list's own `)` stands the return hint, which is read as a clause is
(`functionTail?_arrow`).
-/

namespace SwiftDraft.Script

open Text

variable {s k b : Text}

/-- A header can end with the text: behind the blanks comes the end of a header, perhaps with an
arrow and a return hint before it. -/
def Closes (b : Text) : Prop :=
  endsHeader b ∨ ∃ hint k, trimStart b = "->".toList ++ (hint ++ k) ∧ hint ≠ [] ∧ endsHeader k

theorem upToHeaderEnd_isSome_iff :
    (upToHeaderEnd s).isSome ↔ ∃ a k, s = a ++ k ∧ a ≠ [] ∧ endsHeader k := by
  induction s with
  | nil =>
    refine iff_of_false Bool.false_ne_true ?_
    rintro ⟨a, k, whole, filled, -⟩
    exact filled (List.append_eq_nil_iff.1 whole.symm).1
  | cons c s ih =>
    rw [upToHeaderEnd]
    split
    · next ends => exact iff_of_true rfl ⟨[c], s, rfl, List.cons_ne_nil c [], ends⟩
    · next goesOn =>
      rw [Option.isSome_map, ih]
      constructor
      · rintro ⟨a, k, rfl, -, ends⟩
        exact ⟨c :: a, k, rfl, List.cons_ne_nil c a, ends⟩
      · rintro ⟨a, k, whole, filled, ends⟩
        cases a with
        | nil => exact absurd rfl filled
        | cons d a =>
          obtain ⟨rfl, rfl⟩ := List.cons.inj whole
          refine ⟨a, k, rfl, ?_, ends⟩
          rintro rfl
          exact goesOn ends

theorem endsHeader_trimStart (s : Text) : endsHeader (trimStart s) = endsHeader s := by
  rw [endsHeader, endsHeader, trimStart_trimStart]

/-- A clause that needs no blank before it, but for the case that only blanks stand there. -/
theorem clauseAfter_zero : clauseAfter 0 s = (upToHeaderEnd (trimStart s)).or
    (if 0 < (s.takeWhile isBlank).length ∧ endsHeader (trimStart s) then
      (s.takeWhile isBlank).getLast?.map fun b => [b] else none) := by
  rw [clauseAfter, if_neg (Nat.not_lt_zero _)]
  unfold trimStart
  cases upToHeaderEnd (s.dropWhile isBlank) <;> rfl

/-- A clause that needs no blank before it is any text, and then comes the end of a header. -/
theorem clauseAfter_isSome_iff :
    (clauseAfter 0 s).isSome ↔ ∃ a k, s = a ++ k ∧ a ≠ [] ∧ endsHeader k := by
  have found : (clauseAfter 0 s).isSome ↔ (upToHeaderEnd (trimStart s)).isSome ∨
      s.takeWhile isBlank ≠ [] ∧ endsHeader (trimStart s) := by
    rw [clauseAfter_zero, Option.isSome_or, Bool.or_eq_true]
    refine or_congr_right ?_
    cases s.takeWhile isBlank <;> cases endsHeader (trimStart s) <;> simp
  rw [found, upToHeaderEnd_isSome_iff]
  constructor
  · have parts : s = s.takeWhile isBlank ++ trimStart s := List.takeWhile_append_dropWhile.symm
    rintro (⟨a, k, rest, filled, ends⟩ | ⟨gap, ends⟩)
    · refine ⟨s.takeWhile isBlank ++ a, k, ?_, by simp [filled], ends⟩
      rw [List.append_assoc, ← rest, ← parts]
    · exact ⟨s.takeWhile isBlank, trimStart s, parts, gap, ends⟩
  · rintro ⟨a, k, rfl, filled, ends⟩
    by_cases shown : trimStart a = []
    · -- Of blanks alone the last one counts as the clause.
      have blanks := trimStart_eq_nil_iff.1 shown
      rw [trimStart_of_blanks blanks, endsHeader_trimStart, List.takeWhile_append_of_pos blanks]
      exact Or.inr ⟨by simp [filled], ends⟩
    · exact Or.inl ⟨trimStart a, k, trimStart_append shown k, shown, ends⟩

theorem functionTail?_isSome_iff : (functionTail? b).isSome ↔ Closes b := by
  unfold functionTail? Closes
  cases behind : after? "->" (trimStart b) with
  | some r =>
    have start := after?_eq_some_iff.1 behind
    have noEnd : endsHeader b = false := by
      rw [endsHeader, start]
      rfl
    simp only [Option.isSome_map, clauseAfter_isSome_iff, noEnd, Bool.false_eq_true, false_or, start,
      List.append_cancel_left_eq]
  | none =>
    have noArrow : ¬∃ hint k, trimStart b = "->".toList ++ (hint ++ k) ∧ hint ≠ [] ∧
        endsHeader k := by
      rintro ⟨hint, k, start, -⟩
      rw [after?_eq_some_iff.2 start] at behind
      cases behind
    rw [or_iff_left noArrow]
    cases endsHeader b <;> simp

/-- What is read of a return hint. -/
def readHint (hint : Text) : Text := trim (readClause (trim hint))

theorem readHint_eq_trim_iff {hint : Text} :
    readHint hint = trim hint ↔ ¬CommentInside (trim hint) := by
  rw [← readClause_eq_self_iff, readHint]
  constructor
  · intro same
    obtain ⟨i, j, whole, -, -⟩ := exists_blanks_trim (readClause (trim hint))
    have long : (trim hint).length ≤ (readClause (trim hint)).length := by
      rw [whole, same]
      simp only [List.length_append]
      omega
    exact (prefix_readClause (trim hint)).eq_of_length_le long
  · intro whole
    rw [whole, trim_trim]

/-- A return hint as it is written behind a parameter list. -/
def arrow (returns : Option Text) : Text := (returns.map (" -> ".toList ++ ·)).getD []

theorem functionTail?_arrow {returns : Option Text} (filled : ∀ hint ∈ returns, trim hint ≠ [])
    (ends : endsHeader k) : functionTail? (arrow returns ++ k) = some (returns.map readHint) := by
  cases returns with
  | none =>
    obtain ⟨r, colon⟩ := exists_of_endsHeader ends
    change functionTail? k = some none
    rw [functionTail?, colon]
    exact if_pos ends
  | some hint =>
    have clause : IsClause (trim hint) := ⟨filled hint rfl, trim_trim hint⟩
    obtain ⟨i, j, whole, front, back⟩ := exists_blanks_trim hint
    have behind : after? "->" (trimStart (arrow (some hint) ++ k)) = some (' ' :: (hint ++ k)) :=
      after?_eq_some_iff.2 rfl
    have rest : trimStart (' ' :: (hint ++ k)) = trim hint ++ (j ++ k) := by
      have blanks : ∀ c ∈ ' ' :: i, isBlank c := List.forall_mem_cons.2 ⟨by decide, front⟩
      have shape : ' ' :: (hint ++ k) = (' ' :: i) ++ (trim hint ++ (j ++ k)) := by
        conv_lhs => rw [whole]
        simp
      rw [shape, trimStart_of_blanks blanks]
      exact trimStart_eq_self (clause.first_append (j ++ k))
    have endsBehind : endsHeader (j ++ k) := by
      rw [← endsHeader_trimStart, trimStart_of_blanks back, endsHeader_trimStart]
      exact ends
    have read := upToHeaderEnd_append clause.last clause.filled endsBehind
    rw [functionTail?, behind]
    simp only [clauseAfter_zero, rest, read]
    rfl

theorem upToLastClosing_eq_none_iff {α : Type} {tail : Text → Option α} :
    upToLastClosing tail s = none ↔ ∀ a b, s = a ++ ')' :: b → tail b = none := by
  constructor
  · rintro fails a b rfl
    cases found : tail b with
    | none => rfl
    | some x =>
      rw [upToLastClosing_append tail found a] at fails
      cases fails
  · intro fails
    induction s with
    | nil => rfl
    | cons c r ih =>
      have later : upToLastClosing tail r = none :=
        ih fun a b split => fails (c :: a) b (congrArg (c :: ·) split)
      rw [upToLastClosing, later]
      by_cases closing : c = ')'
      · subst closing
        rw [if_pos rfl, fails [] r rfl, Option.map_none]
      · rw [if_neg closing]

theorem functionHeader?_eq {name list inside : Text} {returns : Option Text}
    (identifier : IsIdentifier name)
    (taken : upToLastClosing functionTail? list = some (inside, returns))
    (defined : skipAsync s = "def".toList ++ ' ' :: (name ++ '(' :: list)) :
    functionHeader? s = some (.function name (parameters inside) returns) := by
  have opened := after?_parenthesis list
  have named := keyword_identifier? "def" identifier (atWordEnd_parenthesis list)
  rw [functionHeader?, defined, named]
  simp only [Option.bind_eq_bind, Option.bind_some, opened, taken]
  rfl

/-- The header of a function, with the list that is taken and what is made of the rest. -/
theorem recognise_function {name list inside : Text} {returns : Option Text}
    (identifier : IsIdentifier name)
    (taken : upToLastClosing functionTail? list = some (inside, returns)) (async : Bool) :
    recognise ((if async then "async " else "").toList ++ "def ".toList ++ name ++ '(' :: list) =
      .header (.function name (parameters inside) returns) := by
  obtain ⟨line, shape⟩ : ∃ line, line = "def".toList ++ ' ' :: (name ++ '(' :: list) := ⟨_, rfl⟩
  have found {s : Text} (notImport : isImport s = false) (defined : skipAsync s = line) :
      recognise s = .header (.function name (parameters inside) returns) := by
    refine recognise_of_header? notImport ?_
    rw [header?, functionHeader?_eq identifier taken (defined.trans shape)]
    rfl
  have keyword : after? "def" line = some (' ' :: (name ++ '(' :: list)) :=
    after?_eq_some_iff.2 shape
  cases async with
  | false =>
    have whole : "".toList ++ "def ".toList ++ name ++ '(' :: list = line := by simp [shape]
    change recognise ("".toList ++ "def ".toList ++ name ++ '(' :: list) = _
    rw [whole]
    exact found (isImport_eq_false (by decide) (by decide) keyword)
      (skipAsync_eq_self (by decide) keyword)
  | true =>
    have whole : "async ".toList ++ "def ".toList ++ name ++ '(' :: list =
        "async".toList ++ ' ' :: line := by simp [shape]
    have first : ∀ c ∈ line.head?, isBlank c = false := by
      rw [shape]
      rintro c ⟨⟩
      decide
    have behind : after? "async" ("async".toList ++ ' ' :: line) = some (' ' :: line) :=
      after?_eq_some_iff.2 rfl
    change recognise ("async ".toList ++ "def ".toList ++ name ++ '(' :: list) = _
    rw [whole]
    refine found (isImport_eq_false (by decide) (by decide) behind) ?_
    rw [skipAsync, afterKeyword?_of_head "async" first, Option.getD_some]

/-- The header of a function as it is written: its name, its list, perhaps a return hint and perhaps a
comment. The list is taken as far as the last `)` behind which a header can end. If there is none
behind the list's own, the comment makes no difference, and the hint is read as a whole exactly if
no colon in it opens a comment. -/
theorem functionHeaders_recognised {name gap : Text} {returns : Option Text}
    (identifier : IsIdentifier name) (filled : ∀ hint ∈ returns, trim hint ≠ [])
    (blanks : ∀ c ∈ gap, isBlank c) (async : Bool) (list : Text) (comment : Option Text) :
    let rest := arrow returns ++ headerEnd gap comment
    let line :=
      (if async then "async " else "").toList ++ "def ".toList ++ name ++ '(' :: (list ++ ')' :: rest)
    ((∀ a b, rest = a ++ ')' :: b → ¬Closes b) →
      recognise line = .header (.function name (parameters list) (returns.map readHint))) ∧
    (∀ a b found, rest = a ++ ')' :: b → functionTail? b = some found →
      (∀ c d, b = c ++ ')' :: d → ¬Closes d) →
      recognise line = .header (.function name (parameters (list ++ ')' :: a)) found)) ∧
    ∀ hint ∈ returns, readHint hint = trim hint ↔ ¬CommentInside (trim hint) := by
  intro rest line
  have own : functionTail? rest = some (returns.map readHint) :=
    functionTail?_arrow filled (endsHeader_headerEnd blanks comment)
  have taken := upToLastClosing_append functionTail? own list
  have noLater {b : Text} (last : ∀ c d, b = c ++ ')' :: d → ¬Closes d) :
      upToLastClosing functionTail? b = none :=
    upToLastClosing_eq_none_iff.2 fun c d split =>
      Option.not_isSome_iff_eq_none.1 (functionTail?_isSome_iff.not.2 (last c d split))
  refine ⟨fun alone => ?_, fun a b found split closes last => ?_, fun _ _ => readHint_eq_trim_iff⟩
  · rw [noLater alone] at taken
    exact recognise_function identifier taken async
  · have later := upToLastClosing_append functionTail? closes a
    rw [noLater last, ← split] at later
    rw [later] at taken
    exact recognise_function identifier taken async

/-- A header with parentheses in a default value and in its comment, of which none can end it. -/
theorem functionHeaders_recognised_of_comment :
    IsIdentifier "f".toList ∧ (∀ hint ∈ some "Dict[str, int]".toList, trim hint ≠ []) ∧
    (∀ c ∈ "  ".toList, isBlank c) ∧
    (∀ a b, " -> Dict[str, int]:  # see h().".toList = a ++ ')' :: b → ¬Closes b) ∧
    recognise "def f(a, b=g(1)) -> Dict[str, int]:  # see h().".toList =
      .header (.function "f".toList (parameters "a, b=g(1)".toList)
        (some "Dict[str, int]".toList)) := by
  have identifier : IsIdentifier "f".toList := ⟨'f', [], rfl, by decide, by simp⟩
  have filled : ∀ hint ∈ some "Dict[str, int]".toList, trim hint ≠ [] := by
    rintro hint ⟨⟩
    decide
  have blanks : ∀ c ∈ "  ".toList, isBlank c := List.all_eq_true.1 (by decide)
  have last : upToLastClosing functionTail? " -> Dict[str, int]:  # see h().".toList = none := by
    decide
  have alone : ∀ a b, " -> Dict[str, int]:  # see h().".toList = a ++ ')' :: b → ¬Closes b :=
    fun a b split closes => by
      have none := upToLastClosing_eq_none_iff.1 last a b split
      rw [← functionTail?_isSome_iff, none] at closes
      cases closes
  exact ⟨identifier, filled, blanks, alone, (functionHeaders_recognised identifier filled blanks
    false "a, b=g(1)".toList (some " see h().".toList)).1 alone⟩

/-- A parenthesis of the comment that looks like the end of a header, and one at the end of the
return hint, end the list. -/
theorem later_parenthesis_ends_list :
    (∃ list remark, bracketDelta list = 0 ∧ comment list = [] ∧
      list.foldl Place.next .code = .code ∧
      recognise ("def f(".toList ++ list ++ "):  #".toList ++ remark) ≠
        .header (.function "f".toList (parameters list) none)) ∧
    ∃ list hint, bracketDelta list = 0 ∧ bracketDelta hint = 0 ∧ comment (list ++ hint) = [] ∧
      (list ++ hint).foldl Place.next .code = .code ∧
      recognise ("def f(".toList ++ list ++ ") -> ".toList ++ hint ++ ":".toList) ≠
        .header (.function "f".toList (parameters list) (some (trim hint))) := by
  refine ⟨⟨"a".toList, " as in g(b):".toList, ?_⟩, "a".toList, "tuple(int)".toList, ?_⟩
  · exact ⟨by decide, by decide, by decide, by decide⟩
  · exact ⟨by decide, by decide, by decide, by decide, by decide⟩

end SwiftDraft.Script
