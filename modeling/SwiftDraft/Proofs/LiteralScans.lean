import SwiftDraft.Proofs.ScannedHeaders

/-!
# String literals in scans

Four scans of a line look only at what stands outside its string literals. Each is a function of the
characters and of where the literals are (`markedDelta`, `markedAssignment`, `markedPieces`,
`markedClosing`), but there are two opinions on that: for the scans of script code a backslash takes
the next character of a literal out of play (`scriptMarks`), for those of lists it does not
(`listMarks`). They agree exactly if no literal holds an escaped quote of its own kind
(`marks_eq_iff`).
-/

namespace SwiftDraft.Text

/-- The characters of a text, each with whether a scan that comes to it is outside of literals. -/
abbrev Marked := List (Char × Bool)

/-- The quote of the literal that a place is in. -/
def Place.quote : Place → Option Char
  | code => none
  | literal q | escape q => some q

/-- The literals of script code. -/
def scriptMarks (p : Place) : Text → Marked
  | [] => []
  | c :: r => (c, p.quote.isNone) :: scriptMarks (p.next c) r

/-- The open quote behind one more character of a list. -/
def nextQuote (quote : Option Char) (c : Char) : Option Char :=
  match quote with
  | some q => if c = q then none else some q
  | none => if isQuote c then some c else none

/-- The literals of a list. -/
def listMarks (quote : Option Char) : Text → Marked
  | [] => []
  | c :: r => (c, quote.isNone) :: listMarks (nextQuote quote c) r

/-- Opening brackets less closing ones up to a comment. -/
def markedDelta : Marked → Int
  | [] => 0
  | (c, outside) :: r =>
    if outside ∧ c = '#' then 0
    else (if outside ∧ isOpening c then 1 else if outside ∧ isClosing c then -1 else 0) +
      markedDelta r

/-- The two sides of the first `=` that assigns. -/
def markedAssignment (prev : Char) : Marked → Option (Text × Text)
  | [] => none
  | (c, outside) :: r =>
    let behind := r.map Prod.fst
    if outside ∧ c = '#' then none
    else if outside ∧ c = '=' ∧ assigns prev behind then some ([], behind)
    else (markedAssignment c r).map fun (l, rest) => (c :: l, rest)

/-- The pieces between the commas outside brackets. -/
def markedPieces (depth : Int) : Marked → List Text
  | [] => [[]]
  | (c, outside) :: r =>
    if outside ∧ isOpening c then consPiece c (markedPieces (depth + 1) r)
    else if outside ∧ isClosing c then consPiece c (markedPieces (depth - 1) r)
    else if outside ∧ c = ',' ∧ depth = 0 then [] :: markedPieces depth r
    else consPiece c (markedPieces depth r)

/-- The text up to the `)` that closes a list, and what follows it. -/
def markedClosing (depth : Nat) : Marked → Option (Text × Text)
  | [] => none
  | (c, outside) :: r =>
    let keep := fun (d : Nat) => (markedClosing d r).map fun (l, rest) => (c :: l, rest)
    if outside ∧ isOpening c then keep (depth + 1)
    else if outside ∧ c = ')' ∧ depth = 0 then some ([], r.map Prod.fst)
    else if outside ∧ isClosing c then keep (depth - 1)
    else keep depth

section

variable {p : Place} {quote : Option Char} {c : Char} {r : Text}

theorem map_fst_scriptMarks (p : Place) (s : Text) : (scriptMarks p s).map Prod.fst = s := by
  induction s generalizing p with
  | nil => rfl
  | cons c s ih => rw [scriptMarks, List.map_cons, ih]

theorem map_fst_listMarks (quote : Option Char) (s : Text) :
    (listMarks quote s).map Prod.fst = s := by
  induction s generalizing quote with
  | nil => rfl
  | cons c s ih => rw [listMarks, List.map_cons, ih]

theorem bracketDeltaFrom_eq (p : Place) (s : Text) :
    bracketDeltaFrom p s = markedDelta (scriptMarks p s) := by
  induction s generalizing p with
  | nil => rfl
  | cons c s ih =>
    rw [bracketDeltaFrom, scriptMarks, markedDelta, ih]
    cases p <;> simp [Place.quote]

theorem cutAssignmentFrom_eq (p : Place) (prev : Char) (s : Text) :
    cutAssignmentFrom p prev s = markedAssignment prev (scriptMarks p s) := by
  induction s generalizing p prev with
  | nil => rfl
  | cons c s ih =>
    rw [cutAssignmentFrom, scriptMarks, markedAssignment, ih, map_fst_scriptMarks]
    cases p <;> simp [Place.quote]

/-- A quote is no bracket and no comma. -/
theorem plain_of_isQuote (h : isQuote c) :
    isOpening c = false ∧ isClosing c = false ∧ c ≠ ',' ∧ c ≠ ')' := by
  simp only [isQuote, Bool.or_eq_true, beq_iff_eq] at h
  rcases h with rfl | rfl <;> decide

theorem commaPieces_eq (depth : Int) (quote : Option Char) (s : Text) :
    commaPieces depth quote s = markedPieces depth (listMarks quote s) := by
  induction s generalizing depth quote with
  | nil => rfl
  | cons c s ih =>
    unfold commaPieces
    rw [listMarks, markedPieces]
    cases quote with
    | some q => simp [nextQuote, ih]
    | none =>
      by_cases quotes : isQuote c
      · obtain ⟨noOpening, noClosing, noComma, -⟩ := plain_of_isQuote quotes
        simp [nextQuote, quotes, noOpening, noClosing, noComma, ih]
      · simp [nextQuote, quotes, ih]

theorem cutClosing_eq_marked (depth : Nat) (quote : Option Char) (s : Text) :
    cutClosing depth quote s = markedClosing depth (listMarks quote s) := by
  induction s generalizing depth quote with
  | nil => rfl
  | cons c s ih =>
    unfold cutClosing
    rw [listMarks, markedClosing, map_fst_listMarks]
    cases quote with
    | some q => simp [nextQuote, ih]
    | none =>
      by_cases quotes : isQuote c
      · obtain ⟨noOpening, noClosing, -, noEnd⟩ := plain_of_isQuote quotes
        simp [nextQuote, quotes, noOpening, noClosing, noEnd, ih]
      · simp [nextQuote, quotes, ih]

/-- The quote that a place is in is one, if there is any. -/
def Place.Proper (p : Place) : Prop := ∀ q ∈ p.quote, isQuote q

theorem Place.proper_code : Place.Proper code := fun q mem => absurd mem (Option.not_mem_none q)

theorem Place.Proper.next (proper : p.Proper) (c : Char) : (p.next c).Proper := by
  cases p with
  | code =>
    intro q mem
    rw [Place.next] at mem
    split at mem
    · next quotes => rwa [← Option.some.inj mem]
    · cases mem
  | literal q =>
    rw [Place.next]
    split
    · exact proper
    · split
      · exact Place.proper_code
      · exact proper
  | escape q => exact proper

/-- The scans move alike, unless a literal's own quote is escaped. -/
theorem quote_next (proper : p.Proper) (other : p ≠ .escape c) :
    (p.next c).quote = nextQuote p.quote c := by
  cases p with
  | code =>
    change _ = if isQuote c then some c else none
    rw [Place.next]
    split <;> rfl
  | literal q =>
    change _ = if c = q then none else some q
    have noBackslash : q ≠ '\\' := by
      rintro rfl
      exact absurd (proper '\\' rfl) (by decide)
    rw [Place.next]
    by_cases backslash : c = '\\'
    · rw [if_pos backslash, if_neg (by rw [backslash]; exact Ne.symm noBackslash)]
      rfl
    · rw [if_neg backslash]
      split <;> rfl
  | escape q =>
    change some q = if c = q then none else some q
    rw [if_neg]
    rintro rfl
    exact other rfl

/-- From place `p` on, some literal holds an escaped quote of its own kind that is not the end of
the text. -/
def EscapesQuote (p : Place) (s : Text) : Prop :=
  ∃ t q r, s = t ++ q :: r ∧ r ≠ [] ∧ t.foldl Place.next p = .escape q

theorem escapesQuote_cons (other : p ≠ .escape c) (s : Text) :
    EscapesQuote p (c :: s) ↔ EscapesQuote (p.next c) s := by
  constructor
  · rintro ⟨t, q, r, whole, filled, inside⟩
    cases t with
    | nil =>
      cases whole
      exact absurd inside other
    | cons d t =>
      cases whole
      exact ⟨t, q, r, rfl, filled, inside⟩
  · rintro ⟨t, q, r, rfl, filled, inside⟩
    exact ⟨c :: t, q, r, rfl, filled, inside⟩

/-- Both scans put the literals of a text in the same places, exactly if no literal holds an escaped
quote of its own kind. -/
theorem marks_eq_iff (proper : p.Proper) (s : Text) :
    listMarks p.quote s = scriptMarks p s ↔ ¬EscapesQuote p s := by
  induction s generalizing p with
  | nil => simp [listMarks, scriptMarks, EscapesQuote]
  | cons c s ih =>
    rw [listMarks, scriptMarks, List.cons.injEq, eq_self, true_and]
    by_cases own : p = .escape c
    · subst own
      have opened : nextQuote (Place.escape c).quote c = none := if_pos rfl
      rw [opened, Place.next]
      cases s with
      | nil =>
        refine iff_of_true rfl ?_
        rintro ⟨t, q, r, whole, filled, -⟩
        have length := congrArg List.length whole
        simp only [List.length_append, List.length_cons, List.length_nil] at length
        exact filled (List.eq_nil_of_length_eq_zero (by omega))
      | cons d s =>
        refine iff_of_false ?_ ?_
        · simp [listMarks, scriptMarks, Place.quote]
        · exact not_not_intro ⟨[], c, d :: s, rfl, List.cons_ne_nil d s, rfl⟩
    · rw [← quote_next proper own, ih (proper.next c), escapesQuote_cons own]

end

/-- Between two quotes `q` stands the content of one literal of script code. -/
structure IsLiteral (q : Char) (body : Text) : Prop where
  quote : isQuote q
  /-- The quote may stand in the content, but only escaped. -/
  escaped : ∀ n < body.length, body[n]? = some q →
    (body.take n).foldl Place.next (.literal q) = .escape q
  inside : body.foldl Place.next (.literal q) = .literal q

variable {q : Char} {body : Text}

theorem IsLiteral.not_mem (literal : IsLiteral q body)
    (plain : ¬EscapesQuote .code (q :: body ++ [q])) : q ∉ body := by
  intro mem
  obtain ⟨n, inside, here⟩ := List.mem_iff_getElem.1 mem
  have escaped := literal.escaped n inside (List.getElem?_eq_some_iff.2 ⟨inside, here⟩)
  have split : body = body.take n ++ q :: body.drop (n + 1) := by
    rw [← here, ← List.drop_eq_getElem_cons inside, List.take_append_drop]
  refine plain ⟨q :: body.take n, q, body.drop (n + 1) ++ [q], ?_, by simp, ?_⟩
  · conv => lhs; rw [split]
    simp
  · rw [List.foldl_cons, Place.next, if_pos literal.quote, escaped]

theorem isClosed_quoted (quote : isQuote q) (absent : q ∉ body) :
    isClosed 0 none (q :: body ++ [q]) := by
  have inside : isClosed 0 (some q) (body ++ [q]) := by
    induction body with
    | nil => simp [isClosed]
    | cons c body ih =>
      obtain ⟨other, further⟩ := not_or.1 (mt List.mem_cons.2 absent)
      rw [List.cons_append, isClosed, if_neg (Ne.symm other)]
      exact ih further
  rw [List.cons_append, isClosed]
  simpa only [if_pos quote] using inside

/-- Pieces as items: trimmed, and without a last one that is blank. -/
def itemsOf (pieces : List Text) : List Text :=
  let trimmed := pieces.map trim
  if trimmed.getLast? = some [] then trimmed.dropLast else trimmed

/-- The scans of brackets and assignments go by the literals of script code, those of items and of
the end of a list by the literals of a list. These are the same exactly if no literal holds an
escaped quote of its own kind; a literal that holds none stays in one item, and the end of a list
behind it is found. -/
theorem scans_agree (s : Text) :
    bracketDelta s = markedDelta (scriptMarks .code s) ∧
      cutAssignment s = markedAssignment ' ' (scriptMarks .code s) ∧
      splitTopLevel s = itemsOf (markedPieces 0 (listMarks none s)) ∧
      cutClosing 0 none s = markedClosing 0 (listMarks none s) ∧
      (listMarks none s = scriptMarks .code s ↔ ¬EscapesQuote .code s) ∧
      ∀ q body rest, IsLiteral q body → ¬EscapesQuote .code (q :: body ++ [q]) →
        commaPieces 0 none (q :: body ++ [q] ++ rest) =
            prependPiece (q :: body ++ [q]) (commaPieces 0 none rest) ∧
          cutClosing 0 none (q :: body ++ [q] ++ rest) =
            (cutClosing 0 none rest).map fun (l, r) => (q :: body ++ [q] ++ l, r) := by
  refine ⟨bracketDeltaFrom_eq .code s, cutAssignmentFrom_eq .code ' ' s, ?_,
    cutClosing_eq_marked 0 none s, marks_eq_iff Place.proper_code s, ?_⟩
  · rw [← commaPieces_eq]
    rfl
  · intro q body rest literal plain
    have closed := isClosed_quoted literal.quote (literal.not_mem plain)
    exact ⟨commaPieces_of_isClosed closed rest, cutClosing_append (behind_of_isClosed closed) rest⟩

/-- A literal with a comma, a parenthesis and a backslash in it is one item. -/
theorem scans_agree_of_backslash :
    IsLiteral '"' ", )\\n".toList ∧ ¬EscapesQuote .code ('"' :: ", )\\n".toList ++ ['"']) ∧
      commaPieces 0 none ('"' :: ", )\\n".toList ++ ['"'] ++ ", b".toList) =
        ["\", )\\n\"".toList, " b".toList] := by
  have literal : IsLiteral '"' ", )\\n".toList := ⟨by decide, by decide, by decide⟩
  have plain : ¬EscapesQuote .code ('"' :: ", )\\n".toList ++ ['"']) :=
    (marks_eq_iff Place.proper_code _).1 (by decide)
  obtain ⟨-, -, -, -, -, whole⟩ := scans_agree ", b".toList
  refine ⟨literal, plain, ?_⟩
  rw [(whole '"' _ ", b".toList literal plain).1]
  decide

/-- An escaped quote in a default value: `sep="\",\""` is one parameter, and is split at the comma;
`sep = "\"") {` ends its list, and the end is not found. -/
theorem escaped_quote_splits_default :
    IsLiteral '"' "\\\",\\\"".toList ∧
      splitTopLevel "sep=\"\\\",\\\"\"".toList = ["sep=\"\\\"".toList, "\\\"\"".toList] ∧
      itemsOf (markedPieces 0 (scriptMarks .code "sep=\"\\\",\\\"\"".toList)) =
        ["sep=\"\\\",\\\"\"".toList] ∧
      cutClosing 0 none "sep = \"\\\"\") \x7b".toList = none ∧
      markedClosing 0 (scriptMarks .code "sep = \"\\\"\") \x7b".toList) =
        some ("sep = \"\\\"\"".toList, " \x7b".toList) := by
  refine ⟨⟨by decide, by decide, by decide⟩, by decide, by decide, by decide, by decide⟩

end SwiftDraft.Text
