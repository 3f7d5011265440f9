import SwiftDraft.Proofs.LiteralScans

/-!
# The sign of an assignment

The first `=` that assigns is a run of `=` of its own: a line is cut at the first run that is one
character long, stands outside of string literals and in front of any comment, and does not follow
the start of a comparison (`IsSign`, `cutAssignment_eq_some_iff`). What is outside is said by a
grammar of literals (`Outside`), with which the places of a scan agree (`outside_iff`).
-/

namespace SwiftDraft.Text

/-- What may stand between two quotes `q`. A backslash takes the next character out of play. -/
inductive Content (q : Char) : Text → Prop
  | nil : Content q []
  | char {c : Char} {s : Text} (other : c ≠ q) (plain : c ≠ '\\') (rest : Content q s) :
      Content q (c :: s)
  | escaped {c : Char} {s : Text} (rest : Content q s) : Content q ('\\' :: c :: s)

/-- Text that consists of whole literals and of characters that are no quotes, so that what follows
it stands outside of literals. -/
inductive Outside : Text → Prop
  | nil : Outside []
  | char {c : Char} {s : Text} (plain : isQuote c = false) (rest : Outside s) : Outside (c :: s)
  | literal {q : Char} {body s : Text} (quote : isQuote q) (content : Content q body)
      (rest : Outside s) : Outside (q :: (body ++ q :: s))

section

variable {q c : Char} {body s t : Text}

theorem next_code_of_plain (plain : isQuote c = false) : Place.code.next c = .code := by
  rw [Place.next, plain]
  rfl

theorem next_code_of_quote (quote : isQuote q) : Place.code.next q = .literal q := if_pos quote

theorem ne_backslash_of_isQuote (quote : isQuote q) : q ≠ '\\' := by
  rintro rfl
  exact absurd quote (by decide)

theorem next_literal_self (quote : isQuote q) : (Place.literal q).next q = .code := by
  rw [Place.next, if_neg (ne_backslash_of_isQuote quote), if_pos rfl]

theorem foldl_next_content (content : Content q body) :
    body.foldl Place.next (.literal q) = .literal q := by
  induction content with
  | nil => rfl
  | char other plain _ ih => rwa [List.foldl_cons, Place.next, if_neg plain, if_neg other]
  | escaped _ ih => exact ih

/-- From inside a literal, code is only reached through its end; behind a backslash one character is
passed first. -/
theorem content_of_foldl (s : Text) :
    (s.foldl Place.next (.literal q) = .code →
      ∃ body rest, s = body ++ q :: rest ∧ Content q body ∧ rest.foldl Place.next .code = .code) ∧
    (s.foldl Place.next (.escape q) = .code →
      ∃ c body rest, s = c :: (body ++ q :: rest) ∧ Content q body ∧
        rest.foldl Place.next .code = .code) := by
  induction s with
  | nil => exact ⟨nofun, nofun⟩
  | cons c s ih =>
    obtain ⟨literal, escape⟩ := ih
    constructor
    · intro closed
      rw [List.foldl_cons, Place.next] at closed
      by_cases backslash : c = '\\'
      · rw [if_pos backslash] at closed
        obtain ⟨d, body, rest, rfl, content, code⟩ := escape closed
        rw [backslash]
        exact ⟨'\\' :: d :: body, rest, rfl, .escaped content, code⟩
      · rw [if_neg backslash] at closed
        by_cases ends : c = q
        · rw [if_pos ends] at closed
          rw [ends]
          exact ⟨[], s, rfl, .nil, closed⟩
        · rw [if_neg ends] at closed
          obtain ⟨body, rest, rfl, content, code⟩ := literal closed
          exact ⟨c :: body, rest, rfl, .char ends backslash content, code⟩
    · intro closed
      obtain ⟨body, rest, rfl, content, code⟩ := literal closed
      exact ⟨c, body, rest, rfl, content, code⟩

/-- A scan is outside of literals behind exactly the texts of the grammar. -/
theorem outside_iff (s : Text) : Outside s ↔ s.foldl Place.next .code = .code := by
  constructor
  · intro outside
    induction outside with
    | nil => rfl
    | char plain _ ih => rwa [List.foldl_cons, next_code_of_plain plain]
    | literal quote content _ ih =>
      rwa [List.foldl_cons, next_code_of_quote quote, List.foldl_append,
        foldl_next_content content, List.foldl_cons, next_literal_self quote]
  · -- a literal is passed as a whole, so that the induction is on the length
    intro code
    induction n : s.length using Nat.strongRecOn generalizing s with
    | ind n ih =>
      subst n
      cases s with
      | nil => exact .nil
      | cons c s =>
        rw [List.foldl_cons] at code
        cases quote : isQuote c with
        | false =>
          rw [next_code_of_plain quote] at code
          exact .char quote (ih _ (Nat.lt_succ_self _) s code rfl)
        | true =>
          rw [next_code_of_quote quote] at code
          obtain ⟨body, rest, rfl, content, code⟩ := (content_of_foldl s).1 code
          have shorter : rest.length < (c :: (body ++ c :: rest)).length := by
            simp only [List.length_cons, List.length_append]
            omega
          exact .literal quote content (ih _ shorter rest code rfl)

end

/-- Between `left` and `right` stands a maximal run of `n` signs `=`. -/
structure IsRun (line left : Text) (n : Nat) (right : Text) : Prop where
  whole : line = left ++ (List.replicate n '=' ++ right)
  filled : 0 < n
  before : left.getLast? ≠ some '='
  behind : right.head? ≠ some '='

/-- Between `left` and `right` stands a `=` that assigns. -/
structure IsSign (line left right : Text) : Prop where
  run : IsRun line left 1 right
  outside : Outside left
  /-- No comment starts in front of it. -/
  uncommented : ∀ t u, left = t ++ '#' :: u → ¬Outside t
  apart : ∀ c ∈ left.getLast?, c ≠ '!' ∧ c ≠ '<' ∧ c ≠ '>'

/-- No sign stands further in front. -/
def IsFirstSign (line left right : Text) : Prop :=
  IsSign line left right ∧ ∀ l r, IsSign line l r → left.length ≤ l.length

/-- The same for a scan that is at place `p` behind the character `prev`. -/
structure SignFrom (p : Place) (prev : Char) (s left right : Text) : Prop where
  whole : s = left ++ '=' :: right
  outside : left.foldl Place.next p = .code
  uncommented : ∀ t u, left = t ++ '#' :: u → t.foldl Place.next p ≠ .code
  assigns : assigns (left.getLast?.getD prev) right

section

variable {p : Place} {prev c : Char} {s line left right : Text}

theorem isSign_iff : IsSign line left right ↔ SignFrom .code ' ' line left right := by
  have apart_iff : assigns (left.getLast?.getD ' ') right ↔
      left.getLast? ≠ some '=' ∧ right.head? ≠ some '=' ∧
        ∀ c ∈ left.getLast?, c ≠ '!' ∧ c ≠ '<' ∧ c ≠ '>' := by
    cases left.getLast? with
    | none => simp [Text.assigns]
    | some c =>
      simp only [Text.assigns, Option.getD_some, Bool.and_eq_true, bne_iff_ne, Bool.not_eq_true',
        Bool.or_eq_false_iff, beq_eq_false_iff_ne, Option.mem_some, forall_eq', Option.some.injEq,
        ne_eq]
      tauto
  constructor
  · rintro ⟨run, outside, uncommented, apart⟩
    refine ⟨run.whole, (outside_iff _).1 outside, fun t u cut code => ?_, ?_⟩
    · exact uncommented t u cut ((outside_iff t).2 code)
    · exact apart_iff.2 ⟨run.before, run.behind, apart⟩
  · rintro ⟨whole, outside, uncommented, alone⟩
    obtain ⟨before, behind, apart⟩ := apart_iff.1 alone
    refine ⟨⟨whole, Nat.one_pos, before, behind⟩, (outside_iff _).2 outside, fun t u cut code => ?_,
      apart⟩
    exact uncommented t u cut ((outside_iff t).1 code)

/-- A sign is the first character, or it is a sign behind it and no comment starts here. -/
theorem signFrom_cons : SignFrom p prev (c :: s) left right ↔
    (left = [] ∧ right = s ∧ p = .code ∧ c = '=' ∧ assigns prev s) ∨
      ∃ l, left = c :: l ∧ ¬(p = .code ∧ c = '#') ∧ SignFrom (p.next c) c s l right := by
  constructor
  · rintro ⟨whole, outside, uncommented, alone⟩
    cases left with
    | nil =>
      cases whole
      exact Or.inl ⟨rfl, rfl, outside, rfl, alone⟩
    | cons d l =>
      obtain ⟨rfl, behind⟩ := List.cons.inj whole
      refine Or.inr ⟨l, rfl, ?_, behind, outside, fun t u cut => ?_, ?_⟩
      · rintro ⟨code, rfl⟩
        exact uncommented [] l rfl code
      · exact uncommented (c :: t) u (congrArg (c :: ·) cut)
      · rwa [List.getLast?_cons, Option.getD_some] at alone
  · rintro (⟨rfl, rfl, code, rfl, alone⟩ | ⟨l, rfl, noComment, behind, outside, uncommented, alone⟩)
    · exact ⟨rfl, code, by simp, alone⟩
    · refine ⟨congrArg (c :: ·) behind, outside, fun t u cut code => ?_, ?_⟩
      · cases t with
        | nil => exact noComment ⟨code, (List.cons.inj cut).1⟩
        | cons d t =>
          obtain ⟨rfl, rest⟩ := List.cons.inj cut
          exact uncommented t u rest code
      · rwa [List.getLast?_cons, Option.getD_some]

theorem cutAssignmentFrom_further (noComment : ¬(p = .code ∧ c = '#'))
    (noSign : ¬(p = .code ∧ c = '=' ∧ assigns prev s)) :
    cutAssignmentFrom p prev (c :: s) =
      (cutAssignmentFrom (p.next c) c s).map fun (l, r) => (c :: l, r) := by
  rw [cutAssignmentFrom]
  by_cases code : p = .code
  · rw [if_pos code, if_neg fun hash => noComment ⟨code, hash⟩, if_neg]
    simpa [code] using noSign
  · rw [if_neg code]

/-- The scan gives the first sign, and nothing if there is none. -/
theorem firstSign_of_cut (p : Place) (prev : Char) (s : Text) :
    match cutAssignmentFrom p prev s with
    | some (l, r) =>
      SignFrom p prev s l r ∧ ∀ l' r', SignFrom p prev s l' r' → l.length ≤ l'.length
    | none => ∀ l r, ¬SignFrom p prev s l r := by
  induction s generalizing p prev with
  | nil => exact fun l r sign => by simpa using sign.whole
  | cons c s ih =>
    by_cases comment : p = .code ∧ c = '#'
    · have nothing : cutAssignmentFrom p prev (c :: s) = none := by
        simp [cutAssignmentFrom, comment]
      rw [nothing]
      intro l r sign
      rcases signFrom_cons.1 sign with ⟨-, -, -, equals, -⟩ | ⟨-, -, noComment, -⟩
      · rw [comment.2] at equals
        exact absurd equals (by decide)
      · exact noComment comment
    by_cases sign : p = .code ∧ c = '=' ∧ assigns prev s
    · have here : cutAssignmentFrom p prev (c :: s) = some ([], s) := by
        simp [cutAssignmentFrom, sign]
      rw [here]
      exact ⟨signFrom_cons.2 (Or.inl ⟨rfl, rfl, sign⟩), fun l' r' _ => Nat.zero_le _⟩
    · have later {l r : Text} (found : SignFrom p prev (c :: s) l r) :
          ∃ l', l = c :: l' ∧ SignFrom (p.next c) c s l' r := by
        rcases signFrom_cons.1 found with ⟨-, -, first⟩ | ⟨l', shape, -, behind⟩
        · exact absurd first sign
        · exact ⟨l', shape, behind⟩
      have rest := ih (p.next c) c
      rw [cutAssignmentFrom_further comment sign]
      cases cut : cutAssignmentFrom (p.next c) c s with
      | none =>
        rw [cut] at rest
        intro l r found
        obtain ⟨l', -, behind⟩ := later found
        exact rest l' r behind
      | some pair =>
        obtain ⟨l, r⟩ := pair
        rw [cut] at rest
        obtain ⟨found, first⟩ := rest
        refine ⟨signFrom_cons.2 (Or.inr ⟨l, rfl, comment, found⟩), fun l' r' other => ?_⟩
        obtain ⟨l', rfl, behind⟩ := later other
        exact Nat.succ_le_succ (first l' r' behind)

theorem cutAssignment_eq_none_iff :
    cutAssignment line = none ↔ ∀ l r, ¬IsSign line l r := by
  have first := firstSign_of_cut .code ' ' line
  simp only [isSign_iff]
  rw [cutAssignment]
  cases cut : cutAssignmentFrom .code ' ' line with
  | none =>
    rw [cut] at first
    exact iff_of_true rfl first
  | some pair =>
    obtain ⟨l, r⟩ := pair
    rw [cut] at first
    exact iff_of_false nofun fun none => none l r first.1

/-- A line is cut at its first sign. -/
theorem cutAssignment_eq_some_iff :
    cutAssignment line = some (left, right) ↔ IsFirstSign line left right := by
  have first := firstSign_of_cut .code ' ' line
  simp only [IsFirstSign, isSign_iff]
  rw [cutAssignment]
  cases cut : cutAssignmentFrom .code ' ' line with
  | none =>
    rw [cut] at first
    exact iff_of_false nofun fun found => first _ _ found.1
  | some pair =>
    obtain ⟨l, r⟩ := pair
    rw [cut] at first
    constructor
    · rintro ⟨⟩
      exact first
    · rintro ⟨sign, least⟩
      have same : l.length = left.length :=
        Nat.le_antisymm (first.2 left right sign) (least l r first.1)
      obtain ⟨rfl, behind⟩ := List.append_inj (first.1.whole.symm.trans sign.whole) same
      rw [(List.cons.inj behind).2]

end

section

variable {s t i line left right l r : Text} {c : Char}

theorem ne_of_isBlank (blank : isBlank c) : c ≠ '=' ∧ c ≠ '!' ∧ c ≠ '<' ∧ c ≠ '>' := by
  refine ⟨?_, ?_, ?_, ?_⟩ <;>
  · rintro rfl
    exact absurd blank (by decide)

theorem assigns_of_blank (blank : isBlank c) : assigns c r = (r.head? != some '=') := by
  obtain ⟨noSign, noNot, noLess, noMore⟩ := ne_of_isBlank blank
  simp [assigns, noSign, noNot, noLess, noMore]

theorem SignFrom.blanks_append (sign : SignFrom .code ' ' s l r) (blanks : ∀ c ∈ i, isBlank c)
    {prev : Char} (blank : isBlank prev) : SignFrom .code prev (i ++ s) (i ++ l) r := by
  induction i generalizing prev with
  | nil =>
    refine ⟨sign.whole, sign.outside, sign.uncommented, ?_⟩
    have alone := sign.assigns
    rw [List.nil_append]
    cases last : l.getLast? with
    | some c => rwa [last] at alone
    | none =>
      rw [last, Option.getD_none, assigns_of_blank (by decide)] at alone
      rwa [Option.getD_none, assigns_of_blank blank]
  | cons c i ih =>
    obtain ⟨own, blanks⟩ := List.forall_mem_cons.1 blanks
    obtain ⟨noHash, noQuote, -⟩ := plain_of_isBlank own
    refine signFrom_cons.2 (Or.inr ⟨i ++ l, rfl, fun comment => noHash comment.2, ?_⟩)
    rw [next_code_of_plain noQuote]
    exact ih blanks own

/-- Blanks in front of a text change nothing about its signs. -/
theorem IsSign.blanks_append (sign : IsSign s l r) (blanks : ∀ c ∈ i, isBlank c) :
    IsSign (i ++ s) (i ++ l) r :=
  isSign_iff.2 ((isSign_iff.1 sign).blanks_append blanks (by decide))

theorem IsSign.append_right (sign : IsSign s l r) (behind : (r ++ t).head? ≠ some '=') :
    IsSign (s ++ t) l (r ++ t) := by
  refine ⟨⟨?_, Nat.one_pos, sign.run.before, behind⟩, sign.outside, sign.uncommented, sign.apart⟩
  rw [sign.run.whole, List.append_assoc, List.append_assoc]

/-- No sign stands in the trimmed text in front of the first one. -/
theorem IsFirstSign.not_isSign_trim (first : IsFirstSign line left right) (l r : Text) :
    ¬IsSign (trim left) l r := by
  obtain ⟨sign, least⟩ := first
  obtain ⟨i, j, shape, front, back⟩ := exists_blanks_trim left
  intro inside
  have trimmed : trim left = l ++ '=' :: r := inside.run.whole
  have behind : (r ++ (j ++ '=' :: right)).head? ≠ some '=' := by
    intro equals
    cases r with
    | cons c r => exact inside.run.behind equals
    | nil =>
      cases j with
      | cons c j => exact (ne_of_isBlank (back c List.mem_cons_self)).1 (Option.some.inj equals)
      | nil =>
        -- the two signs would stand side by side
        refine sign.run.before ?_
        rw [shape, trimmed]
        simp
  have earlier := (inside.blanks_append front).append_right behind
  have whole : i ++ trim left ++ (j ++ '=' :: right) = line := by
    rw [sign.run.whole, ← List.append_assoc, ← shape]
    rfl
  rw [whole] at earlier
  have short := least _ _ earlier
  rw [shape, trimmed] at short
  simp only [List.length_append, List.length_cons] at short
  omega

end

end SwiftDraft.Text
