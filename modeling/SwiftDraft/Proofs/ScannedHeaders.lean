import SwiftDraft.Proofs.DraftLines
import SwiftDraft.Proofs.HeaderLines
import SwiftDraft.Proofs.Imports

/-!
# Headers that are scanned back

The scan of a draft finds in the header of a function what it was printed from: its name, the labels,
names and types of its parameters and its return type. Default values are not found again, but they
must not disturb the search: they have to be closed (`isClosed`).
-/

namespace SwiftDraft

namespace Text

/-- Whether a text that stands behind `depth` open brackets, and inside of `quote` if that is given,
closes them, opens no others for good, closes none that is not open, and has a comma in brackets and
quotes only. -/
def isClosed (depth : Nat) (quote : Option Char) : Text → Bool
  | [] => depth == 0 && quote.isNone
  | c :: r =>
    match quote with
    | some q => isClosed depth (if c = q then none else quote) r
    | none =>
      if isQuote c then isClosed depth (some c) r
      else if isOpening c then isClosed (depth + 1) none r
      else if isClosing c then depth != 0 && isClosed (depth - 1) none r
      else (c != ',' || depth != 0) && isClosed depth none r

/-- The characters that decide whether a text is closed. -/
def isDelimiter (c : Char) : Bool := isStructural c || c == ','

section

variable {depth : Nat} {quote : Option Char} {c : Char} {t : Text}

/-- One character of a closed text: both scans of a list pass it, to the same place. -/
theorem isClosed_cons (h : isClosed depth quote (c :: t)) :
    ∃ s : Scan, isClosed s.depth s.quote t ∧ Scan.next ⟨depth, quote⟩ c = some s ∧
      ∀ r, commaPieces depth quote (c :: r) = consPiece c (commaPieces s.depth s.quote r) := by
  cases quote with
  | some q =>
    rw [isClosed] at h
    exact ⟨⟨depth, if c = q then none else some q⟩, h, rfl, fun r => by rw [commaPieces]⟩
  | none =>
    rw [isClosed] at h
    by_cases quotes : isQuote c
    · refine ⟨⟨depth, some c⟩, by simpa [quotes] using h, by simp [Scan.next, quotes], fun r => ?_⟩
      rw [commaPieces]
      simp [quotes]
    · by_cases opens : isOpening c
      · refine ⟨⟨depth + 1, none⟩, by simpa [quotes, opens] using h,
          by simp [Scan.next, quotes, opens], fun r => ?_⟩
        rw [commaPieces]
        simp [quotes, opens]
      · by_cases closes : isClosing c
        · obtain ⟨opened, further⟩ : depth ≠ 0 ∧ isClosed (depth - 1) none t := by
            simpa [quotes, opens, closes] using h
          have inside : ((depth - 1 : Nat) : Int) = depth - 1 := by omega
          refine ⟨⟨depth - 1, none⟩, further, by simp [Scan.next, quotes, opens, closes, opened],
            fun r => ?_⟩
          rw [commaPieces]
          simp [quotes, opens, closes, inside]
        · obtain ⟨comma, further⟩ : (c = ',' → depth ≠ 0) ∧ isClosed depth none t := by
            simpa [quotes, opens, closes, Decidable.imp_iff_not_or] using h
          have parenthesis : c ≠ ')' := by
            rintro rfl
            exact closes rfl
          refine ⟨⟨depth, none⟩, further, by simp [Scan.next, quotes, opens, closes, parenthesis],
            fun r => ?_⟩
          rw [commaPieces]
          simpa [quotes, opens, closes] using fun here top => absurd top (comma here)

theorem isClosed_nil (h : isClosed depth quote []) : depth = 0 ∧ quote = none := by
  simpa [isClosed] using h

theorem behind_of_isClosed (h : isClosed depth quote t) :
    Scan.behind ⟨depth, quote⟩ t = some ⟨0, none⟩ := by
  induction t generalizing depth quote with
  | nil =>
    obtain ⟨rfl, rfl⟩ := isClosed_nil h
    rfl
  | cons c t ih =>
    obtain ⟨s, further, passed, -⟩ := isClosed_cons h
    rw [Scan.behind, passed, Option.bind_some, ih further]

theorem commaPieces_of_isClosed (h : isClosed depth quote t) (rest : Text) :
    commaPieces depth quote (t ++ rest) = prependPiece t (commaPieces 0 none rest) := by
  induction t generalizing depth quote with
  | nil =>
    obtain ⟨rfl, rfl⟩ := isClosed_nil h
    exact Uncut.nil 0 rest
  | cons c t ih =>
    obtain ⟨s, further, -, uncut⟩ := isClosed_cons h
    rw [List.cons_append, uncut, ih further, consPiece_eq, ← prependPiece_append]
    rfl

theorem isClosed_cons_of_not_delimiter (quoted : ∀ q ∈ quote, isQuote q)
    (plain : isDelimiter c = false) : isClosed depth quote (c :: t) = isClosed depth quote t := by
  simp only [isDelimiter, isStructural, Bool.or_eq_false_iff, beq_eq_false_iff_ne] at plain
  obtain ⟨⟨⟨noQuote, noOpening⟩, noClosing⟩, noComma⟩ := plain
  cases quote with
  | some q =>
    have other : c ≠ q := by
      rintro rfl
      rw [quoted c rfl] at noQuote
      cases noQuote
    rw [isClosed, if_neg other]
  | none =>
    rw [isClosed]
    simp [noQuote, noOpening, noClosing, noComma]

/-- Characters that are no delimiters do not matter. -/
theorem isClosed_filter (quoted : ∀ q ∈ quote, isQuote q) :
    isClosed depth quote (t.filter isDelimiter) = isClosed depth quote t := by
  induction t generalizing depth quote with
  | nil => rfl
  | cons c t ih =>
    cases plain : isDelimiter c with
    | false =>
      rw [List.filter_cons_of_neg (by simp [plain]), ih quoted,
        isClosed_cons_of_not_delimiter quoted plain]
    | true =>
      rw [List.filter_cons_of_pos plain]
      cases quote with
      | some q =>
        rw [isClosed, isClosed]
        refine ih ?_
        split
        · exact nofun
        · exact quoted
      | none =>
        have outside (depth : Nat) :
            isClosed depth none (t.filter isDelimiter) = isClosed depth none t := ih (by simp)
        rw [isClosed, isClosed]
        simp only [outside]
        split
        · next quotes => exact ih (by simpa using quotes)
        · rfl

end

end Text

namespace Draft

open Text
open Script (Parameter Header isBlank_of_isWord)

theorem isClosed_expression {d : Text} (h : isClosed 0 none d) : isClosed 0 none (expression d) := by
  have kept : (expression d).filter isDelimiter = d.filter isDelimiter := by
    refine filter_expression ⟨by decide, fun c _ blank => ?_⟩
    obtain ⟨-, noQuote, noOpening, noClosing⟩ := plain_of_isBlank blank
    have noComma : c ≠ ',' := by
      rintro rfl
      cases blank
    simp [isDelimiter, isStructural, noQuote, noOpening, noClosing, noComma]
  rw [← isClosed_filter (by simp), kept, isClosed_filter (by simp), h]

/-- A name of word characters, such as an identifier. -/
def IsWordName (name : Text) : Prop := name ≠ [] ∧ ∀ c ∈ name, isWord c

theorem isDelimiter_of_isWord {c : Char} (word : isWord c) : isDelimiter c = false := by
  by_contra delimiter
  simp only [isDelimiter, isStructural, isQuote, isOpening, isClosing, Bool.not_eq_false,
    Bool.or_eq_true, beq_iff_eq] at delimiter
  rcases delimiter with (((rfl | rfl) | (rfl | rfl) | rfl) | (rfl | rfl) | rfl) | rfl <;>
    exact absurd word (by decide)

theorem isWordName_of_isIdentifier {name : Text} (identifier : IsIdentifier name) :
    IsWordName name := by
  obtain ⟨c, r, rfl, starts, word⟩ := identifier
  exact ⟨List.cons_ne_nil c r, List.forall_mem_cons.2 ⟨isWord_of_startsName starts, word⟩⟩

theorem words_append_blank (s t : Text) : words (s ++ ' ' :: t) = words s ++ words t := by
  simp only [words]
  rw [List.splitOnP_append_cons s t (by decide), List.filter_append]

namespace IsWordName

variable {name : Text} {c : Char}

theorem not_mem (named : IsWordName name) (sign : isWord c = false) : c ∉ name := by
  intro mem
  rw [named.2 c mem] at sign
  cases sign

theorem isName (named : IsWordName name) : WrittenHint.IsName name := by
  refine ⟨named.1, fun c mem => ?_⟩
  have word := named.2 c mem
  simpa [WrittenHint.isNameChar, isDelimiter, isBlank_of_isWord word] using isDelimiter_of_isWord word

theorem words_eq (named : IsWordName name) : words name = [name] := by
  have visible : ∀ c ∈ name, isBlank c = false := fun c mem =>
    (WrittenHint.plain_of_isNameChar (named.isName.2 c mem)).1
  simp [words, List.splitOnP_eq_singleton visible, named.1]

end IsWordName

/-- Which arguments a parameter takes. -/
inductive Taking where
  | one
  /-- As `*name` does. -/
  | others
  /-- As `**name` does. -/
  | keywords
  deriving DecidableEq, Repr

def Taking.stars : Taking → Text
  | one => []
  | others => "*".toList
  | keywords => "**".toList

/-- A parameter whose name is made of word characters, and whose default value is closed. -/
structure NamedParameter where
  taking : Taking
  name : Text
  hint : Option Text
  default : Option Text
  named : IsWordName name
  closed : ∀ d ∈ default, isClosed 0 none d

namespace NamedParameter

variable (p : NamedParameter)

/-- The parameter as a script has it. -/
def written : Parameter := ⟨p.taking.stars ++ p.name, p.hint, p.default⟩

/-- The parameter as a scan finds it. -/
def declared : DeclaredParameter :=
  match p.taking with
  | .one => ⟨some p.name, p.name, p.hint.map fun hint => (hintType hint).text⟩
  | .others => ⟨none, p.name, some "Any...".toList⟩
  | .keywords => ⟨some p.name, p.name, some "[String: Any]".toList⟩

theorem tight_name : Tight p.name := p.named.isName.tight

/-- No star starts a name. -/
theorem after?_name {stars : String} (starred : '*' ∈ stars.toList) : after? stars p.name = none := by
  rw [Option.eq_none_iff_forall_ne_some]
  intro rest found
  refine p.named.not_mem (show isWord '*' = false by decide) ?_
  rw [after?_eq_some_iff.1 found]
  exact List.mem_append_left rest starred

theorem parameter_written : parameter p.written =
    match p.taking with
    | .one => p.name ++ (match p.hint with
        | some a => ": ".toList ++ (hintType a).text
        | none => []) ++ match p.default with
        | some d => " = ".toList ++ expression d
        | none => []
    | .others => "_ ".toList ++ p.name ++ ": Any...".toList
    | .keywords => p.name ++ ": [String: Any]".toList := by
  unfold parameter written
  cases p.taking with
  | one =>
    have noTwo := p.after?_name (show '*' ∈ "**".toList by decide)
    have noOne := p.after?_name (show '*' ∈ "*".toList by decide)
    cases p.hint <;> cases p.default <;>
      simp only [Taking.stars, List.nil_append, noTwo, noOne, List.append_nil]
  | others =>
    have one : after? "**" (Taking.others.stars ++ p.name) = none := by
      have next := p.after?_name (show '*' ∈ "*".toList by decide)
      simpa [after?, Taking.stars, List.isPrefixOf?] using next
    have rest : after? "*" (Taking.others.stars ++ p.name) = some p.name :=
      after?_eq_some_iff.2 rfl
    simp only [one, rest]
  | keywords =>
    have rest : after? "**" (Taking.keywords.stars ++ p.name) = some p.name :=
      after?_eq_some_iff.2 rfl
    simp only [rest]

theorem quiet_written : Quiet 0 (parameter p.written) := by
  refine quiet_parameter ?_ fun d given => behind_of_isClosed (p.closed d given)
  have stars : p.taking.stars.any isStructural = false := by
    cases p.taking <;> decide
  have name : ∀ c ∈ p.name, isStructural c = false := fun c mem =>
    (WrittenHint.plain_of_isNameChar (p.named.isName.2 c mem)).2.1
  exact (Quiet.of_plain 0 stars).append (.of_plain 0 (List.any_eq_false.2 (by simpa using name)))

theorem uncut_written : Uncut 0 (parameter p.written) := by
  have name := p.named.isName.uncut 0
  have plain {s : Text} (h : s.any isDelimiter = false) : Uncut 0 s := by
    have signs : ∀ c ∈ s, isStructural c = false ∧ c ≠ ',' := by
      simpa [isDelimiter] using h
    exact .of_plain (fun c mem => (signs c mem).1) fun c mem comma => absurd comma (signs c mem).2
  rw [parameter_written]
  cases p.taking with
  | one =>
    refine (name.append ?_).append ?_
    · split
      · exact (plain (by decide)).append (uncut_text _ (Int.le_refl 0))
      · exact .nil 0
    · split
      · next d given =>
        have default : Uncut 0 (expression d) := fun rest =>
          commaPieces_of_isClosed (isClosed_expression (p.closed d given)) rest
        exact (plain (by decide)).append default
      · exact .nil 0
  | others => exact ((plain (by decide)).append name).append (plain (by decide))
  | keywords =>
    have type : Uncut 0 "[String: Any]".toList :=
      uncut_text (.dictionary .string .any) (Int.le_refl 0)
    exact name.append ((plain (s := ": ".toList) (by decide)).append type)

theorem trim_written : trim (parameter p.written) ≠ [] := by
  obtain ⟨c, r, first⟩ := List.exists_cons_of_ne_nil p.tight_name.1
  have visible : isBlank c = false := (plain_of_isSolid (p.tight_name.2.1 c (by simp [first]))).1
  have mem : c ∈ parameter p.written := by
    rw [parameter_written]
    cases p.taking <;> simp [first]
  exact trim_ne_nil ⟨c, mem, visible⟩

end NamedParameter

section

variable {s d : Text}

/-- Only what stands in front of the first `=` matters, without the blanks around it. -/
theorem declaredParameter?_congr {u : Text}
    (same : trim (s.takeWhile (· ≠ '=')) = trim (u.takeWhile (· ≠ '='))) :
    declaredParameter? s = declaredParameter? u := by
  simp only [declaredParameter?, same]

theorem takeWhile_of_not_mem (absent : '=' ∉ d) : d.takeWhile (· ≠ '=') = d := by
  refine List.takeWhile_eq_self_iff.2 fun c mem => decide_eq_true ?_
  rintro rfl
  exact absent mem

theorem takeWhile_append_equals (absent : '=' ∉ d) (rest : Text) :
    (d ++ '=' :: rest).takeWhile (· ≠ '=') = d := by
  have front : ∀ c ∈ d, decide (c ≠ '=') := List.takeWhile_eq_self_iff.1 (takeWhile_of_not_mem absent)
  rw [List.takeWhile_append_of_pos front, List.takeWhile_cons_of_neg (by simp), List.append_nil]

theorem declaredParameter?_trim (s : Text) : declaredParameter? (trim s) = declaredParameter? s := by
  obtain ⟨i, j, whole, front, back⟩ := exists_blanks_trim s
  have noEquals {k : Text} (blanks : ∀ c ∈ k, isBlank c) : '=' ∉ k := fun mem =>
    absurd (blanks '=' mem) (by decide)
  apply declaredParameter?_congr
  by_cases equals : '=' ∈ trim s
  · obtain ⟨a, b, shape, absent⟩ := List.eq_append_cons_of_mem equals
    have split : s = (i ++ a) ++ '=' :: (b ++ j) := by
      rw [whole, shape]
      simp
    rw [shape, takeWhile_append_equals absent, split,
      takeWhile_append_equals (List.not_mem_append (noEquals front) absent), trim_of_blanks front]
  · have absent : '=' ∉ s := by
      rw [whole]
      exact List.not_mem_append (List.not_mem_append (noEquals front) equals) (noEquals back)
    rw [takeWhile_of_not_mem equals, takeWhile_of_not_mem absent, trim_trim]

theorem declaredParameter?_default (absent : '=' ∉ d) (e : Text) :
    declaredParameter? (d ++ (" = ".toList ++ e)) = declaredParameter? d := by
  have split : d ++ (" = ".toList ++ e) = (d ++ [' ']) ++ '=' :: ' ' :: e := by simp
  have blank : ∀ c ∈ [' '], isBlank c := List.forall_mem_singleton.2 (by decide)
  apply declaredParameter?_congr
  rw [split, takeWhile_append_equals (List.not_mem_append absent (by decide)),
    takeWhile_of_not_mem absent, trim_append_blanks blank]

/-- A parameter with a type, from the words in front of the colon. -/
theorem declaredParameter?_typed {names t name : Text} {label : Option Text} (tight : Tight names)
    (colon : ':' ∉ names) (equals : '=' ∉ names) (type : Tight t) (noEquals : '=' ∉ t)
    (labelled : words names = [name] ∧ label = some name ∨
      words names = ["_".toList, name] ∧ label = none) :
    declaredParameter? (names ++ ": ".toList ++ t) =
      some ⟨if endsWith t "..." then none else label, name, some t⟩ := by
  have absent : '=' ∉ names ++ ": ".toList ++ t :=
    List.not_mem_append (List.not_mem_append equals (by decide)) noEquals
  have trimmed : trim (names ++ ": ".toList ++ t) = names ++ ": ".toList ++ t :=
    (tight.append type _).trim_eq
  have split : splitOnce? ':' (names ++ ": ".toList ++ t) = some (names, ' ' :: t) := by
    rw [List.append_assoc]
    exact splitOnce?_append colon (' ' :: t)
  have behind : trim (' ' :: t) = t := by
    rw [← List.singleton_append, trim_of_blanks (List.forall_mem_singleton.2 (by decide)),
      type.trim_eq]
  have shown : (some t).filter (· ≠ []) = some t := by simp [Option.filter, type.1]
  simp only [declaredParameter?, takeWhile_of_not_mem absent, trimmed, split, tight.trim_eq, behind,
    Option.any_some, shown]
  rcases labelled with ⟨one, rfl⟩ | ⟨two, rfl⟩
  · simp only [one]
    rfl
  · simp only [two]
    rfl

end

namespace NamedParameter

variable (p : NamedParameter)

theorem declaredParameter?_name : declaredParameter? p.name = some ⟨some p.name, p.name, none⟩ := by
  have colon : ':' ∉ p.name := p.named.not_mem (by decide)
  have equals : '=' ∉ p.name := p.named.not_mem (by decide)
  simp only [declaredParameter?, takeWhile_of_not_mem equals, p.tight_name.trim_eq,
    splitOnce?_eq_none colon, p.named.words_eq]
  rfl

theorem declaredParameter?_type (t : SwiftType) :
    declaredParameter? (p.name ++ ": ".toList ++ t.text) =
      some ⟨some p.name, p.name, some t.text⟩ := by
  have dots : endsWith t.text "..." = false := by
    refine Bool.eq_false_iff.2 fun ends => ?_
    refine SwiftType.not_mem_text (show isTypeChar '.' = false by decide) t ?_
    exact (List.isSuffixOf_iff_suffix.1 ends).subset (by simp)
  rw [declaredParameter?_typed p.tight_name (p.named.not_mem (by decide))
    (p.named.not_mem (by decide)) (tight_text t)
    (SwiftType.not_mem_text (by decide) t) (Or.inl ⟨p.named.words_eq, rfl⟩), dots]
  rfl

theorem declaredParameter?_others :
    declaredParameter? ("_ ".toList ++ p.name ++ ": Any...".toList) =
      some ⟨none, p.name, some "Any...".toList⟩ := by
  have names : words ("_ ".toList ++ p.name) = ["_".toList, p.name] := by
    have split := words_append_blank "_".toList p.name
    rw [p.named.words_eq] at split
    exact split
  have tight : Tight ("_ ".toList ++ p.name) :=
    (tight_of_ends rfl rfl rfl : Tight ['_']).append p.tight_name [' ']
  have type : Tight "Any...".toList := tight_of_ends rfl rfl rfl
  have absent {c : Char} (front : c ∉ "_ ".toList) (sign : isWord c = false) :
      c ∉ "_ ".toList ++ p.name :=
    List.not_mem_append front (p.named.not_mem sign)
  have found := declaredParameter?_typed tight (absent (by decide) (by decide))
    (absent (by decide) (by decide)) type (by decide) (Or.inr ⟨names, rfl⟩)
  rwa [List.append_assoc] at found

/-- A printed parameter is found as it is, without its default value. -/
theorem declaredParameter?_written :
    declaredParameter? (parameter p.written) = some p.declared := by
  rw [parameter_written, declared]
  cases p.taking with
  | one =>
    -- What stands in front of the default value, with and without a type.
    obtain ⟨d, shape⟩ : ∃ d, d = p.name ++ (match p.hint with
      | some a => ": ".toList ++ (hintType a).text
      | none => []) := ⟨_, rfl⟩
    have front : declaredParameter? d =
        some ⟨some p.name, p.name, p.hint.map fun hint => (hintType hint).text⟩ := by
      rw [shape]
      cases p.hint with
      | none =>
        rw [List.append_nil, p.declaredParameter?_name]
        rfl
      | some hint =>
        rw [← List.append_assoc, p.declaredParameter?_type]
        rfl
    have equals : '=' ∉ d := by
      rw [shape]
      refine List.not_mem_append (p.named.not_mem (by decide)) ?_
      split
      · exact List.not_mem_append (by decide) (not_mem_hintType (by decide) _)
      · exact List.not_mem_nil
    simp only [← shape]
    cases p.default with
    | none => rw [List.append_nil, front]
    | some e => rw [declaredParameter?_default equals, front]
  | others => exact p.declaredParameter?_others
  | keywords =>
    have found := p.declaredParameter?_type (.dictionary .string .any)
    rwa [List.append_assoc] at found

end NamedParameter

theorem declaredParameters_written (ps : List NamedParameter) :
    declaredParameters (join ", " ((ps.map NamedParameter.written).map parameter)) =
      ps.map NamedParameter.declared := by
  have uncut : ∀ part ∈ (ps.map NamedParameter.written).map parameter, Uncut 0 part := by
    rw [List.map_map]
    exact List.forall_mem_map.2 fun p _ => p.uncut_written
  have shown : ∀ part ∈ (ps.map NamedParameter.written).map parameter, trim part ≠ [] := by
    rw [List.map_map]
    exact List.forall_mem_map.2 fun p _ => p.trim_written
  rw [declaredParameters, splitTopLevel_join_spaced uncut shown]
  clear uncut shown
  induction ps with
  | nil => rfl
  | cons p ps ih =>
    have first : declaredParameter? (trim (parameter p.written)) = some p.declared := by
      rw [declaredParameter?_trim, p.declaredParameter?_written]
    simp only [List.map_cons, List.filterMap_cons, first, ih]

/-- The function that a printed header stands for. -/
def headerFunction (name : Text) (ps : List NamedParameter) (returns : Option Text)
    (owner : Option Text) (number : Nat) : DeclaredFunction where
  name := name
  parameters := ps.map NamedParameter.declared
  returnType := (returns.map fun hint => (hintType hint).text).filter (· ≠ "Void".toList)
  owner := owner
  line := number

/-- The line of a draft that such a header is printed on. -/
def headerLine (name : Text) (ps : List NamedParameter) (returns : Option Text) (depth : Nat) :
    Line :=
  ⟨depth, openingLine (.function name (ps.map NamedParameter.written) returns)⟩

section

variable {name : Text}

theorem declaredFunction?_written (identifier : IsIdentifier name) (ps : List NamedParameter)
    (returns owner : Option Text) (number : Nat) :
    declaredFunction? owner number
        (openingLine (.function name (ps.map NamedParameter.written) returns)) =
      some (headerFunction name ps returns owner number) := by
  have quiet : Quiet 0 (join ", " ((ps.map NamedParameter.written).map parameter)) := by
    refine .join (.of_plain 0 (by decide)) fun part mem => ?_
    rw [List.map_map] at mem
    obtain ⟨p, -, rfl⟩ := List.mem_map.1 mem
    exact p.quiet_written
  change declaredFunction? owner number (functionHeader _ _ _ ++ " \x7b".toList) = _
  rw [declaredFunction?_functionHeader identifier, quiet.cutClosing_eq, Option.bind_some,
    declaredReturn?_returnClause, declaredParameters_written]
  rfl

theorem newline_not_mem_written (identifier : IsIdentifier name) {ps : List NamedParameter}
    (oneLine : ∀ p ∈ ps, ∀ t ∈ p.written.texts, '\n' ∉ t) (returns : Option Text) :
    '\n' ∉ openingLine (.function name (ps.map NamedParameter.written) returns) := by
  have named : '\n' ∉ name := (isWordName_of_isIdentifier identifier).not_mem (by decide)
  exact List.not_mem_append
    (newline_not_mem_functionHeader named (List.forall_mem_map.2 oneLine) returns) (by decide)

theorem shown_headerLine (name : Text) (ps : List NamedParameter) (returns : Option Text)
    (unit depth : Nat) :
    ∃ i, (∀ c ∈ i, isBlank c) ∧ (headerLine name ps returns depth).shown unit =
      i ++ openingLine (.function name (ps.map NamedParameter.written) returns) := by
  have filled : openingLine (.function name (ps.map NamedParameter.written) returns) ≠ [] :=
    List.append_ne_nil_of_right_ne_nil _ (by decide)
  refine ⟨List.replicate (depth * unit) ' ', fun c mem => ?_, if_neg filled⟩
  rw [List.eq_of_mem_replicate mem]
  decide

/-- Wherever a header stands in a draft, its line is read as the one function it was printed for. -/
theorem read_headerLine (identifier : IsIdentifier name) (ps : List NamedParameter)
    (returns : Option Text) (unit depth : Nat) (state : ScanState) (number : Nat) :
    state.read (number, (headerLine name ps returns depth).shown unit) =
      ⟨{ state.found with functions := state.found.functions ++ [headerFunction name ps returns
        ((state.enclosing ((headerLine name ps returns depth).shown unit)).head?.map Prod.snd)
        number] }, state.enclosing ((headerLine name ps returns depth).shown unit)⟩ := by
  obtain ⟨i, blanks, shown⟩ := shown_headerLine name ps returns unit depth
  have found (owner : Option Text) : declaredFunction? owner number
      ((headerLine name ps returns depth).shown unit) =
        some (headerFunction name ps returns owner number) := by
    rw [shown, declaredFunction?_blanks_append blanks, declaredFunction?_written identifier]
  obtain ⟨r, starts⟩ := func_of_declaredFunction? (found none)
  obtain ⟨loud, noType⟩ := declares_of_func starts
  simp [ScanState.read_eq, loud, noType, scopeOf?, found]

theorem lines_headerLine (identifier : IsIdentifier name) {ps : List NamedParameter}
    (oneLine : ∀ p ∈ ps, ∀ t ∈ p.written.texts, '\n' ∉ t) (returns : Option Text)
    (unit depth : Nat) :
    lines ((headerLine name ps returns depth).render unit) =
      [(headerLine name ps returns depth).shown unit] := by
  have plain : '\n' ∉ (headerLine name ps returns depth).shown unit :=
    newline_not_mem_shown (newline_not_mem_written identifier oneLine returns)
  obtain ⟨i, -, shown⟩ := shown_headerLine name ps returns unit depth
  have whole : chomp ((headerLine name ps returns depth).shown unit) =
      (headerLine name ps returns depth).shown unit := by
    have brace : i ++ openingLine (.function name (ps.map NamedParameter.written) returns) =
        i ++ functionHeader name (ps.map NamedParameter.written) returns ++ " \x7b".toList :=
      (List.append_assoc _ _ _).symm
    rw [shown, brace, chomp_append _ (by decide)]
    rfl
  rw [render_eq, lines_line_append plain, whole, lines]

/-- The header of a function is scanned back: its line by itself declares the function under its
name, with the labels, the names and the types of its parameters in their order and with its return
type, unless that is `Void`; and in a longer text the line adds this function, as a method of the
type that is open there, and nothing else. -/
theorem header_scanned_back (identifier : IsIdentifier name) (ps : List NamedParameter)
    (returns : Option Text) (unit depth : Nat) :
    ((∀ p ∈ ps, ∀ t ∈ p.written.texts, '\n' ∉ t) →
      declarations ((headerLine name ps returns depth).render unit) =
        ⟨[headerFunction name ps returns none 1], []⟩) ∧
    ∀ (state : ScanState) (number : Nat),
      (state.read (number, (headerLine name ps returns depth).shown unit)).found =
        { state.found with functions := state.found.functions ++ [headerFunction name ps returns
          ((state.enclosing ((headerLine name ps returns depth).shown unit)).head?.map Prod.snd)
          number] } := by
  constructor
  · intro oneLine
    have numbered : numberedLines ((headerLine name ps returns depth).render unit) =
        [(1, (headerLine name ps returns depth).shown unit)] := by
      rw [numberedLines, lines_headerLine identifier oneLine]
      rfl
    rw [declarations, numbered, List.foldl_cons, read_headerLine identifier]
    rfl
  · intro state number
    rw [read_headerLine identifier]

end

/-- `limit: int = g(1, [2])`. -/
def limitParameter : NamedParameter where
  taking := .one
  name := "limit".toList
  hint := some "int".toList
  default := some "g(1, [2])".toList
  named := ⟨List.cons_ne_nil _ _, List.all_eq_true.1 rfl⟩
  closed := by
    rintro d ⟨⟩
    decide

/-- `*rest`. -/
def restParameter : NamedParameter where
  taking := .others
  name := "rest".toList
  hint := none
  default := none
  named := ⟨List.cons_ne_nil _ _, List.all_eq_true.1 rfl⟩
  closed := nofun

theorem header_scanned_back_search :
    IsIdentifier "search".toList ∧
      declarations ((headerLine "search".toList [limitParameter, restParameter]
        (some "None".toList) 1).render 4) =
      ⟨[⟨"search".toList, [⟨some "limit".toList, "limit".toList, some "Int".toList⟩,
        ⟨none, "rest".toList, some "Any...".toList⟩], none, none, 1⟩], []⟩ := by
  have identifier : IsIdentifier "search".toList :=
    ⟨'s', "earch".toList, rfl, rfl, List.all_eq_true.1 rfl⟩
  have oneLine : ∀ p ∈ [limitParameter, restParameter], ∀ t ∈ p.written.texts, '\n' ∉ t := by
    decide
  have int : (hintType "int".toList).text = "Int".toList :=
    text_hintType_name (WrittenHint.isName_of_all rfl rfl)
  have void : (hintType "None".toList).text = "Void".toList :=
    text_hintType_name (WrittenHint.isName_of_all rfl rfl)
  have found := (header_scanned_back identifier [limitParameter, restParameter]
    (some "None".toList) 4 1).1 oneLine
  have limit : limitParameter.declared =
      ⟨some "limit".toList, "limit".toList, some "Int".toList⟩ :=
    congrArg (DeclaredParameter.mk (some "limit".toList) "limit".toList ∘ some) int
  rw [headerFunction, List.map_cons, limit, Option.map_some, void] at found
  exact ⟨identifier, found⟩

end Draft

end SwiftDraft
