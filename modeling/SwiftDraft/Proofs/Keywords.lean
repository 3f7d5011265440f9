import SwiftDraft.Draft.Printer
import SwiftDraft.Proofs.Targets

/-!
# Lines that start with keywords

A line that starts with the keyword of a block and is no header is copied as it stands, if a clause
stands behind the keyword (`opensClause`). Nothing keeps a keyword from being taken for the name
that a target starts with: where no clause stands behind it, the suite on the same line is read as
the hint of an assignment to the keyword (`keyword_lines`).
-/

namespace SwiftDraft.Script

open Text

/-- The keywords that start the parts of compound statements. -/
def blockKeywords : List String :=
  ["def", "class", "if", "elif", "else", "for", "while", "try", "except", "finally", "with"]

section

variable {p : String} {s r target value : Text} {hint : Option Text} {made : Simple}

theorem returning?_eq_none (notReturn : Apart p "return") (h : after? p s = some r) :
    returning? s = none := by
  rw [returning?, after?_eq_none notReturn h]
  rfl

theorem printing?_eq_none (notPrint : Apart p "print(") (h : after? p s = some r) :
    printing? s = none := by
  rw [printing?, after?_eq_none notPrint h]
  rfl

/-- The words that headers start with. -/
def headerStarts : List String :=
  ["async", "def", "class", "if", "elif", "else", "for", "while", "try", "except", "finally",
    "with", "match", "case"]

theorem header?_eq_none {p : String} (apart : ∀ q ∈ headerStarts, Apart p q)
    (h : after? p s = some r) : header? s = none := by
  have absent : ∀ q ∈ headerStarts, after? q s = none := fun q mem => after?_eq_none (apart q mem) h
  have noUnsupported : isUnsupported s = false := by
    simp [isUnsupported, afterKeyword?_eq_none (apart "async" (by decide)) h,
      absent "try" (by decide), absent "except" (by decide), absent "finally" (by decide),
      absent "with" (by decide), absent "match" (by decide), absent "case" (by decide)]
  rw [header?, functionHeader?_eq_none (apart "async" (by decide)) (apart "def" (by decide)) h,
    classHeader?_eq_none (apart "class" (by decide)) h,
    loopHeader?_eq_none (apart "async" (by decide)) (apart "for" (by decide)) h,
    absent "if" (by decide), absent "elif" (by decide), absent "else" (by decide),
    absent "while" (by decide), noUnsupported]
  rfl

theorem recognise_of_header?_eq_none (notImport : isImport s = false)
    (noHeader : header? s = none) : recognise s = .simple (simple s) := by
  rw [recognise, notImport, noHeader]
  rfl

theorem ne_assign_of_printing? (h : printing? s = some made) : made ≠ .assign target hint value := by
  rintro rfl
  obtain ⟨t, -, h⟩ := Option.bind_eq_some_iff.1 h
  obtain ⟨-, ⟨⟩⟩ := Option.ite_none_right_eq_some.1 h

theorem simple_eq_assign_iff (noReturn : returning? s = none) :
    simple s = .assign target hint value ↔ assignment? s = some (.assign target hint value) := by
  simp only [simple, noReturn, Option.map_none, Option.orElse_eq_orElse, Option.orElse_eq_or,
    Option.none_or]
  cases assigned : assignment? s with
  | some made => simp
  | none =>
    rw [Option.none_or]
    refine iff_of_false ?_ (by simp)
    cases printed : printing? s with
    | some made => exact ne_assign_of_printing? printed
    | none =>
      rw [Option.getD_none]
      split
      · intro same
        cases same
      · intro same
        cases same

/-- What the simple statements start with that are known by their start. -/
def simpleStarts : List String := ["return", "print(", "pass"]

theorem simple_eq_raw (apart : ∀ q ∈ simpleStarts, Apart p q) (h : after? p s = some r)
    (noAssignment : assignment? s = none) : simple s = .raw s := by
  have noReturn := returning?_eq_none (apart "return" (by decide)) h
  have noPrint := printing?_eq_none (apart "print(" (by decide)) h
  have other : s ≠ "pass".toList := by
    rintro rfl
    have absent := after?_eq_none (apart "pass" (by decide)) h
    cases absent
  simp only [simple, noReturn, noAssignment, noPrint, Option.map_none, Option.orElse_eq_orElse,
    Option.orElse_eq_or, Option.none_or, Option.getD_none, if_neg other]

end

/-- A block keyword is a name, and what starts with one is neither an import nor a simple statement
that is known by its start. -/
theorem keywords_apart : ∀ keyword ∈ blockKeywords, isDottedName keyword.toList ∧
    Apart keyword "import" ∧ Apart keyword "from" ∧ ∀ q ∈ simpleStarts, Apart keyword q := by
  decide

theorem atWordEnd_trimEnd {s : Text} (ends : atWordEnd s) : atWordEnd (trimEnd s) := by
  obtain ⟨i, whole, -⟩ := exists_trimEnd_append s
  cases shape : trimEnd s with
  | nil => rfl
  | cons c r =>
    rw [whole, shape] at ends
    exact ends

theorem atWordEnd_of_append {s t : Text} (ends : atWordEnd (s ++ t)) : atWordEnd s := by
  cases s with
  | nil => rfl
  | cons c s => exact ends

section

variable {keyword : String} {r : Text}

/-- A line that starts with the keyword of a block is read as an assignment exactly if it is no
header and has the left side of one, in which the keyword is taken for the first name of the target.
If a clause stands behind the keyword, the line is a header or is copied as it stands. -/
theorem keyword_lines (mem : keyword ∈ blockKeywords) (ends : atWordEnd r) :
    let s := keyword.toList ++ r
    (∀ target hint value, recognise s = .simple (.assign target hint value) ↔
      header? s = none ∧ ∃ (t : TargetRest) (written : Option Text),
        splitAssignment s = some (keyword.toList ++ (t.text ++ hintText written), value) ∧
        ¬(keyword.toList ++ (t.text ++ hintText written)).getLast?.any augments ∧ value ≠ [] ∧
        (∀ a ∈ written, trim a ≠ []) ∧ target = keyword.toList ++ trimEnd t.text ∧
        hint = written.map trim) ∧
    (∀ target hint value, recognise s = .simple (.assign target hint value) →
      ∃ rest, target = keyword.toList ++ rest ∧ atWordEnd rest) ∧
    (opensClause r → (∃ h, recognise s = .header h) ∨ recognise s = .simple (.raw s)) := by
  intro s
  obtain ⟨dotted, notImport, notFrom, apart⟩ := keywords_apart keyword mem
  have behind : after? keyword s = some r := after?_eq_some_iff.2 rfl
  have noImport : isImport s = false := isImport_eq_false notImport notFrom behind
  have noReturn : returning? s = none := returning?_eq_none (apart "return" (by decide)) behind
  have assigned : ∀ target hint value, recognise s = .simple (.assign target hint value) ↔
      header? s = none ∧ assignment? s = some (.assign target hint value) := by
    intro target hint value
    cases header : header? s with
    | some h => simp [recognise_of_header? noImport header]
    | none =>
      rw [recognise_of_header?_eq_none noImport header, Statement.simple.injEq,
        simple_eq_assign_iff noReturn]
      simp
  refine ⟨?_, ?_, ?_⟩
  · intro target hint value
    rw [assigned, assignment?_iff dotted]
  · intro target hint value taken
    obtain ⟨-, found⟩ := (assigned target hint value).1 taken
    obtain ⟨t, written, sides, -, -, -, rfl, -⟩ := (assignment?_iff dotted).1 found
    refine ⟨trimEnd t.text, rfl, atWordEnd_trimEnd ?_⟩
    have first := (isClause_of_isDottedName dotted).first_append r
    obtain ⟨rest, whole⟩ := left_prefix_of_splitAssignment first sides
    have shape : r = t.text ++ (hintText written ++ rest) := by
      have parts : keyword.toList ++ (t.text ++ (hintText written ++ rest)) = keyword.toList ++ r := by
        rw [← whole]
        simp
      exact (List.append_cancel_left parts).symm
    rw [shape] at ends
    exact atWordEnd_of_append ends
  · intro opens
    cases header : header? s with
    | some h => exact Or.inl ⟨h, recognise_of_header? noImport header⟩
    | none =>
      refine Or.inr ?_
      rw [recognise_of_header?_eq_none noImport header,
        simple_eq_raw apart behind (assignment?_eq_none dotted opens)]

/-- A test with its suite on the same line is copied. -/
theorem keyword_lines_of_suite :
    "if" ∈ blockKeywords ∧ atWordEnd " a: x = 1".toList ∧ opensClause " a: x = 1".toList ∧
      ((∃ h, recognise "if a: x = 1".toList = .header h) ∨
        recognise "if a: x = 1".toList = .simple (.raw "if a: x = 1".toList)) := by
  have listed : "if" ∈ blockKeywords := by decide
  have ends : atWordEnd " a: x = 1".toList := by decide
  have opens : opensClause " a: x = 1".toList := by decide
  exact ⟨listed, ends, opens, (keyword_lines listed ends).2.2 opens⟩

/-- The suite behind `else` is read as a hint, and the keyword as the name that is bound. -/
theorem suite_bound_to_keyword :
    "else" ∈ blockKeywords ∧ atWordEnd ": x = 1".toList ∧
      recognise "else: x = 1".toList =
        .simple (.assign "else".toList (some "x".toList) "1".toList) ∧
      Draft.simpleLines (.assign "else".toList (some "x".toList) "1".toList) =
        ["let else: Any = 1".toList] := by
  refine ⟨by decide, by decide, by decide, by decide +kernel⟩

end

end SwiftDraft.Script
