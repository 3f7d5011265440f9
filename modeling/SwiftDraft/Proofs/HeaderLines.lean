import SwiftDraft.Proofs.DraftLines
import SwiftDraft.Proofs.Quiet
import SwiftDraft.Proofs.WrittenHints

/-!
# The headers that a scan finds

A scan of a draft reads each line by itself. On the lines of a statement it finds a function if the
statement is one and its header is read back (`ReadsBack`), or if the statement is copied into the
draft and looks like such a header (`functionName?_statementLines`).
-/

namespace SwiftDraft

namespace Text

/-- A name as it stands behind `def` or `class`. -/
def IsIdentifier (name : Text) : Prop := ∃ c r, name = c :: r ∧ startsName c ∧ ∀ d ∈ r, isWord d

theorem isBlank_of_startsName {c : Char} (h : startsName c) : isBlank c = false := by
  have range : (65 ≤ c.toNat ∧ c.toNat ≤ 90 ∨ 97 ≤ c.toNat ∧ c.toNat ≤ 122) ∨ c.toNat = 95 := by
    change (decide (65 ≤ c.val ∧ c.val ≤ 90) || (decide (97 ≤ c.val) && decide (c.val ≤ 122)) ||
      c == '_') = true at h
    simp only [Bool.or_eq_true, Bool.and_eq_true, decide_eq_true_eq, beq_iff_eq] at h
    rcases h with letter | rfl
    · exact Or.inl letter
    · exact Or.inr rfl
  simp only [isBlank, Bool.or_eq_false_iff, Bool.and_eq_false_iff, decide_eq_false_iff_not,
    beq_eq_false_iff_ne]
  omega

theorem isIdentifier_of_identifier? {s name rest : Text} (h : identifier? s = some (name, rest)) :
    IsIdentifier name := by
  cases s with
  | nil => cases h
  | cons c s =>
    rw [identifier?, Option.ite_none_right_eq_some] at h
    obtain ⟨starts, made⟩ := h
    cases made
    exact ⟨c, _, rfl, starts, fun d mem => List.mem_takeWhile_imp mem⟩

theorem atWordEnd_parenthesis (r : Text) : atWordEnd ('(' :: r) := by
  change (!isWord '(') = true
  decide

theorem after?_parenthesis (r : Text) : after? "(" (trimStart ('(' :: r)) = some r := by
  rw [trimStart_cons_of_not_blank (by decide)]
  exact after?_eq_some_iff.2 rfl

theorem trimStart_identifier {name : Text} (h : IsIdentifier name) (rest : Text) :
    trimStart (name ++ rest) = name ++ rest := by
  obtain ⟨c, r, rfl, starts, -⟩ := h
  exact trimStart_cons_of_not_blank (isBlank_of_startsName starts) (r ++ rest)

theorem afterGap?_identifier {name : Text} (h : IsIdentifier name) (rest : Text) :
    afterGap? (' ' :: (name ++ rest)) = some (name ++ rest) := by
  have blank : Option.any isBlank (' ' :: (name ++ rest)).head? = true := by
    change Option.any isBlank (some ' ') = true
    decide
  rw [afterGap?, if_pos blank]
  exact congrArg some (trimStart_identifier h rest)

/-- A whole word and what follows it. -/
theorem span_word {w rest : Text} (word : ∀ c ∈ w, isWord c) (ends : atWordEnd rest) :
    (w ++ rest).takeWhile isWord = w ∧ (w ++ rest).dropWhile isWord = rest := by
  rw [List.takeWhile_append_of_pos word, List.dropWhile_append_of_pos word]
  cases rest with
  | nil => exact ⟨List.append_nil w, rfl⟩
  | cons d rest =>
    have noWord : ¬isWord d := by simpa [atWordEnd] using ends
    rw [List.takeWhile_cons_of_neg noWord, List.dropWhile_cons_of_neg noWord]
    exact ⟨List.append_nil w, rfl⟩

theorem identifier?_append {name rest : Text} (h : IsIdentifier name) (ends : atWordEnd rest) :
    identifier? (name ++ rest) = some (name, rest) := by
  obtain ⟨c, r, rfl, starts, word⟩ := h
  obtain ⟨front, back⟩ := span_word word ends
  rw [List.cons_append, identifier?, if_pos starts, front, back]

end Text

open Text

namespace Draft

open Script (Parameter Header Simple Statement)

/-- The name of the function whose header a line holds. -/
def functionName? (line : Text) : Option Text :=
  (declaredFunction? none 0 line).map DeclaredFunction.name

theorem map_declaredFunction? (owner : Option Text) (number : Nat) (line : Text) :
    (declaredFunction? owner number line).map (fun f => (f.line, f.name)) =
      (functionName? line).map fun name => (number, name) := by
  simp only [functionName?, declaredFunction?, Option.pure_def, Option.bind_eq_bind,
    Option.map_bind, Function.comp_def, Option.map_some]

/-- The owner and the number that a header is read with are those of the function. -/
theorem fields_of_declaredFunction? {owner : Option Text} {number : Nat} {line : Text}
    {f : DeclaredFunction} (h : declaredFunction? owner number line = some f) :
    f.owner = owner ∧ f.line = number ∧ functionName? line = some f.name := by
  have fields : (declaredFunction? owner number line).map (fun f => (f.owner, f.line, f.name)) =
      (functionName? line).map fun name => (owner, number, name) := by
    simp only [functionName?, declaredFunction?, Option.pure_def, Option.bind_eq_bind,
      Option.map_bind, Function.comp_def, Option.map_some]
  rw [h, Option.map_some, eq_comm, Option.map_eq_some_iff] at fields
  obtain ⟨name, found, same⟩ := fields
  cases same
  exact ⟨rfl, rfl, found⟩

theorem func_of_declaredFunction? {owner : Option Text} {number : Nat} {line : Text}
    {f : DeclaredFunction} (h : declaredFunction? owner number line = some f) :
    ∃ r, trimStart line = "func".toList ++ r := by
  obtain ⟨⟨name, r⟩, start, -⟩ := Option.bind_eq_some_iff.1 h
  obtain ⟨t, start, -⟩ := Option.bind_eq_some_iff.1 start
  obtain ⟨u, start, -⟩ := Option.bind_eq_some_iff.1 start
  exact ⟨u, after?_eq_some_iff.1 start⟩

/-- A line that starts as the header of a function declares no type, and something. -/
theorem declares_of_func {line r : Text} (starts : trimStart line = "func".toList ++ r) :
    declaresNothing line = false ∧ declaredType? line = none := by
  constructor
  · rw [declaresNothing, starts]
    rfl
  · simp only [declaredType?, starts]
    rfl

/-- How many blanks a line starts with. -/
def lineIndent (line : Text) : Nat := (line.takeWhile isBlank).length

/-- The type that a line declares, with the indentation of the line. -/
def scopeOf? (line : Text) : Option (Nat × Text) :=
  (declaredType? line).map fun name => (lineIndent line, name)

/-- The types that are open at a line, innermost first, with their indentation. -/
def ScanState.enclosing (state : ScanState) (line : Text) : List (Nat × Text) :=
  state.scopes.dropWhile fun scope => lineIndent line ≤ scope.1

/-- What a scan makes of a line: a type is added and opened, and a function is added as a method of
the innermost type that is open. -/
theorem ScanState.read_eq (state : ScanState) (number : Nat) (line : Text) :
    state.read (number, line) =
      if declaresNothing line then state
      else ⟨⟨state.found.functions ++ (declaredFunction? ((state.enclosing line).head?.map Prod.snd)
        number line).toList, state.found.types ++ (declaredType? line).toList⟩,
          (scopeOf? line).toList ++ state.enclosing line⟩ := by
  simp only [ScanState.read]
  split
  · rfl
  · cases type : declaredType? line with
    | some name =>
      have noFunction (owner : Option Text) : declaredFunction? owner number line = none := by
        rw [Option.eq_none_iff_forall_ne_some]
        intro f found
        obtain ⟨r, starts⟩ := func_of_declaredFunction? found
        simp [(declares_of_func starts).2] at type
      simp only [noFunction, scopeOf?, type, Option.map_some, Option.toList_none,
        Option.toList_some, List.append_nil]
      rfl
    | none =>
      have enclosing : (state.scopes.dropWhile fun scope =>
          (line.takeWhile isBlank).length ≤ scope.1) = state.enclosing line := rfl
      simp only [enclosing, scopeOf?, type, Option.map_none, Option.toList_none, List.append_nil,
        List.nil_append]
      cases declaredFunction? ((state.enclosing line).head?.map Prod.snd) number line with
      | some f => rfl
      | none => simp only [Option.toList_none, List.append_nil]

theorem functionName?_eq_none {line : Text}
    (h : ∀ r, trimStart line = "func".toList ++ r → False) : functionName? line = none := by
  unfold functionName?
  rw [Option.map_eq_none_iff, Option.eq_none_iff_forall_ne_some]
  intro f found
  obtain ⟨r, starts⟩ := func_of_declaredFunction? found
  exact h r starts

theorem declaresNothing_of_functionName? {line name : Text} (h : functionName? line = some name) :
    declaresNothing line = false := by
  cases silent : declaresNothing line with
  | false => rfl
  | true =>
    rw [functionName?_eq_none fun r starts => by simp [(declares_of_func starts).1] at silent] at h
    cases h

theorem declaredFunction?_blanks_append {i : Text} (blanks : ∀ c ∈ i, isBlank c)
    (owner : Option Text) (number : Nat) (s : Text) :
    declaredFunction? owner number (i ++ s) = declaredFunction? owner number s := by
  unfold declaredFunction?
  rw [trimStart_of_blanks blanks]

theorem functionName?_blanks_append {i : Text} (blanks : ∀ c ∈ i, isBlank c) (s : Text) :
    functionName? (i ++ s) = functionName? s := by
  rw [functionName?, declaredFunction?_blanks_append blanks, functionName?]

/-- A line that starts with another character than a function does. -/
theorem functionName?_of_head {c : Char} (visible : isBlank c = false) (other : c ≠ 'f')
    (r : Text) : functionName? (c :: r) = none := by
  refine functionName?_eq_none fun r' starts => ?_
  rw [trimStart_cons_of_not_blank visible] at starts
  exact other (List.cons.inj starts).1

theorem functionName?_chomp_of_head {c : Char} (visible : isBlank c = false) (other : c ≠ 'f')
    (r : Text) : functionName? (chomp (c :: r)) = none := by
  obtain ⟨r', start⟩ := exists_chomp_cons visible [] r
  rw [List.nil_append, List.nil_append] at start
  rw [start]
  exact functionName?_of_head visible other r'

/-- The printed header of a function is read up to its opening brace. -/
def ReadsBack (parameters : List Parameter) (returns : Option Text) : Prop :=
  ((cutClosing 0 none (join ", " (parameters.map parameter) ++
    ')' :: (returnClause returns ++ " \x7b".toList))).bind fun cut => declaredReturn? cut.2).isSome

instance (parameters : List Parameter) (returns : Option Text) :
    Decidable (ReadsBack parameters returns) := inferInstanceAs (Decidable (_ = true))

/-- The function that a scan finds on the lines of a statement. -/
def foundName? : Statement → Option Text
  | .header (.function name parameters returns) =>
    if ReadsBack parameters returns then some name else none
  | .simple (.raw text) => functionName? (chomp (expression text))
  | _ => none

/-- The function that a statement defines. -/
def definedName? : Statement → Option Text
  | .header (.function name _ _) => some name
  | _ => none

theorem definedName?_eq_some {s : Statement} {name : Text} (h : definedName? s = some name) :
    ∃ parameters returns, s = .header (.function name parameters returns) := by
  unfold definedName? at h
  split at h
  · cases h
    exact ⟨_, _, rfl⟩
  · cases h

/-- The printed header of a function is read from its list of parameters on. -/
theorem declaredFunction?_functionHeader {name : Text} (identifier : IsIdentifier name)
    (parameters : List Parameter) (returns : Option Text) (owner : Option Text) (number : Nat) :
    declaredFunction? owner number (functionHeader name parameters returns ++ " \x7b".toList) =
      (cutClosing 0 none (join ", " (parameters.map parameter) ++
        ')' :: (returnClause returns ++ " \x7b".toList))).bind fun cut =>
          (declaredReturn? cut.2).map fun returnType =>
            ⟨name, declaredParameters cut.1, returnType, owner, number⟩ := by
  obtain ⟨list, shape⟩ : ∃ list, list = join ", " (parameters.map parameter) ++
    ')' :: (returnClause returns ++ " \x7b".toList) := ⟨_, rfl⟩
  have whole : functionHeader name parameters returns ++ " \x7b".toList =
      'f' :: 'u' :: 'n' :: 'c' :: ' ' :: (name ++ '(' :: list) := by
    rw [shape]
    change (((_ ++ name) ++ '(' :: _) ++ ')' :: _) ++ _ = _
    simp only [List.append_assoc, List.cons_append]
    rfl
  have keyword : after? "func" (trimStart ('f' :: 'u' :: 'n' :: 'c' :: ' ' ::
      (name ++ '(' :: list))) = some (' ' :: (name ++ '(' :: list)) := by
    rw [trimStart_cons_of_not_blank (by decide)]
    exact after?_eq_some_iff.2 rfl
  rw [whole, ← shape]
  simp only [declaredFunction?, keyword, afterGap?_identifier identifier, after?_parenthesis list,
    identifier?_append identifier (atWordEnd_parenthesis list), Option.bind_eq_bind,
    Option.bind_some, Option.map_eq_bind]
  rfl

/-- The header of a function is found if it reads back, under its own name. -/
theorem functionName?_functionHeader {name : Text} (identifier : IsIdentifier name)
    (parameters : List Parameter) (returns : Option Text) :
    functionName? (functionHeader name parameters returns ++ " \x7b".toList) =
      if ReadsBack parameters returns then some name else none := by
  have named (returnType : Option (Option Text)) :
      (returnType.map fun _ => name) = if returnType.isSome then some name else none := by
    cases returnType <;> rfl
  rw [functionName?, declaredFunction?_functionHeader identifier, Option.map_bind]
  simp only [Function.comp_def, Option.map_map]
  refine Eq.trans ?_ (named _)
  rw [Option.map_bind]
  rfl

/-- The lines of a statement hold the header of the function that is found for it. -/
theorem functionName?_statementLines {s : Statement}
    (identifier : ∀ name ∈ definedName? s, IsIdentifier name) :
    ∀ l ∈ statementLines s, functionName? (chomp l) = foundName? s := by
  have only {t : Text} {name? : Option Text} (found : functionName? (chomp t) = name?) :
      ∀ l ∈ [t], functionName? (chomp l) = name? := List.forall_mem_singleton.2 found
  cases s with
  | header h =>
    cases h with
    | function name parameters returns =>
      have keeps : chomp (functionHeader name parameters returns ++ " \x7b".toList) =
          functionHeader name parameters returns ++ " \x7b".toList := by
        rw [chomp_append _ (by decide)]
        rfl
      refine only ?_
      change functionName? (chomp (functionHeader name parameters returns ++ " \x7b".toList)) = _
      rw [keeps, functionName?_functionHeader (identifier name rfl)]
      rfl
    | classType name => exact only (functionName?_chomp_of_head (by decide) (by decide) _)
    | ifTest condition => exact only (functionName?_chomp_of_head (by decide) (by decide) _)
    | elseIf condition => exact only (functionName?_chomp_of_head (by decide) (by decide) _)
    | otherwise => exact only (by decide)
    | loop target items =>
      -- Here the second character tells the line from a function.
      obtain ⟨rest, line⟩ : ∃ rest, openingLine (.loop target items) = 'f' :: 'o' :: rest :=
        ⟨_, rfl⟩
      obtain ⟨r', start⟩ := exists_chomp_cons (show isBlank 'o' = false by decide) ['f'] rest
      refine only (functionName?_eq_none fun r starts => ?_)
      rw [line, show 'f' :: 'o' :: rest = ['f'] ++ 'o' :: rest from rfl, start,
        List.singleton_append, trimStart_cons_of_not_blank (by decide)] at starts
      exact absurd (List.cons.inj (List.cons.inj starts).2).1 (by decide)
    | whileTest condition => exact only (functionName?_chomp_of_head (by decide) (by decide) _)
    | unsupported header => exact only (functionName?_chomp_of_head (by decide) (by decide) _)
  | simple s =>
    cases s with
    | blank => exact only (by decide)
    | comment text => exact only (functionName?_chomp_of_head (by decide) (by decide) _)
    | docstring content =>
      intro l mem
      obtain ⟨t, -, rfl⟩ := List.mem_map.1 mem
      unfold docstringLine
      split <;> exact functionName?_chomp_of_head (by decide) (by decide) _
    | importing text => exact only (functionName?_chomp_of_head (by decide) (by decide) _)
    | returning value =>
      cases value <;> exact only (functionName?_chomp_of_head (by decide) (by decide) _)
    | assign target hint value =>
      exact only (functionName?_chomp_of_head (by decide) (by decide) _)
    | printing arguments => exact only (functionName?_chomp_of_head (by decide) (by decide) _)
    | pass => exact only (by decide)
    | raw text => exact only rfl

/-- The return type that a header shows is the one that is found; one that returns nothing shows
none. -/
theorem declaredReturn?_returnClause (returns : Option Text) :
    declaredReturn? (returnClause returns ++ " \x7b".toList) =
      some ((returns.map fun hint => (hintType hint).text).filter (· ≠ "Void".toList)) := by
  cases returns with
  | none => decide
  | some hint =>
    by_cases void : (hintType hint).text = "Void".toList
    · simp only [returnClause, Option.map_some, void]
      decide
    · obtain ⟨t, written⟩ : ∃ t, t = (hintType hint).text := ⟨_, rfl⟩
      have tight : Tight t := written ▸ tight_text (hintType hint)
      have plain : '\x7b' ∉ ' ' :: (t ++ [' ']) := by
        have absent := not_mem_hintType (show isTypeChar '\x7b' = false by decide) hint
        simpa [written] using absent
      have arrow : after? "->" (trimStart (" -> ".toList ++ t ++ " \x7b".toList)) =
          some ((' ' :: (t ++ [' '])) ++ ['\x7b']) := by
        rw [List.append_assoc]
        exact after?_eq_some_iff.2 (by simp [trimStart, isBlank])
      have trimmed : trim (' ' :: (t ++ [' '])) = t := by
        have blank : ∀ c ∈ [' '], isBlank c := List.forall_mem_singleton.2 (by decide)
        rw [← List.singleton_append, trim_of_blanks blank, trim_append_blanks blank, tight.trim_eq]
      rw [← written] at void
      simp only [returnClause, ← written, if_neg void, declaredReturn?, arrow,
        splitOnce?_append plain, if_neg (List.cons_ne_nil _ _), trimmed, Option.map_some]
      simp [Option.filter, tight.1]

/-- A header is read back if the names and the default values of its parameters are quiet. -/
theorem readsBack_of_quiet {parameters : List Parameter}
    (quiet : ∀ p ∈ parameters, Quiet 0 p.name ∧ ∀ d ∈ p.default, Quiet 0 d)
    (returns : Option Text) : ReadsBack parameters returns := by
  have list : Quiet 0 (join ", " (parameters.map parameter)) := by
    refine .join (.of_plain 0 (by decide)) fun part mem => ?_
    obtain ⟨p, inList, rfl⟩ := List.mem_map.1 mem
    exact quiet_parameter (quiet p inList).1 (quiet p inList).2
  unfold ReadsBack
  rw [list.cutClosing_eq, Option.bind_some, declaredReturn?_returnClause]
  rfl

end Draft

namespace Script

/-- The name that a header defines. -/
def Header.name? : Header → Option Text
  | .function name _ _ | .classType name => some name
  | _ => none

theorem isIdentifier_of_header? {s : Text} {h : Header} (found : header? s = some h) :
    ∀ name ∈ h.name?, IsIdentifier name := by
  simp only [header?, Option.orElse_eq_orElse, Option.orElse_eq_or, Option.or_eq_some_iff] at found
  rcases found with found | ⟨-, found | ⟨-, found | ⟨-, found | ⟨-, found | ⟨-, found | ⟨-, found |
    ⟨-, found⟩⟩⟩⟩⟩⟩⟩
  · obtain ⟨⟨n, r⟩, named, found⟩ := Option.bind_eq_some_iff.1 found
    obtain ⟨u, -, named⟩ := Option.bind_eq_some_iff.1 named
    obtain ⟨list, -, found⟩ := Option.bind_eq_some_iff.1 found
    obtain ⟨⟨inside, back⟩, -, made⟩ := Option.bind_eq_some_iff.1 found
    cases made
    rintro _ ⟨⟩
    exact isIdentifier_of_identifier? named
  · obtain ⟨⟨n, r⟩, named, found⟩ := Option.bind_eq_some_iff.1 found
    obtain ⟨u, -, named⟩ := Option.bind_eq_some_iff.1 named
    obtain ⟨-, made⟩ := Option.ite_none_right_eq_some.1 found
    cases made
    rintro _ ⟨⟩
    exact isIdentifier_of_identifier? named
  · obtain ⟨_, -, rfl⟩ := Option.map_eq_some_iff.1 found
    rintro _ ⟨⟩
  · obtain ⟨_, -, rfl⟩ := Option.map_eq_some_iff.1 found
    rintro _ ⟨⟩
  · obtain ⟨-, made⟩ := Option.ite_none_right_eq_some.1 found
    cases made
    rintro _ ⟨⟩
  · obtain ⟨u, -, found⟩ := Option.bind_eq_some_iff.1 found
    simp only at found
    split at found
    · cases found
    · split at found
      · cases found
        rintro _ ⟨⟩
      · split at found
        · obtain ⟨_, -, rfl⟩ := Option.map_eq_some_iff.1 found
          rintro _ ⟨⟩
        · cases found
  · obtain ⟨_, -, rfl⟩ := Option.map_eq_some_iff.1 found
    rintro _ ⟨⟩
  · obtain ⟨-, made⟩ := Option.ite_none_right_eq_some.1 found
    cases made
    rintro _ ⟨⟩

theorem isIdentifier_of_recognise {s : Text} {h : Header} (found : recognise s = .header h) :
    ∀ name ∈ h.name?, IsIdentifier name := by
  unfold recognise at found
  split at found
  · cases found
  · split at found
    · next h header =>
      cases found
      exact isIdentifier_of_header? header
    · cases found

end Script

end SwiftDraft
