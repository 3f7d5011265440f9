import SwiftDraft.Proofs.DraftLines
import SwiftDraft.Proofs.Keywords

/-!
# Imports in a draft

A line that needs a package is an import, which the draft has as a comment, unless the word `import`
of a `from` line is followed by neither a blank nor a word character (`RunsOn`): then the package is
taken all the same and the line is copied (`needed_imports`).
-/

namespace SwiftDraft

namespace Script

open Text

/-- A line imports from a module; `rest` stands behind the word `import`. -/
def IsFromLine (s module rest : Text) : Prop :=
  ∃ gap between, s = "from".toList ++ (gap ++ (module ++ (between ++ ("import".toList ++ rest)))) ∧
    gap ≠ [] ∧ (∀ c ∈ gap, isBlank c) ∧ between ≠ [] ∧ (∀ c ∈ between, isBlank c) ∧
    isDottedName module ∧ atWordEnd rest

/-- The word `import` of a `from` line ends, but not at a blank. -/
def RunsOn (s : Text) : Prop :=
  ∃ module rest, IsFromLine s module rest ∧ rest.head?.any isBlank = false

section

variable {s r t module rest line clause : Text}

theorem exists_of_afterGap? (h : afterGap? s = some t) :
    ∃ gap, s = gap ++ t ∧ gap ≠ [] ∧ (∀ c ∈ gap, isBlank c) ∧ ∀ c ∈ t.head?, isBlank c = false := by
  obtain ⟨blank, ⟨⟩⟩ := Option.ite_none_right_eq_some.1 h
  obtain ⟨gap, whole, blanks⟩ := exists_append_trimStart s
  refine ⟨gap, whole, ?_, blanks, fun c first => not_isBlank_of_head?_trimStart first⟩
  rintro rfl
  obtain ⟨c, first, isBlank_c⟩ := Option.any_eq_true _ _ |>.1 blank
  rw [whole, List.nil_append] at first
  rw [not_isBlank_of_head?_trimStart first] at isBlank_c
  cases isBlank_c

theorem afterGap?_append_of_head {gap : Text} (filled : gap ≠ []) (blanks : ∀ c ∈ gap, isBlank c)
    (first : ∀ c ∈ t.head?, isBlank c = false) : afterGap? (gap ++ t) = some t := by
  cases gap with
  | nil => exact absurd rfl filled
  | cons c gap =>
    have blank : isBlank c := blanks c List.mem_cons_self
    rw [afterGap?, trimStart_of_blanks blanks, trimStart_eq_self first]
    exact if_pos blank

theorem isDottedName_of_dottedName? (h : dottedName? s = some (module, r)) : isDottedName module := by
  cases s with
  | nil => cases h
  | cons c s =>
    obtain ⟨starts, ⟨⟩⟩ := Option.ite_none_right_eq_some.1 h
    exact isDottedName_iff.2 ⟨c, _, rfl, starts, fun d mem => List.mem_takeWhile_imp mem⟩

theorem exists_of_fromModule? (h : fromModule? line = some module) :
    ∃ rest, IsFromLine (trimStart line) module rest := by
  obtain ⟨⟨m, u⟩, named, h⟩ := Option.bind_eq_some_iff.1 h
  obtain ⟨v, keyword, dotted⟩ := Option.bind_eq_some_iff.1 named
  obtain ⟨w, behind, gap⟩ := Option.bind_eq_some_iff.1 keyword
  obtain ⟨rest, word, h⟩ := Option.bind_eq_some_iff.1 h
  obtain ⟨x, between, starts⟩ := Option.bind_eq_some_iff.1 word
  obtain ⟨ends, ⟨⟩⟩ := Option.ite_none_right_eq_some.1 h
  obtain ⟨i, wholeGap, filled, blanks, -⟩ := exists_of_afterGap? gap
  obtain ⟨j, wholeBetween, filled', blanks', -⟩ := exists_of_afterGap? between
  refine ⟨rest, i, j, ?_, filled, blanks, filled', blanks', isDottedName_of_dottedName? dotted, ends⟩
  rw [after?_eq_some_iff.1 behind, wholeGap, ← append_of_dottedName? dotted, wholeBetween,
    after?_eq_some_iff.1 starts]

namespace IsFromLine

theorem behind (h : IsFromLine s module rest) : ∃ r, after? "from" s = some r := by
  obtain ⟨gap, between, rfl, -⟩ := h
  exact ⟨_, after?_eq_some_iff.2 rfl⟩

/-- Blanks behind a line make no difference to what it imports from. -/
theorem trimEnd (h : IsFromLine s module rest) :
    IsFromLine (trimEnd s) module (trimEnd rest) := by
  obtain ⟨gap, between, rfl, filled, blanks, filled', blanks', dotted, ends⟩ := h
  refine ⟨gap, between, ?_, filled, blanks, filled', blanks', dotted, atWordEnd_trimEnd ends⟩
  have last : ∀ c ∈ ("from".toList ++ (gap ++ (module ++ between)) ++ "import".toList).getLast?,
      isBlank c = false := by
    rw [List.getLast?_append_of_ne_nil _ (by decide)]
    rintro c ⟨⟩
    decide
  have shape := trimEnd_append_of_getLast? last rest
  simpa only [List.append_assoc] using shape

/-- The line is an import if a blank stands behind the word `import`. -/
theorem isImport_eq (h : IsFromLine s module rest) : isImport s = rest.head?.any isBlank := by
  obtain ⟨r, behind⟩ := h.behind
  obtain ⟨gap, between, rfl, filled, blanks, filled', blanks', dotted, ends⟩ := h
  have noBlank := isBlank_of_mem_isDottedName dotted
  have clause := isClause_of_isDottedName dotted
  have keyword : afterKeyword? "from"
      ("from".toList ++ (gap ++ (module ++ (between ++ ("import".toList ++ rest))))) =
      some (module ++ (between ++ ("import".toList ++ rest))) := by
    rw [afterKeyword?, after?_eq_some_iff.2 rfl, Option.bind_some]
    exact afterGap?_append_of_head filled blanks (clause.first_append _)
  have blank : ∀ d ∈ (between ++ ("import".toList ++ rest)).head?, (!isBlank d) = false := by
    intro d first
    rw [List.head?_append_of_ne_nil _ filled'] at first
    rw [blanks' d (List.mem_of_head? first)]
    rfl
  obtain ⟨taken, dropped⟩ := takeWhile_eq_of_head? (p := fun c => !isBlank c)
    (fun d mem => by rw [noBlank d mem]; rfl) blank
  have word : (afterGap? (between ++ ("import".toList ++ rest))).bind (after? "import") =
      some rest := by
    rw [afterGap?_append_of_head filled' blanks', Option.bind_some]
    · exact after?_eq_some_iff.2 rfl
    · rintro d ⟨⟩
      decide
  have filledName : module.isEmpty = false := by simpa using ne_nil_of_isDottedName dotted
  rw [isImport, afterKeyword?_eq_none (by decide) behind, keyword]
  simp only [Option.any_none, Option.any_some, taken, dropped, word, filledName, Bool.not_false,
    Bool.true_and, Bool.false_or]

end IsFromLine

theorem exists_of_clause (h : importClause? (trimStart line) = some clause) :
    ∃ r, after? "import" (trim line) = some r ∧ isImport (trim line) := by
  obtain ⟨r, keyword, found⟩ := Option.bind_eq_some_iff.1 h
  obtain ⟨u, behind, gap⟩ := Option.bind_eq_some_iff.1 keyword
  obtain ⟨i, rfl, filled, blanks, first⟩ := exists_of_afterGap? gap
  cases r with
  | nil => cases found
  | cons c r =>
    obtain ⟨t, kept⟩ := trimEnd_cons_of_not_blank (first c rfl) r
    have starts : after? "import" (trim line) = some (i ++ c :: t) := by
      rw [after?_eq_some_iff, trim, after?_eq_some_iff.1 behind, ← List.append_assoc,
        trimEnd_append (by simp [kept]), kept, List.append_assoc]
    have read : afterKeyword? "import" (trim line) = some (c :: t) := by
      rw [afterKeyword?, starts, Option.bind_some]
      exact afterGap?_append_of_head filled blanks first
    exact ⟨_, starts, by simp [isImport, read]⟩

/-- A name behind a blank is a clause. -/
theorem opensClause_of_isDottedName {gap : Text} (filled : gap ≠ []) (blanks : ∀ c ∈ gap, isBlank c)
    (dotted : isDottedName module) (t : Text) : opensClause (gap ++ (module ++ t)) := by
  obtain ⟨c, r, rfl, starts, -⟩ := isDottedName_iff.1 dotted
  have inName : inDottedName c := by simp [inDottedName, isWord_of_startsName starts]
  have visible : isBlank c = false := isBlank_of_startsName starts
  have noComma : c ≠ ',' := ne_of_inDottedName (by decide) inName
  have noColon : c ≠ ':' := ne_of_inDottedName (by decide) inName
  have noEquals : c ≠ '=' := ne_of_inDottedName (by decide) inName
  cases gap with
  | nil => exact absurd rfl filled
  | cons b gap =>
    have blank : isBlank b := blanks b List.mem_cons_self
    have noName : inDottedName b = false := inDottedName_of_isBlank blank
    have noIndex : b ≠ '[' := by
      rintro rfl
      cases blank
    have start : trimStart (b :: gap ++ (c :: r ++ t)) = c :: (r ++ t) := by
      rw [trimStart_of_blanks blanks]
      exact trimStart_cons_of_not_blank visible (r ++ t)
    rw [opensClause, start]
    simp [noName, noIndex, noComma, noColon, noEquals]

/-- A line whose word `import` runs on assigns nothing and opens no block. -/
theorem recognise_of_runsOn (h : RunsOn s) : recognise s = .simple (.raw s) := by
  obtain ⟨module, rest, fromLine, runsOn⟩ := h
  have notImport : isImport s = false := fromLine.isImport_eq.trans runsOn
  have apart : (∀ q ∈ headerStarts, Apart "from" q) ∧ ∀ q ∈ simpleStarts, Apart "from" q := by
    decide
  have dotted : isDottedName "from".toList := by decide
  obtain ⟨r, behind⟩ := fromLine.behind
  rw [recognise_of_header?_eq_none notImport (header?_eq_none apart.1 behind)]
  apply congrArg Statement.simple
  refine simple_eq_raw apart.2 behind ?_
  -- A module stands behind the word `from`, where a target does not go on with a name.
  obtain ⟨gap, between, rfl, filled, blanks, -, -, named, -⟩ := fromLine
  exact assignment?_eq_none dotted (opensClause_of_isDottedName filled blanks named _)

end

/-- What starts with a keyword is neither a comment nor a docstring. -/
theorem isCode_of_after? {p : String} {l r : Text} (h : after? p (trim l) = some r)
    (apart : ∀ q ∈ ["#", "\"\"\"", "'''"], Apart p q) : IsCode l := by
  have absent : ∀ q ∈ ["#", "\"\"\"", "'''"], after? q (trim l) = none := fun q mem =>
    after?_eq_none (apart q mem) h
  have noComment := absent "#" (by decide)
  refine ⟨?_, ?_, ?_⟩
  · intro blank
    have empty : p.toList ++ r = [] := (after?_eq_some_iff.1 h).symm.trans blank
    refine (apart "#" (by decide)).1 ?_
    rw [(List.append_eq_nil_iff.1 empty).1]
    exact List.nil_prefix
  · intro first
    obtain ⟨t, comment⟩ := List.head?_eq_some_iff.1 first
    rw [comment] at noComment
    cases noComment
  · rw [docstringStart?, absent _ (by decide), absent _ (by decide)]
    rfl

theorem eq_leaf_of_preorder {nodes : List Node} {number : Nat} {made : Simple}
    (h : preorder nodes = [(number, .simple made)]) : nodes = [.leaf number made] := by
  cases nodes with
  | nil => cases h
  | cons n ns =>
    cases n with
    | leaf k t =>
      obtain ⟨same, rest⟩ := List.cons.inj h
      cases same
      cases ns with
      | nil => rfl
      | cons n ns => cases n <;> cases rest
    | block k header body => cases (List.cons.inj h).1

end Script

namespace Draft

open Text Script

/-- The draft of a single line with a simple statement. -/
theorem text_of_line (unit : Nat) (generatedAt : Text) {line : Text} {made : Simple}
    (single : '\n' ∉ line) (code : IsCode line) (read : recognise (trim line) = .simple made) :
    (ofScript unit generatedAt line).text = header generatedAt ++ unlines (simpleLines made) := by
  have filled : line ≠ [] := by
    rintro rfl
    exact code.1 rfl
  have shape : logicalLine (effectiveUnit unit) 1 line [] =
      ⟨1, 1, some (columns (effectiveUnit unit) line), .simple made⟩ := by
    rw [logicalLine_code _ 1 [] code]
    simp only [continued, read]
  have order : preorder (nest (effectiveUnit unit) line).nodes = [(1, .simple made)] := by
    rw [preorder_nest, logicalLines, lines_last single filled,
      logicalLinesFrom_single (by rw [shape]), logicalLinesFrom_nil, shape]
    rfl
  rw [text_eq_printed, eq_leaf_of_preorder order, printed_leaf, printed_nil, List.append_nil,
    List.map_map]
  congr 2
  apply List.map_id''
  intro t
  simp [Line.shown]

end Draft

namespace Script

open Text

/-- A line that needs a package imports modules, or imports from a module. -/
theorem cases_of_needed {line : Text} (single : '\n' ∉ line)
    (needed : (packages line).elements ≠ []) :
    (∃ r, after? "import" (trim line) = some r ∧ isImport (trim line)) ∨
      ∃ module rest, IsFromLine (trim line) module rest := by
  obtain ⟨t, mem⟩ := List.exists_mem_of_ne_nil _ needed
  obtain ⟨l, inLines, taken⟩ := mem_packages.1 mem
  have same : l = line := by
    have filled : line ≠ [] := by
      rintro rfl
      cases inLines
    rw [lines_last single filled] at inLines
    exact List.mem_singleton.1 inLines
  rw [same, linePackages] at taken
  split at taken
  · next module found =>
    obtain ⟨rest, fromLine⟩ := exists_of_fromModule? found
    exact Or.inr ⟨module, _, fromLine.trimEnd⟩
  · split at taken
    · next clause found => exact Or.inl (exists_of_clause found)
    · cases taken

/-- A line that needs a package is an import exactly if the word `import` does not run on. Then its
draft is a comment; otherwise the line is copied. -/
theorem needed_imports (unit : Nat) (generatedAt : Text) {line : Text} (single : '\n' ∉ line)
    (needed : (packages line).elements ≠ []) :
    let s := trim line
    let text := (Draft.ofScript unit generatedAt line).text
    (recognise s = .simple (.importing s) ↔ ¬RunsOn s) ∧
    (¬RunsOn s → text = Draft.header generatedAt ++
      "// ".toList ++ s ++ "  (no automatic Swift equivalent; port manually)\n".toList) ∧
    (RunsOn s → recognise s = .simple (.raw s) ∧
      text = Draft.header generatedAt ++ Draft.expression s ++ ['\n']) := by
  intro s text
  have code : IsCode line := by
    obtain ⟨r, behind, -⟩ | ⟨module, rest, fromLine⟩ := cases_of_needed single needed
    · exact isCode_of_after? behind (by decide)
    · obtain ⟨r, behind⟩ := fromLine.behind
      exact isCode_of_after? behind (by decide)
  have imported : ¬RunsOn s → recognise s = .simple (.importing s) := by
    intro stops
    have found : isImport s := by
      obtain ⟨r, -, found⟩ | ⟨module, rest, fromLine⟩ := cases_of_needed single needed
      · exact found
      · rw [fromLine.isImport_eq]
        by_contra runsOn
        exact stops ⟨module, rest, fromLine, by simpa using runsOn⟩
    rw [recognise, if_pos found]
  refine ⟨⟨?_, imported⟩, ?_, ?_⟩
  · intro read runsOn
    rw [recognise_of_runsOn runsOn] at read
    cases read
  · intro stops
    have shown := Draft.text_of_line unit generatedAt single code (imported stops)
    refine shown.trans ?_
    simp [Draft.simpleLines, unlines]
  · intro runsOn
    have read := recognise_of_runsOn runsOn
    have shown := Draft.text_of_line unit generatedAt single code read
    refine ⟨read, shown.trans ?_⟩
    simp [Draft.simpleLines, unlines]

/-- An import from a module, its draft a comment. -/
theorem needed_imports_of_path :
    '\n' ∉ "from os import path".toList ∧ (packages "from os import path".toList).elements ≠ [] ∧
      (recognise "from os import path".toList = .simple (.importing "from os import path".toList) ↔
        ¬RunsOn "from os import path".toList) := by
  have single : '\n' ∉ "from os import path".toList := by decide
  have needed : (packages "from os import path".toList).elements ≠ [] := by decide +kernel
  exact ⟨single, needed, (needed_imports 4 [] single needed).1⟩

/-- The package of a line whose names stand in parentheses is needed, and the line is copied. -/
theorem import_runs_on_to_parenthesis :
    '\n' ∉ "from os import(path)".toList ∧
      (packages "from os import(path)".toList).elements = ["os".toList] ∧
      recognise "from os import(path)".toList = .simple (.raw "from os import(path)".toList) ∧
      Draft.simpleLines (.raw "from os import(path)".toList) = ["from os import(path)".toList] := by
  refine ⟨by decide, by decide +kernel, by decide +kernel, by decide +kernel⟩

end Script

end SwiftDraft
