import SwiftDraft.Proofs.Owners
import SwiftDraft.Proofs.TestLines

/-!
# Suites that are scanned back

A suite is Swift text itself. A scan of it finds one type, the class of the suite, and one method of
that class for each test (`suite_scanned_back`): no line inside of a test starts as a declaration
does, since a call is written with its parenthesis right behind a name, and all of them are indented
deeper than the class.
-/

namespace SwiftDraft.Draft

open Text

/-- A line that declares neither a type nor a function. -/
structure IsSilent (line : Text) : Prop where
  type : declaredType? line = none
  function : functionName? line = none

theorem IsSilent.of_head {c : Char} (visible : isBlank c = false)
    (other : c ≠ 'f' ∧ c ≠ 'c' ∧ c ≠ 's') (r : Text) : IsSilent (c :: r) :=
  ⟨declaredType?_of_head visible other r, functionName?_of_head visible other.1 r⟩

theorem IsSilent.blanks_append {i l : Text} (silent : IsSilent l) (blanks : ∀ c ∈ i, isBlank c) :
    IsSilent (i ++ l) where
  type := by rw [declaredType?_blanks_append blanks, silent.type]
  function := by rw [functionName?_blanks_append blanks, silent.function]

theorem declaredFunction?_eq_none {l : Text} (none : functionName? l = none) (owner : Option Text)
    (number : Nat) : declaredFunction? owner number l = .none := by
  have named := map_declaredFunction? owner number l
  rw [none] at named
  exact Option.map_eq_none_iff.1 named

/-- A line that declares nothing adds nothing to what is found. -/
theorem IsSilent.found_read {l : Text} (silent : IsSilent l) (state : ScanState) (number : Nat) :
    (state.read (number, l)).found = state.found := by
  rw [ScanState.read_eq]
  split
  · rfl
  · simp [declaredFunction?_eq_none silent.function, silent.type]

/-- A keyword that starts a call is only the beginning of its name: no gap follows. -/
theorem gap_of_call (keyword : String) (letters : keyword.toList.all isWord) {w : Text}
    (named : IsIdentifier w) (r : Text) :
    (after? keyword (w ++ '(' :: r)).bind afterGap? = none := by
  have noGap {x : Text} (word : ∀ c ∈ x, isWord c) : afterGap? (x ++ '(' :: r) = none := by
    refine if_neg ?_
    cases x with
    | nil => exact Bool.false_ne_true
    | cons c x =>
      have visible := Script.isBlank_of_isWord (word c List.mem_cons_self)
      simp [visible]
  rw [Option.bind_eq_none_iff]
  intro t found
  rcases List.append_eq_append_iff.1 (after?_eq_some_iff.1 found) with
    ⟨x, longer, behind⟩ | ⟨x, longer, rfl⟩
  · cases x with
    | nil =>
      have none : afterGap? ('(' :: r) = none := noGap (List.forall_mem_nil _)
      rwa [show '(' :: r = t from behind] at none
    | cons c x =>
      have parenthesis : '(' ∈ keyword.toList := by
        rw [longer, (List.cons.inj behind).1]
        exact List.mem_append_right w List.mem_cons_self
      exact absurd (List.all_eq_true.1 letters '(' parenthesis) (by decide)
  · refine noGap fun c mem => (isWordName_of_isIdentifier named).2 c ?_
    rw [longer]
    exact List.mem_append_right _ mem

/-- A call declares nothing. -/
theorem isSilent_call {w : Text} (named : IsIdentifier w) (r : Text) :
    IsSilent (w ++ '(' :: r) := by
  have start := trimStart_identifier named ('(' :: r)
  constructor
  · rw [Option.eq_none_iff_forall_ne_some]
    intro name found
    simp only [declaredType?, start, gap_of_call "final" rfl named r, Option.getD_none]
      at found
    obtain ⟨t, keyword, found⟩ := Option.bind_eq_some_iff.1 found
    obtain ⟨⟨n, rest⟩, read, -⟩ := Option.bind_eq_some_iff.1 found
    obtain ⟨u, behind, -⟩ := Option.bind_eq_some_iff.1 read
    rw [Option.orElse_eq_orElse, Option.orElse_eq_or, Option.or_eq_some_iff] at keyword
    rcases keyword with isClass | ⟨-, isStruct⟩
    · have none := gap_of_call "class" rfl named r
      rw [isClass, Option.bind_some, behind] at none
      cases none
    · have none := gap_of_call "struct" rfl named r
      rw [isStruct, Option.bind_some, behind] at none
      cases none
  · have none := gap_of_call "func" rfl named r
    simp only [functionName?, declaredFunction?, start, none, Option.bind_none]
    rfl

/-- What is declared by a line, wherever that stands. -/
def unplaced (f : DeclaredFunction) : DeclaredFunction := { f with line := 0 }

/-- A method without parameters that returns nothing. -/
def plainMethod (className name : Text) : DeclaredFunction := ⟨name, [], none, some className, 0⟩

/-- Inside a class, lines add methods without parameters, and the class stays open. -/
def AddsMethods (className : Text) (names : List Text) (ls : List Text) : Prop :=
  ∀ (state : ScanState) (numbered : List (Nat × Text)), numbered.map Prod.snd = ls →
    state.scopes = [(0, className)] →
      let after := numbered.foldl ScanState.read state
      after.scopes = [(0, className)] ∧ after.found.types = state.found.types ∧
        after.found.functions.map unplaced =
          state.found.functions.map unplaced ++ names.map (plainMethod className)

section

variable {className name : Text} {names names' : List Text} {l : Text} {ls ls' : List Text}

namespace AddsMethods

theorem nil (className : Text) : AddsMethods className [] [] := by
  intro state numbered same open_
  obtain rfl := List.map_eq_nil_iff.1 same
  exact ⟨open_, rfl, by simp⟩

theorem append (front : AddsMethods className names ls) (back : AddsMethods className names' ls') :
    AddsMethods className (names ++ names') (ls ++ ls') := by
  intro state numbered same open_
  obtain ⟨first, second, rfl, inFront, inBack⟩ := List.map_eq_append_iff.1 same
  obtain ⟨scopes, types, functions⟩ := front state first inFront open_
  obtain ⟨scopes', types', functions'⟩ := back _ second inBack scopes
  rw [List.foldl_append]
  refine ⟨scopes', types'.trans types, ?_⟩
  rw [functions', functions, List.map_append, List.append_assoc]

/-- What is read of an indented line inside the class. -/
theorem read_indented {state : ScanState} (open_ : state.scopes = [(0, className)])
    (indented : 0 < lineIndent l) (loud : declaresNothing l = false)
    (type : declaredType? l = none) (number : Nat) :
    state.read (number, l) =
      ⟨⟨state.found.functions ++ (declaredFunction? (some className) number l).toList,
        state.found.types⟩, [(0, className)]⟩ := by
  have enclosing : state.enclosing l = [(0, className)] := by
    have inside : ¬lineIndent l ≤ 0 := by omega
    rw [ScanState.enclosing, open_]
    simp [inside]
  rw [ScanState.read_eq, loud, enclosing, scopeOf?, type]
  simp

/-- An indented line that declares nothing adds nothing. -/
theorem silent (silent : IsSilent l) (indented : declaresNothing l ∨ 0 < lineIndent l) :
    AddsMethods className [] [l] := by
  intro state numbered same open_
  obtain ⟨⟨number, l'⟩, rfl, rfl⟩ := List.map_eq_singleton_iff.1 same
  rw [List.foldl_cons, List.foldl_nil]
  cases loud : declaresNothing l' with
  | true =>
    rw [ScanState.read_eq, if_pos loud]
    exact ⟨open_, rfl, by simp⟩
  | false =>
    have inside : 0 < lineIndent l' := by simpa [loud] using indented
    rw [read_indented open_ inside loud silent.type,
      declaredFunction?_eq_none silent.function]
    exact ⟨rfl, rfl, by simp⟩

/-- The indented header of a method adds it. -/
theorem header {i : Text} (blanks : ∀ c ∈ i, isBlank c) (filled : i ≠ [])
    (named : IsIdentifier name) :
    AddsMethods className [name] [i ++ ("func ".toList ++ name ++ "() \x7b".toList)] := by
  have line : "func ".toList ++ name ++ "() \x7b".toList =
      openingLine (.function name [] none) := by
    change _ = "func ".toList ++ name ++ ['('] ++ [')'] ++ " \x7b".toList
    simp only [List.append_assoc]
    rfl
  have found (number : Nat) : declaredFunction? (some className) number
      (i ++ ("func ".toList ++ name ++ "() \x7b".toList)) =
        some ⟨name, [], none, some className, number⟩ := by
    rw [declaredFunction?_blanks_append blanks, line]
    exact declaredFunction?_written named [] none (some className) number
  obtain ⟨r, starts⟩ := func_of_declaredFunction? (found 0)
  obtain ⟨loud, type⟩ := declares_of_func starts
  have indented : 0 < lineIndent (i ++ ("func ".toList ++ name ++ "() \x7b".toList)) := by
    rw [List.append_assoc, lineIndent, List.takeWhile_append_of_pos blanks, List.length_append]
    have some_blanks := List.length_pos_iff.2 filled
    omega
  intro state numbered same open_
  obtain ⟨⟨number, l⟩, rfl, rfl⟩ := List.map_eq_singleton_iff.1 same
  rw [List.foldl_cons, List.foldl_nil, read_indented open_ indented loud type, found]
  exact ⟨rfl, rfl, by simp [unplaced, plainMethod]⟩

/-- Lines inside of a method add nothing. -/
theorem inside (h : ∀ l ∈ ls, IsSilent l ∧ 0 < lineIndent l) : AddsMethods className [] ls := by
  induction ls with
  | nil => exact nil className
  | cons l ls ih =>
    obtain ⟨⟨quiet, indented⟩, behind⟩ := List.forall_mem_cons.1 h
    exact (silent quiet (Or.inr indented)).append (ih behind)

end AddsMethods

end

end SwiftDraft.Draft

namespace SwiftDraft.Skeleton

open Text
open Draft (DeclaredFunction DeclaredParameter IsSilent isSilent_call AddsMethods plainMethod
  unplaced declarations)

section

variable {f : DeclaredFunction}

/-- A call starts with a name and a parenthesis, be it that of the owner or of the function. -/
theorem exists_call (read : f.IsRead) (arguments : List Text) :
    ∃ w r, IsIdentifier w ∧ call f arguments = w ++ '(' :: r := by
  unfold call
  cases owned : f.owner with
  | none => exact ⟨f.name, join ", " arguments ++ [')'], read.name, by simp⟩
  | some o =>
    exact ⟨o, ").".toList ++ f.name ++ '(' :: join ", " arguments ++ [')'],
      read.owner o owned, by simp⟩

theorem isSilent_call_function (read : f.IsRead) (arguments : List Text) :
    IsSilent (call f arguments) := by
  obtain ⟨w, r, named, shape⟩ := exists_call read arguments
  rw [shape]
  exact isSilent_call named r

theorem isSilent_let (s : Text) : IsSilent ("let ".toList ++ s) :=
  .of_head (by decide) (by decide) _

theorem isSilent_binding (p : DeclaredParameter) : IsSilent (binding p) := by
  unfold binding
  dsimp only
  split <;> simp only [List.append_assoc] <;> exact isSilent_let _

theorem isSilent_assertion (s : Text) : IsSilent ('X' :: s) := .of_head (by decide) (by decide) s

theorem isSilent_of_mem_unitLines (read : f.IsRead) : ∀ l ∈ unitLines f, IsSilent l := by
  unfold unitLines
  refine List.forall_mem_append.2 ⟨List.forall_mem_map.2 fun p _ => isSilent_binding p, ?_⟩
  split
  · refine List.forall_mem_append.2 ⟨List.forall_mem_cons.2 ⟨isSilent_let _,
      List.forall_mem_singleton.2 (isSilent_assertion _)⟩, ?_⟩
    split
    · exact List.forall_mem_singleton.2 (isSilent_assertion _)
    · exact nofun
  · exact List.forall_mem_cons.2 ⟨isSilent_call_function read _,
      List.forall_mem_singleton.2 (.of_head (c := '/') (by decide) (by decide) _)⟩

end

/-- A test, by the lines of its method; none of them declares anything. -/
structure HasLines (t : Test) (body : List Text) : Prop where
  named : IsIdentifier t.name
  text : t.body = method t.name body
  line : ∀ l ∈ body, IsLine l
  silent : ∀ l ∈ body, IsSilent l

theorem hasLines_unitTest {f : DeclaredFunction} {t : Test} (read : f.IsRead)
    (test : IsUnitTest f t) : HasLines t (unitLines f) where
  named := isIdentifier_of_isUnitTest read test
  text := test.body
  line := isLine_of_mem_unitLines read
  silent := isSilent_of_mem_unitLines read

theorem hasLines_integrationTest {first second : DeclaredFunction} (read : first.IsRead)
    (read' : second.IsRead) : ∃ body, HasLines (integrationTest first second) body := by
  have sampled {f : DeclaredFunction} (read : f.IsRead) : IsLine (sampleCall f) :=
    isLine_call read (List.forall_mem_map.2 fun p mem =>
      newline_not_mem_argument (read.parameters p mem) (isLine_sample p.type).newline)
  have assertions : IsLine "XCTAssertNotNil(first)".toList ∧
      IsLine "XCTAssertNotNil(second)".toList :=
    ⟨⟨by decide, by decide, by decide⟩, ⟨by decide, by decide, by decide⟩⟩
  have named : IsIdentifier "testIntegration".toList :=
    ⟨'t', _, rfl, by decide, List.all_eq_true.1 rfl⟩
  refine ⟨_, named, rfl, ?_, ?_⟩ <;> simp only [List.forall_mem_cons]
  · exact ⟨(sampled read).append_left (by decide), (sampled read').append_left (by decide),
      assertions.1, assertions.2, List.forall_mem_nil _⟩
  · exact ⟨.of_head (c := 'l') (by decide) (by decide) _,
      .of_head (c := 'l') (by decide) (by decide) _, isSilent_assertion _, isSilent_assertion _,
      List.forall_mem_nil _⟩

/-- Every test of Swift text is made of such lines. -/
theorem hasLines_of_mem_tests {swift : Text} {t : Test} (mem : t ∈ tests swift) :
    ∃ body, HasLines t body := by
  have read : ∀ f ∈ (declarations swift).functions, f.IsRead := fun f =>
    Draft.isRead_of_mem_declarations
  have made : tests swift = unitTests [] (declarations swift).functions ++
    integrationTests (declarations swift).functions := rfl
  rw [made] at mem
  rcases List.mem_append.1 mem with unit | integration
  · obtain ⟨f, found, test⟩ := exists_of_mem_unitTests unit
    exact ⟨_, hasLines_unitTest (read f found) test⟩
  · generalize (declarations swift).functions = fs at read integration
    unfold integrationTests at integration
    split at integration
    · next first second rest =>
      rw [List.mem_singleton.1 integration]
      exact hasLines_integrationTest (read first (by simp)) (read second (by simp))
    · cases integration

section

variable {className : Text} {t : Test} {body : List Text}

theorem isLine_of_mem_method (made : HasLines t body) : ∀ l ∈ methodLines t.name body, IsLine l :=
  isLine_of_mem_methodLines (newline_not_mem_identifier made.named) made.line

/-- A method inside a class, line by line. -/
theorem lines_suiteMethod (made : HasLines t body) :
    suiteMethod t = unlines ((methodLines t.name body).map ("    ".toList ++ ·)) ∧
      lines (suiteMethod t) = (methodLines t.name body).map ("    ".toList ++ ·) := by
  have line := isLine_of_mem_method made
  have text : suiteMethod t = unlines ((methodLines t.name body).map ("    ".toList ++ ·)) := by
    rw [suiteMethod, made.text, method_eq_unlines, lines_unlines_of_isLine line, unlines,
      List.flatMap_map]
    exact List.flatMap_congr fun l mem => if_neg (line l mem).filled
  refine ⟨text, ?_⟩
  rw [text, lines_unlines_of_isLine (List.forall_mem_map.2 fun l mem =>
    (line l mem).append_left (by decide))]

theorem addsMethods_suiteMethod (made : HasLines t body) :
    AddsMethods className [t.name] (lines (suiteMethod t)) := by
  have blanks : ∀ c ∈ "    ".toList, isBlank c := List.all_eq_true.1 rfl
  have indented (l : Text) : 0 < Draft.lineIndent ("    ".toList ++ l) := by
    rw [Draft.lineIndent, List.takeWhile_append_of_pos blanks]
    simp
  have brace : IsSilent "\x7d".toList := .of_head (by decide) (by decide) []
  have inside : AddsMethods className [] (((body.map ("    ".toList ++ ·)) ++ ["\x7d".toList]).map
      ("    ".toList ++ ·)) := by
    refine .inside (List.forall_mem_map.2 fun l mem => ⟨.blanks_append ?_ blanks, indented l⟩)
    rcases List.mem_append.1 mem with inBody | last
    · obtain ⟨l', listed, rfl⟩ := List.mem_map.1 inBody
      exact (made.silent l' listed).blanks_append blanks
    · rw [List.mem_singleton.1 last]
      exact brace
  rw [(lines_suiteMethod made).2, methodLines, List.cons_append, List.map_cons]
  exact (AddsMethods.header blanks (by decide) made.named).append inside

theorem endsLine_suiteMethod (made : HasLines t body) : EndsLine (suiteMethod t) := by
  rw [(lines_suiteMethod made).1, methodLines, List.map_append, unlines, List.flatMap_append]
  exact Or.inr (List.getLast?_append_of_ne_nil _ (by decide))

theorem endsLine_methods {ts : List Test} (made : ∀ t ∈ ts, ∃ body, HasLines t body) :
    EndsLine (join "\n" (ts.map suiteMethod)) := by
  refine join_induction (Or.inl rfl) (fun s u first second => ?_) (Or.inr rfl)
    (List.forall_mem_map.2 fun t mem => ?_)
  · rcases second with rfl | newline
    · rwa [List.append_nil]
    · refine Or.inr ?_
      have filled : u ≠ [] := List.ne_nil_of_mem (List.mem_of_getLast? newline)
      rw [List.getLast?_append_of_ne_nil s filled, newline]
  · obtain ⟨body, made⟩ := made t mem
    exact endsLine_suiteMethod made

/-- The methods of a suite, with blank lines between them. -/
theorem addsMethods_methods {ts : List Test} (made : ∀ t ∈ ts, ∃ body, HasLines t body) :
    AddsMethods className (ts.map Test.name) (lines (join "\n" (ts.map suiteMethod))) := by
  induction ts with
  | nil => exact .nil className
  | cons t ts ih =>
    obtain ⟨⟨body, here⟩, behind⟩ := List.forall_mem_cons.1 made
    cases ts with
    | nil =>
      have whole : join "\n" ([t].map suiteMethod) = suiteMethod t := List.intercalate_singleton ..
      rw [whole]
      exact addsMethods_suiteMethod here
    | cons u ts =>
      have whole : join "\n" ((t :: u :: ts).map suiteMethod) =
          suiteMethod t ++ '\n' :: join "\n" ((u :: ts).map suiteMethod) := by
        rw [join, List.map_cons, List.map_cons, List.intercalate_cons_cons, List.append_assoc]
        rfl
      have gap : AddsMethods className [] [[]] := .silent ⟨rfl, rfl⟩ (Or.inl rfl)
      rw [whole, lines_append (endsLine_suiteMethod here), lines_newline]
      exact (addsMethods_suiteMethod here).append (gap.append (ih behind))

end

/-- The line that opens the class of a suite. -/
def classLine (className : Text) : Text :=
  "final class ".toList ++ className ++ ": XCTestCase \x7b".toList

theorem isLine_classLine {className : Text} (named : IsIdentifier className) :
    IsLine (classLine className) := by
  have ending : IsLine ": XCTestCase \x7b".toList := ⟨by decide, by decide, by decide⟩
  exact ending.append_left
    (List.not_mem_append (by decide) (newline_not_mem_identifier named))

theorem declaredType?_classLine {className : Text} (named : IsIdentifier className) :
    Draft.declaredType? (classLine className) = some className := by
  obtain ⟨rest, shape⟩ : ∃ rest, rest = ": XCTestCase \x7b".toList := ⟨_, rfl⟩
  have atEnd : atWordEnd rest := by
    rw [shape]
    decide
  have line : classLine className =
      'f' :: 'i' :: 'n' :: 'a' :: 'l' :: ' ' :: ("class".toList ++ ' ' :: (className ++ rest)) := by
    unfold classLine
    rw [shape, List.append_assoc]
    rfl
  have start : trimStart (classLine className) = classLine className := by
    rw [line]
    exact trimStart_cons_of_not_blank (by decide) _
  have final : after? "final" (classLine className) =
      some (' ' :: ("class".toList ++ ' ' :: (className ++ rest))) := by
    rw [line]
    exact after?_eq_some_iff.2 rfl
  have word : IsIdentifier "class".toList :=
    ⟨'c', "lass".toList, rfl, by decide, List.all_eq_true.1 rfl⟩
  have keyword : after? "class" ("class".toList ++ ' ' :: (className ++ rest)) =
      some (' ' :: (className ++ rest)) := after?_eq_some_iff.2 rfl
  simp only [Draft.declaredType?, start, final, Option.bind_some, afterGap?_identifier word,
    Option.getD_some, keyword, afterGap?_identifier named, identifier?_append named atEnd,
    Option.orElse_eq_orElse, Option.orElse_eq_or, Option.some_or, Option.bind_eq_bind]
  rfl

theorem read_classLine {className : Text} (named : IsIdentifier className) (number : Nat) :
    Draft.ScanState.start.read (number, classLine className) =
      ⟨⟨[], [className]⟩, [(0, className)]⟩ := by
  have loud : Draft.declaresNothing (classLine className) = false := rfl
  have indent : Draft.lineIndent (classLine className) = 0 := rfl
  have noFunction : Draft.functionName? (classLine className) = none := by
    refine Draft.functionName?_eq_none fun r starts => ?_
    have second : 'i' = 'u' := (List.cons.inj (List.cons.inj starts).2).1
    exact absurd second (by decide)
  have enclosing : Draft.ScanState.start.enclosing (classLine className) = [] := rfl
  rw [Draft.ScanState.read_eq, loud, enclosing, Draft.scopeOf?, declaredType?_classLine named,
    indent, Draft.declaredFunction?_eq_none noFunction]
  rfl

theorem lines_suite {className : Text} (named : IsIdentifier className) {ts : List Test}
    (made : ∀ t ∈ ts, ∃ body, HasLines t body) :
    lines (suite className ts) = "import XCTest".toList :: [] :: classLine className ::
      (lines (join "\n" (ts.map suiteMethod)) ++ ["\x7d".toList]) := by
  have opening : "import XCTest\n\nfinal class ".toList =
      "import XCTest".toList ++ '\n' :: '\n' :: "final class ".toList := by decide
  have brace : ": XCTestCase \x7b\n".toList = ": XCTestCase \x7b".toList ++ ['\n'] := by decide
  have closing : lines "\x7d\n".toList = ["\x7d".toList] := by decide
  have whole : suite className ts = "import XCTest".toList ++ '\n' :: '\n' ::
      (classLine className ++ '\n' :: (join "\n" (ts.map suiteMethod) ++ "\x7d\n".toList)) := by
    unfold suite classLine
    rw [opening, brace]
    simp only [List.append_assoc, List.cons_append, List.nil_append]
  rw [whole, lines_line_append (by decide), lines_newline,
    lines_line_append (isLine_classLine named).newline,
    chomp_of_getLast (isLine_classLine named).ending, lines_append (endsLine_methods made), closing,
    chomp_of_getLast (by decide)]

/-- A rendered suite scans back to its tests: the one type in it is its class, and the functions in
it are its tests in their order, as methods of the class without parameters that return nothing. -/
theorem suite_scanned_back {className : Text} (named : IsIdentifier className) (swift : Text) :
    (declarations (suite className (tests swift))).types = [className] ∧
      (declarations (suite className (tests swift))).functions.map unplaced =
        (tests swift).map fun t => plainMethod className t.name := by
  have made : ∀ t ∈ tests swift, ∃ body, HasLines t body := fun t => hasLines_of_mem_tests
  have texts := Draft.map_snd_numberedLines (suite className (tests swift))
  rw [lines_suite named made] at texts
  obtain ⟨⟨i, l⟩, behind, split, rfl, second⟩ := List.map_eq_cons_iff.1 texts
  obtain ⟨⟨j, l⟩, behind, rfl, rfl, third⟩ := List.map_eq_cons_iff.1 second
  obtain ⟨⟨k, l⟩, behind, rfl, rfl, rest⟩ := List.map_eq_cons_iff.1 third
  obtain ⟨methods, last, rfl, inside, ending⟩ := List.map_eq_append_iff.1 rest
  obtain ⟨⟨m, l⟩, rfl, rfl⟩ := List.map_eq_singleton_iff.1 ending
  obtain ⟨-, types, functions⟩ := addsMethods_methods made
    ⟨⟨[], [className]⟩, [(0, className)]⟩ methods inside rfl
  have brace : IsSilent "\x7d".toList := .of_head (by decide) (by decide) []
  have head : (Draft.ScanState.start.read (i, "import XCTest".toList)).read (j, []) = .start := rfl
  have found : declarations (suite className (tests swift)) =
      (methods.foldl Draft.ScanState.read ⟨⟨[], [className]⟩, [(0, className)]⟩).found := by
    rw [declarations, split, List.foldl_cons, List.foldl_cons, List.foldl_cons, head,
      read_classLine named, List.foldl_append, List.foldl_cons, List.foldl_nil, brace.found_read]
  rw [found]
  refine ⟨types, functions.trans ?_⟩
  rw [List.map_nil, List.nil_append, List.map_map]
  rfl

/-- A function and a method, the one with a type in its header that closes a brace. -/
def greeting : Text :=
  "func run(op: (\x7b\x7d) -> Int) \x7b\n\x7d\nclass Greeter \x7b\n    func greet() \x7b\n".toList

theorem suite_scanned_back_greeting :
    IsIdentifier "DraftTests".toList ∧
      (declarations (suite "DraftTests".toList (tests greeting))).types = ["DraftTests".toList] ∧
        (declarations (suite "DraftTests".toList (tests greeting))).functions.map unplaced =
          ["testRun".toList, "testGreet".toList, "testIntegration".toList].map
            (plainMethod "DraftTests".toList) := by
  have named : IsIdentifier "DraftTests".toList :=
    ⟨'D', "raftTests".toList, rfl, by decide, List.all_eq_true.1 rfl⟩
  have names : (tests greeting).map Test.name =
      ["testRun".toList, "testGreet".toList, "testIntegration".toList] := by decide
  obtain ⟨types, functions⟩ := suite_scanned_back named greeting
  refine ⟨named, types, functions.trans ?_⟩
  rw [← names, List.map_map]
  rfl

end SwiftDraft.Skeleton
