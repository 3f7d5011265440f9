import SwiftDraft.Proofs.Suites

/-!
# The locals of a unit test

A unit test binds a local for each parameter, calls the function with them and, if that returns
something, binds the result. Read back from its text, it binds the names of the parameters in their
order and passes each of them once in the same order (`unit_test_locals`). The local of the result
has a fixed name; that is the one way in which a name can be bound twice.
-/

namespace SwiftDraft

namespace Text

section

variable {front s : Text} {c d : Char}

theorem cutAt?_cons_of_ne (other : d ≠ c) (r s : Text) :
    cutAt? (c :: r) (d :: s) = (cutAt? (c :: r) s).map fun (l, rest) => (d :: l, rest) := by
  have noPrefix : List.isPrefixOf? (c :: r) (d :: s) = none := by
    rw [List.isPrefixOf?.eq_3, if_neg (by simpa using Ne.symm other)]
  rw [cutAt?, noPrefix]

theorem cutAt?_append (first : c ∉ front) (r back : Text) :
    cutAt? (c :: r) (front ++ (c :: r ++ back)) = some (front, back) := by
  induction front with
  | nil =>
    have starts : List.isPrefixOf? (c :: r) (c :: (r ++ back)) = some back :=
      List.isPrefixOf?_eq_some_iff_append_eq.2 rfl
    rw [List.nil_append, List.cons_append, cutAt?, starts]
  | cons d front ih =>
    obtain ⟨other, rest⟩ := not_or.1 (mt List.mem_cons.2 first)
    rw [List.cons_append, cutAt?_cons_of_ne (Ne.symm other), ih rest]
    rfl

theorem cutAt?_eq_none (absent : c ∉ s) (r : Text) : cutAt? (c :: r) s = none := by
  induction s with
  | nil => rfl
  | cons d s ih =>
    obtain ⟨other, rest⟩ := not_or.1 (mt List.mem_cons.2 absent)
    rw [cutAt?_cons_of_ne (Ne.symm other), ih rest]
    rfl

end

end Text

namespace Skeleton

open Text
open Draft (DeclaredFunction DeclaredParameter IsToken declarations)

/-- The name that a `let` line binds. -/
def boundName? (line : Text) : Option Text :=
  (after? "let " (trimStart line)).map fun r => r.takeWhile fun c => c ≠ ':' && !isBlank c

/-- The names that are bound in the body of a test, in their order. -/
def boundNames (body : Text) : List Text := (lines body).filterMap boundName?

/-- The arguments of a call, between the commas with a blank behind them. -/
def cutArguments : Text → List Text
  | [] => [[]]
  | ',' :: ' ' :: r => [] :: cutArguments r
  | c :: r => consPiece c (cutArguments r)

/-- What is passed for an argument, without its label. -/
def passedValue (argument : Text) : Text :=
  ((cutAt? ": ".toList argument).map Prod.snd).getD argument

/-- The values that are passed by a list of arguments. -/
def passedValues (arguments : Text) : List Text :=
  if arguments = [] then [] else (cutArguments arguments).map passedValue

/-- What a call of a function starts with. -/
def callee (f : DeclaredFunction) : Text :=
  (match f.owner with
    | some owner => owner ++ "().".toList
    | none => []) ++ f.name

/-- The local that a test binds the result of the call to. -/
def resultName : Text := "result".toList

section

variable {t rest : Text}

theorem cutArguments_cons {c : Char} (apart : c = ',' → t.head? ≠ some ' ') :
    cutArguments (c :: t) = prependPiece [c] (cutArguments t) := by
  rw [cutArguments.eq_3 c t, consPiece_eq]
  rintro r comma rfl
  exact apart comma rfl

theorem prependPiece_nil (t : Text) : prependPiece [] (cutArguments t) = cutArguments t := by
  have filled : cutArguments t ≠ [] := by
    unfold cutArguments
    split
    · exact List.cons_ne_nil _ _
    · exact List.cons_ne_nil _ _
    · rw [consPiece_eq]
      cases cutArguments _ <;> exact List.cons_ne_nil _ _
  obtain ⟨p, ps, shape⟩ := List.exists_cons_of_ne_nil filled
  rw [shape]
  rfl

/-- A name is never cut, since there is no blank in it. -/
theorem cutArguments_visible (visible : ∀ c ∈ t, isBlank c = false)
    (sign : rest.head? ≠ some ' ') :
    cutArguments (t ++ rest) = prependPiece t (cutArguments rest) := by
  induction t with
  | nil => exact (prependPiece_nil rest).symm
  | cons c t ih =>
    obtain ⟨-, behind⟩ := List.forall_mem_cons.1 visible
    have apart : (t ++ rest).head? ≠ some ' ' := by
      cases t with
      | nil => exact sign
      | cons d t =>
        rintro ⟨⟩
        exact absurd (behind ' ' List.mem_cons_self) (by decide)
    rw [List.cons_append, cutArguments_cons fun _ => apart, ih behind, ← prependPiece_append]
    rfl

theorem cutArguments_argument {p : DeclaredParameter} (read : p.IsRead)
    (sign : rest.head? ≠ some ' ') :
    cutArguments (argument p p.name ++ rest) =
      prependPiece (argument p p.name) (cutArguments rest) := by
  have value := cutArguments_visible read.name.visible sign
  unfold argument
  split
  · next label given =>
    have parts : label ++ ": ".toList ++ p.name ++ rest =
        label ++ ':' :: ' ' :: (p.name ++ rest) := by simp
    rw [parts, cutArguments_visible (read.label label given).visible (by simp),
      cutArguments_cons (by simp), cutArguments_cons (by simp), value]
    simp only [← prependPiece_append]
    simp
  · exact value

theorem passedValue_argument {p : DeclaredParameter} (read : p.IsRead) :
    passedValue (argument p p.name) = p.name := by
  have colon : ": ".toList = [':', ' '] := rfl
  unfold argument passedValue
  rw [colon]
  split
  · next label given =>
    rw [List.append_assoc, cutAt?_append (read.label label given).colon [' '] p.name]
    rfl
  · rw [cutAt?_eq_none read.name.colon]
    rfl

theorem cutArguments_join {ps : List DeclaredParameter} (filled : ps ≠ [])
    (read : ∀ p ∈ ps, p.IsRead) :
    cutArguments (join ", " (ps.map fun p => argument p p.name)) =
      ps.map fun p => argument p p.name := by
  unfold join
  induction ps with
  | nil => exact absurd rfl filled
  | cons p ps ih =>
    obtain ⟨here, behind⟩ := List.forall_mem_cons.1 read
    cases ps with
    | nil =>
      have alone : cutArguments (argument p p.name ++ []) =
          prependPiece (argument p p.name) (cutArguments []) := cutArguments_argument here nofun
      rw [List.append_nil] at alone
      rw [List.map_singleton, List.intercalate_singleton, alone]
      exact congrArg (· :: []) (List.append_nil _)
    | cons q ps =>
      have cut (r : Text) : cutArguments (", ".toList ++ r) = [] :: cutArguments r :=
        cutArguments.eq_2 r
      have further := ih (List.cons_ne_nil q ps) behind
      rw [List.map_cons] at further
      rw [List.map_cons, List.map_cons, List.intercalate_cons_cons, List.append_assoc,
        cutArguments_argument here (by simp), cut, further]
      exact congrArg (· :: _) (List.append_nil _)

/-- The arguments of a call pass the parameters' locals in their order. -/
theorem passedValues_join {ps : List DeclaredParameter} (read : ∀ p ∈ ps, p.IsRead) :
    passedValues (join ", " (ps.map fun p => argument p p.name)) =
      ps.map DeclaredParameter.name := by
  cases ps with
  | nil => rfl
  | cons p ps =>
    have parts := cutArguments_join (List.cons_ne_nil p ps) read
    have here := read p List.mem_cons_self
    have filled : join ", " ((p :: ps).map fun p => argument p p.name) ≠ [] := by
      intro empty
      rw [empty, List.map_cons] at parts
      have value := passedValue_argument here
      rw [← (List.cons.inj parts).1] at value
      exact here.name.filled value.symm
    have values : ∀ q ∈ p :: ps, passedValue (argument q q.name) = q.name := fun q mem =>
      passedValue_argument (read q mem)
    rw [passedValues, if_neg filled, parts, List.map_map]
    exact List.map_congr_left values

end

section

variable {f : DeclaredFunction} {t : Test}

theorem boundName?_let {name r : Text} (visible : ∀ c ∈ name, isBlank c = false)
    (colon : ':' ∉ name) (ends : ∃ c ∈ r.head?, c = ':' ∨ isBlank c) :
    boundName? ("let ".toList ++ (name ++ r)) = some name := by
  have start : trimStart ("let ".toList ++ (name ++ r)) = "let ".toList ++ (name ++ r) :=
    trimStart_cons_of_not_blank (by decide) _
  have inName : ∀ c ∈ name, (c ≠ ':' && !isBlank c) = true := by
    intro c mem
    have other : c ≠ ':' := by
      rintro rfl
      exact colon mem
    simp [other, visible c mem]
  obtain ⟨c, first, stops⟩ := ends
  obtain ⟨r, rfl⟩ := List.head?_eq_some_iff.1 first
  have stop : ¬(c ≠ ':' && !isBlank c) = true := by
    rcases stops with rfl | blank
    · decide
    · simp [blank]
  rw [boundName?, start, after?_eq_some_iff.2 rfl, Option.map_some,
    List.takeWhile_append_of_pos inName,
    List.takeWhile_cons_of_neg (p := fun c => c ≠ ':' && !isBlank c) stop, List.append_nil]

theorem boundName?_binding {p : DeclaredParameter} (read : p.IsRead) :
    boundName? (binding p) = some p.name := by
  have bound {r : Text} (ends : ∃ c ∈ r.head?, c = ':' ∨ isBlank c) :
      boundName? ("let ".toList ++ (p.name ++ r)) = some p.name :=
    boundName?_let read.name.visible read.name.colon ends
  unfold binding
  dsimp only
  split
  · simp only [List.append_assoc]
    exact bound ⟨':', rfl, Or.inl rfl⟩
  · simp only [List.append_assoc]
    exact bound ⟨' ', rfl, Or.inr (by decide)⟩

theorem boundName?_call (read : f.IsRead) (arguments : List Text) :
    boundName? (call f arguments) = none := by
  obtain ⟨w, r, named, shape⟩ := exists_call read arguments
  rw [boundName?, shape, trimStart_identifier named, Option.map_eq_none_iff,
    Option.eq_none_iff_forall_ne_some]
  intro t found
  have keyword : after? "let" (w ++ '(' :: r) = some (' ' :: t) :=
    after?_eq_some_iff.2 ((after?_eq_some_iff.1 found).trans rfl)
  have none := Draft.gap_of_call "let" rfl named r
  rw [keyword, Option.bind_some] at none
  cases none

theorem boundName?_indented (l : Text) : boundName? ("    ".toList ++ l) = boundName? l := by
  unfold boundName?
  rw [trimStart_of_blanks (List.all_eq_true.1 rfl)]

/-- The start of the line with the call: the local of the result, if there is one. -/
def callStart (f : DeclaredFunction) : Text :=
  if f.returnType.isSome then "let ".toList ++ resultName ++ " = ".toList else []

def callLine (f : DeclaredFunction) : Text :=
  callStart f ++ call f (f.parameters.map fun p => argument p p.name)

/-- What a unit test asserts, or says of a function that returns nothing. -/
def assertions (f : DeclaredFunction) : List Text :=
  match f.returnType with
  | some type => "XCTAssertNotNil(result)".toList ::
    if type = "String".toList then ["XCTAssertFalse(result.isEmpty)".toList] else []
  | none => ["// ".toList ++ f.name ++ " returns no value; nothing to assert".toList]

theorem unitLines_eq (f : DeclaredFunction) :
    unitLines f = f.parameters.map binding ++ callLine f :: assertions f := by
  unfold unitLines callLine callStart assertions
  cases f.returnType with
  | none => rfl
  | some type => rfl

theorem boundName?_callLine (read : f.IsRead) :
    boundName? (callLine f) = f.returnType.map fun _ => resultName := by
  unfold callLine callStart
  cases f.returnType with
  | none => exact boundName?_call read _
  | some type =>
    have shape (made : Text) : "let ".toList ++ resultName ++ " = ".toList ++ made =
        "let ".toList ++ (resultName ++ (" = ".toList ++ made)) := by
      simp only [List.append_assoc]
    have visible : ∀ c ∈ resultName, isBlank c = false := fun c mem =>
      Script.isBlank_of_isWord (List.all_eq_true.1 rfl c mem)
    rw [Option.isSome_some, if_pos rfl, shape]
    exact boundName?_let visible (by decide) ⟨' ', rfl, Or.inr (by decide)⟩

theorem boundName?_assertion : ∀ l ∈ assertions f, boundName? l = none := by
  have other {c : Char} (visible : isBlank c = false) (differs : c ≠ 'l') (r : Text) :
      boundName? (c :: r) = none := by
    rw [boundName?, trimStart_cons_of_not_blank visible]
    simp [after?, List.isPrefixOf?, Ne.symm differs]
  unfold assertions
  split
  · refine List.forall_mem_cons.2 ⟨other (by decide) (by decide) _, ?_⟩
    split
    · exact List.forall_mem_singleton.2 (other (by decide) (by decide) _)
    · exact List.forall_mem_nil _
  · exact List.forall_mem_singleton.2 (other (c := '/') (by decide) (by decide) _)

theorem filterMap_bindings (read : f.IsRead) :
    (f.parameters.map binding).filterMap boundName? = f.parameters.map DeclaredParameter.name := by
  rw [List.filterMap_map, ← List.filterMap_eq_map]
  exact List.filterMap_congr fun p mem => boundName?_binding (read.parameters p mem)

theorem filterMap_indented (ls : List Text) :
    (ls.map ("    ".toList ++ ·)).filterMap boundName? = ls.filterMap boundName? := by
  rw [List.filterMap_map]
  exact List.filterMap_congr fun l _ => boundName?_indented l

/-- The lines of a unit test above its call, and those below. -/
theorem lines_around_call (read : f.IsRead) (test : IsUnitTest f t) :
    ∃ above below, lines t.body = above ++ ("    ".toList ++ callLine f) :: below ∧
      above.filterMap boundName? = f.parameters.map DeclaredParameter.name ∧
        below.filterMap boundName? = [] := by
  have header : boundName? ("func ".toList ++ t.name ++ "() \x7b".toList) = none := rfl
  have brace : boundName? "\x7d".toList = none := rfl
  refine ⟨("func ".toList ++ t.name ++ "() \x7b".toList) ::
      (f.parameters.map binding).map ("    ".toList ++ ·),
    (assertions f).map ("    ".toList ++ ·) ++ ["\x7d".toList], ?_, ?_, ?_⟩
  · rw [lines_unitTest read test, methodLines, unitLines_eq, List.map_append, List.map_cons]
    simp only [List.cons_append, List.append_assoc]
  · rw [List.filterMap_cons_none header, filterMap_indented, filterMap_bindings read]
  · rw [List.filterMap_append, filterMap_indented, List.filterMap_eq_nil_iff.2 boundName?_assertion,
      List.filterMap_cons_none brace]
    rfl

theorem boundNames_eq (read : f.IsRead) (test : IsUnitTest f t) :
    boundNames t.body =
      f.parameters.map DeclaredParameter.name ++ (f.returnType.map fun _ => resultName).toList := by
  obtain ⟨above, below, split, bound, rest⟩ := lines_around_call read test
  rw [boundNames, split, List.filterMap_append, List.filterMap_cons, boundName?_indented,
    boundName?_callLine read, bound, rest]
  cases f.returnType <;> rfl

end

/-- The names that the unit test of a function binds are those of its parameters, in their order,
and `result` if the function returns something; so with different parameters they are different
unless one of these is named `result`. The call passes each parameter's own local once, in the same
order, below the lines that bind them. -/
theorem unit_test_locals {swift : Text} {f : DeclaredFunction}
    (found : f ∈ (declarations swift).functions) (taken : List Text) :
    let names := f.parameters.map DeclaredParameter.name
    let body := (unitTest taken f).body
    boundNames body = names ++ (f.returnType.map fun _ => resultName).toList ∧
      (names.Nodup → ((boundNames body).Nodup ↔ (f.returnType.isSome → resultName ∉ names))) ∧
        ∃ above arguments below, lines body = above ++ ("    ".toList ++ callStart f ++ callee f ++
          '(' :: arguments ++ [')']) :: below ∧
            above.filterMap boundName? = names ∧ passedValues arguments = names := by
  intro names body
  have read := Draft.isRead_of_mem_declarations found
  have test := isUnitTest_unitTest taken f
  have bound : boundNames body = names ++ (f.returnType.map fun _ => resultName).toList :=
    boundNames_eq read test
  refine ⟨bound, fun distinct => ?_, ?_⟩
  · rw [bound]
    cases f.returnType with
    | none => simpa using distinct
    | some type => simp [← List.concat_eq_append, List.nodup_concat, distinct]
  · obtain ⟨above, below, split, names, -⟩ := lines_around_call read test
    refine ⟨above, join ", " (f.parameters.map fun p => argument p p.name), below, ?_, names,
      passedValues_join read.parameters⟩
    have whole : "    ".toList ++ callLine f = "    ".toList ++ callStart f ++ callee f ++
        '(' :: join ", " (f.parameters.map fun p => argument p p.name) ++ [')'] := by
      unfold callLine call callee
      cases f.owner with
      | none => simp only [List.append_assoc, List.cons_append, List.nil_append]
      | some o => simp only [List.append_assoc, List.cons_append]
    rw [← whole]
    exact split

/-- A function with a parameter that has a label of its own. -/
def scaleFunction : Text := "func scale(x: Int, by factor: Double) -> Int \x7b\n\x7d\n".toList

def scaleSignature : DeclaredFunction where
  name := "scale".toList
  parameters := [⟨some "x".toList, "x".toList, some "Int".toList⟩,
    ⟨some "by".toList, "factor".toList, some "Double".toList⟩]
  returnType := some "Int".toList
  owner := none
  line := 1

theorem unit_test_locals_scale :
    scaleSignature ∈ (declarations scaleFunction).functions ∧
      (boundNames (unitTest [] scaleSignature).body).Nodup ∧
        ∃ above arguments below, lines (unitTest [] scaleSignature).body = above ++
          ("    ".toList ++ callStart scaleSignature ++ callee scaleSignature ++
            '(' :: arguments ++ [')']) :: below ∧
              above.filterMap boundName? = ["x".toList, "factor".toList] ∧
                passedValues arguments = ["x".toList, "factor".toList] := by
  have found : scaleSignature ∈ (declarations scaleFunction).functions := by decide
  obtain ⟨-, distinct, called⟩ := unit_test_locals found []
  exact ⟨found, (distinct (by decide)).2 (by decide), called⟩

/-- A function that returns something, with a parameter `result`. -/
def resultParameter : Text := "func f(result: Int) -> Int \x7b\n\x7d\n".toList

/-- The local of the parameter and that of the result have the same name. -/
theorem result_bound_twice :
    ∃ f ∈ (declarations resultParameter).functions,
      (f.parameters.map DeclaredParameter.name).Nodup ∧
        boundNames (unitTest [] f).body = [resultName, resultName] ∧
          ¬(boundNames (unitTest [] f).body).Nodup := by
  decide

end Skeleton

end SwiftDraft
