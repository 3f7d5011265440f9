import SwiftDraft.Proofs.HeaderLines
import SwiftDraft.Proofs.Stamp
import SwiftDraft.Skeleton.Test

/-!
# The functions found in a draft

The functions that a scan finds in the draft of a script, statement by statement
(`functions_found`): each on the line its statement was printed on.
-/

namespace SwiftDraft

open Text

namespace Script

/-- The functions and classes of a script have identifiers as their names. -/
theorem isIdentifier_of_mem_preorder {unit number : Nat} {source : Text} {h : Header}
    (mem : (number, .header h) ∈ preorder (nest unit source).nodes) :
    ∀ name ∈ h.name?, IsIdentifier name := by
  rw [preorder_nest] at mem
  obtain ⟨item, inItems, same⟩ := List.mem_map.1 mem
  obtain ⟨front, l, own, behind, before, -, read, -, -⟩ := split_of_mem inItems
  have statement : (logicalLine unit (1 + front.length) l (own ++ behind)).statement =
      .header h := by
    rw [← read]
    exact congrArg Prod.snd same
  rcases line_cases l with blank | ⟨text, comment⟩ | ⟨quotes, first, starts⟩ | code
  · rw [logicalLine_blank _ _ _ blank] at statement
    cases statement
  · rw [logicalLine_comment _ _ _ comment] at statement
    cases statement
  · rw [logicalLine_docstring _ _ _ starts] at statement
    cases statement
  · rw [logicalLine_code _ _ _ code] at statement
    exact isIdentifier_of_recognise statement

end Script

namespace Draft

open Script (Header Statement Node preorder nest)

/-- Where a function and its line are found. -/
def DeclaredFunction.place (f : DeclaredFunction) : Nat × Text := (f.line, f.name)

theorem functions_read (state : ScanState) (number : Nat) (line : Text) :
    (state.read (number, line)).found.functions.map DeclaredFunction.place =
      state.found.functions.map DeclaredFunction.place ++
        ((functionName? line).map fun name => (number, name)).toList := by
  rw [ScanState.read_eq]
  split
  · next silent =>
    rw [functionName?_eq_none fun r starts => by simp [(declares_of_func starts).1] at silent]
    simp
  · rw [List.map_append, ← Option.toList_map]
    exact congrArg (fun found : Option (Nat × Text) => _ ++ found.toList)
      (map_declaredFunction? _ number line)

/-- The functions of Swift text are those whose headers its lines hold. -/
theorem functions_declarations (swift : Text) :
    (declarations swift).functions.map DeclaredFunction.place =
      (numberedLines swift).filterMap fun l => (functionName? l.2).map fun name => (l.1, name) := by
  have run (state : ScanState) (numbered : List (Nat × Text)) :
      (numbered.foldl ScanState.read state).found.functions.map DeclaredFunction.place =
        state.found.functions.map DeclaredFunction.place ++
          numbered.filterMap fun l => (functionName? l.2).map fun name => (l.1, name) := by
    induction numbered generalizing state with
    | nil => simp
    | cons l numbered ih =>
      rw [List.foldl_cons, ih, functions_read, List.append_assoc, List.filterMap_cons]
      cases functionName? l.2 <;> rfl
  exact run .start (numberedLines swift)

theorem functionName?_shown (unit : Nat) (l : Line) :
    functionName? (chomp (l.shown unit)) = functionName? (chomp l.text) := by
  unfold Line.shown
  split
  · next empty => rw [empty]
  · next filled =>
    have spaces : ∀ c ∈ List.replicate (l.depth * unit) ' ', isBlank c := by
      intro c mem
      rw [List.eq_of_mem_replicate mem]
      decide
    rw [chomp_append _ filled, functionName?_blanks_append spaces]

theorem endsLine_header (generatedAt : Text) : EndsLine (header generatedAt) := by
  right
  rw [header_eq, List.getLast?_append_of_ne_nil _ (List.cons_ne_nil _ _)]
  decide

theorem lines_header (seconds : Int) : lines (header (timestamp seconds)) =
    (stampStart ++ timestamp seconds) ::
      ["// Best-effort translation from Python; review before use.".toList, [],
        "import Foundation".toList, []] := by
  rw [header_eq, lines_line (stampLine_plain seconds)]
  exact congrArg _ (by decide)

theorem functionName?_header (seconds : Int) :
    ∀ l ∈ lines (header (timestamp seconds)), functionName? l = none := by
  rw [lines_header]
  refine List.forall_mem_cons.2 ⟨?_, by decide⟩
  exact functionName?_of_head (by decide) (by decide) _

/-- The number of the first line behind the header of a draft. -/
def firstLine : Nat := 6

theorem numberedLines_eq (s : Text) :
    numberedLines s = (lines s).zipIdx.map fun p => (p.2 + 1, p.1) := rfl

/-- Behind its header, a draft has the lines that are printed for the nodes of the script. -/
theorem lines_ofScript (unit : Nat) (seconds : Int) (source : Text) :
    lines (ofScript unit (timestamp seconds) source).text = lines (header (timestamp seconds)) ++
      (printed 0 (nest (effectiveUnit unit) source).nodes).map fun p =>
        chomp (p.line.shown (effectiveUnit unit)) := by
  have plain : ∀ l ∈ (printed 0 (nest (effectiveUnit unit) source).nodes).map (fun p =>
      p.line.shown (effectiveUnit unit)), '\n' ∉ l := by
    intro l mem
    obtain ⟨p, inDraft, rfl⟩ := List.mem_map.1 mem
    exact newline_not_mem_shown (newline_not_mem_printed inDraft)
  rw [text_eq_printed, lines_append (endsLine_header _), lines_unlines plain, List.map_map]
  rfl

/-- The functions found in a draft, by the lines that its statements and blocks are printed on. -/
theorem functions_ofScript (unit : Nat) (seconds : Int) (source : Text) :
    (declarations (ofScript unit (timestamp seconds) source).text).functions.map
        DeclaredFunction.place =
      ((printed 0 (nest (effectiveUnit unit) source).nodes).zipIdx firstLine).filterMap fun p =>
        (functionName? (chomp p.1.line.text)).map fun name => (p.2, name) := by
  have silent : (((lines (header (timestamp seconds))).zipIdx.map fun p =>
      (p.2 + 1, p.1)).filterMap fun l => (functionName? l.2).map fun name => (l.1, name)) = [] := by
    refine List.filterMap_eq_nil_iff.2 fun l mem => ?_
    obtain ⟨p, inHeader, rfl⟩ := List.mem_map.1 mem
    have none := functionName?_header seconds p.1 (List.fst_mem_of_mem_zipIdx inHeader)
    simp only [none, Option.map_none]
  rw [functions_declarations, numberedLines_eq, lines_ofScript, List.zipIdx_append, List.map_append,
    List.filterMap_append, silent, List.nil_append, lines_header, List.zipIdx_map, List.map_map,
    List.filterMap_map, firstLine, List.zipIdx_succ, List.filterMap_map]
  refine List.filterMap_congr fun p _ => ?_
  exact congrArg (Option.map fun name => (p.2 + 1, name))
    (functionName?_shown (effectiveUnit unit) p.1.line)

/-- What a line was printed for, by the statement it belongs to; the end of a block is none. -/
def printedName? (name? : Statement → Option Text) (p : Printed) : Option Text :=
  if p.closes then none else name? p.origin.2

/-- Names with the numbers of the lines of the draft that they stand on. -/
def places (name? : Statement → Option Text) (drafted : List Printed) : List (Nat × Text) :=
  (drafted.zipIdx firstLine).filterMap fun p =>
    (printedName? name? p.1).map fun name => (p.2, name)

theorem functionName?_printed {unit : Nat} {source : Text} {p : Printed}
    (mem : p ∈ printed 0 (nest unit source).nodes) :
    functionName? (chomp p.line.text) = printedName? foundName? p := by
  unfold printedName?
  cases kind : p.closes with
  | true =>
    rw [braces_printed mem kind]
    exact functionName?_chomp_of_head (by decide) (by decide) []
  | false =>
    obtain ⟨inTree, inLines⟩ := mem_statementLines_of_printed mem kind
    refine functionName?_statementLines (fun name given => ?_) _ inLines
    obtain ⟨parameters, returns, header⟩ := definedName?_eq_some given
    rw [← Prod.eta p.origin, header] at inTree
    exact Script.isIdentifier_of_mem_preorder inTree name rfl

theorem places_ofScript (unit : Nat) (seconds : Int) (source : Text) :
    (declarations (ofScript unit (timestamp seconds) source).text).functions.map
        DeclaredFunction.place =
      places foundName? (printed 0 (nest (effectiveUnit unit) source).nodes) := by
  rw [functions_ofScript]
  refine List.filterMap_congr fun p mem => ?_
  rw [functionName?_printed (List.fst_mem_of_mem_zipIdx mem)]

theorem lineCount_of_named {name? : Statement → Option Text}
    (silent : ∀ content, name? (.simple (.docstring content)) = none) {s : Statement}
    (named : name? s ≠ none) : lineCount s = 1 := by
  unfold lineCount
  split
  · next content => exact absurd (silent content) named
  · rfl

/-- Where names are given to statements with one line only, they come in the order of the script. -/
theorem names_places {name? : Statement → Option Text}
    (silent : ∀ content, name? (.simple (.docstring content)) = none) (ns : List Node) :
    (places name? (printed 0 ns)).map Prod.snd = (preorder ns).filterMap fun s => name? s.2 := by
  have unplaced : (places name? (printed 0 ns)).map Prod.snd =
      (printed 0 ns).filterMap (printedName? name?) := by
    rw [places, List.map_filterMap]
    conv => rhs; rw [← List.zipIdx_map_fst firstLine (printed 0 ns), List.filterMap_map]
    refine List.filterMap_congr fun p _ => ?_
    rw [Option.map_map]
    exact Option.map_id'
  have own : (printed 0 ns).filterMap (printedName? name?) =
      (((printed 0 ns).filter (! ·.closes)).map fun p => (p.origin, p.line.text)).filterMap
        fun q => name? q.1.2 := by
    rw [List.filterMap_map, List.filterMap_filter]
    refine List.filterMap_congr fun p _ => ?_
    unfold printedName?
    cases p.closes <;> rfl
  have each (s : Nat × Statement) : ((statementLines s.2).map fun t => (s, t)).filterMap
      (fun q => name? q.1.2) = (name? s.2).toList := by
    rw [List.filterMap_map]
    cases named : name? s.2 with
    | none => exact List.filterMap_eq_nil_iff.2 fun t _ => named
    | some name =>
      have one := length_statementLines s.2
      rw [lineCount_of_named silent (by simp [named])] at one
      obtain ⟨t, line⟩ := List.length_eq_one_iff.1 one
      rw [line]
      simp [named]
  rw [unplaced, own, statements_printed, List.filterMap_flatMap, List.filterMap_eq_flatMap_toList]
  exact List.flatMap_congr fun s _ => each s

theorem places_eq_iff {name? other? : Statement → Option Text} {ps : List Printed} :
    places name? ps = places other? ps ↔
      ∀ p ∈ ps, printedName? name? p = printedName? other? p := by
  unfold places
  generalize firstLine = k
  induction ps generalizing k with
  | nil => simp
  | cons p ps ih =>
    -- Whatever is found further down stands on a later line.
    have later (f? : Statement → Option Text) : ∀ q ∈ (ps.zipIdx (k + 1)).filterMap (fun p =>
        (printedName? f? p.1).map fun name => (p.2, name)), k < q.1 := by
      intro q mem
      obtain ⟨⟨p', i⟩, inPs, made⟩ := List.mem_filterMap.1 mem
      obtain ⟨name, -, rfl⟩ := Option.map_eq_some_iff.1 made
      exact List.le_snd_of_mem_zipIdx inPs
    have apart {f? : Statement → Option Text} {name : Text} {rest : List (Nat × Text)} :
        (ps.zipIdx (k + 1)).filterMap (fun p =>
          (printedName? f? p.1).map fun name => (p.2, name)) ≠ (k, name) :: rest := by
      intro same
      have here := later f?
      rw [same] at here
      exact Nat.lt_irrefl k (here _ List.mem_cons_self)
    rw [List.zipIdx_cons, List.filterMap_cons, List.filterMap_cons, List.forall_mem_cons,
      ← ih (k + 1)]
    cases printedName? name? p with
    | none =>
      cases printedName? other? p with
      | none => simp
      | some other => simpa using apart
    | some name =>
      cases printedName? other? p with
      | none => simpa using apart.symm
      | some other => simp

theorem exists_printed {ns : List Node} {s : Nat × Statement} {t : Text} (mem : s ∈ preorder ns)
    (line : t ∈ statementLines s.2) :
    ∃ p ∈ printed 0 ns, p.closes = false ∧ p.origin = s := by
  have drafted : (s, t) ∈ (preorder ns).flatMap fun s => (statementLines s.2).map fun t => (s, t) :=
    List.mem_flatMap.2 ⟨s, mem, List.mem_map_of_mem line⟩
  rw [← statements_printed 0] at drafted
  obtain ⟨p, kept, same⟩ := List.mem_map.1 drafted
  obtain ⟨inDraft, own⟩ := List.mem_filter.1 kept
  exact ⟨p, inDraft, by simpa using own, congrArg Prod.fst same⟩

theorem openingLine_mem (h : Header) : openingLine h ∈ statementLines (.header h) :=
  List.mem_singleton_self _

theorem expression_mem (text : Text) : expression text ∈ statementLines (.simple (.raw text)) :=
  List.mem_singleton_self _

/-- What is found for a statement is what it defines, unless it is a function whose header does not
read back, or is copied and looks like one. -/
theorem foundName?_eq_definedName?_iff {s : Statement} :
    foundName? s = definedName? s ↔
      (∀ name parameters returns, s = .header (.function name parameters returns) →
        ReadsBack parameters returns) ∧
      ∀ text, s = .simple (.raw text) → functionName? (chomp (expression text)) = none := by
  cases s with
  | header h =>
    cases h with
    | function name parameters returns =>
      refine ⟨fun same => ⟨?_, nofun⟩, fun h => if_pos (h.1 name parameters returns rfl)⟩
      rintro _ _ _ ⟨⟩
      by_contra hidden
      simp only [foundName?, definedName?, if_neg hidden] at same
      cases same
    | _ => exact iff_of_true rfl ⟨nofun, nofun⟩
  | simple s =>
    cases s with
    | raw text =>
      refine ⟨fun same => ⟨nofun, ?_⟩, fun h => h.2 text rfl⟩
      rintro _ ⟨⟩
      exact same
    | _ => exact iff_of_true rfl ⟨nofun, nofun⟩

/-- Exactly the functions of the script are found, each on its own line, if all their headers read
back and no statement that is copied looks like one. -/
theorem places_found_eq_iff (ns : List Node) :
    places foundName? (printed 0 ns) = places definedName? (printed 0 ns) ↔
      (∀ number name parameters returns,
        (number, .header (.function name parameters returns)) ∈ preorder ns →
          ReadsBack parameters returns) ∧
      ∀ number text, (number, .simple (.raw text)) ∈ preorder ns →
        functionName? (chomp (expression text)) = none := by
  rw [places_eq_iff]
  constructor
  · intro agree
    have statement {s : Nat × Statement} {t : Text} (mem : s ∈ preorder ns)
        (line : t ∈ statementLines s.2) : foundName? s.2 = definedName? s.2 := by
      obtain ⟨p, inDraft, own, rfl⟩ := exists_printed mem line
      have same := agree p inDraft
      simpa [printedName?, own] using same
    refine ⟨fun number name parameters returns mem => ?_, fun number text mem => ?_⟩
    · have same := statement mem (openingLine_mem _)
      exact (foundName?_eq_definedName?_iff.1 same).1 name parameters returns rfl
    · have same := statement mem (expression_mem text)
      exact (foundName?_eq_definedName?_iff.1 same).2 text rfl
  · rintro ⟨functions, raws⟩ p inDraft
    unfold printedName?
    cases own : p.closes with
    | true => rfl
    | false =>
      obtain ⟨mem, -⟩ := mem_statementLines_of_printed inDraft own
      refine foundName?_eq_definedName?_iff.2 ⟨fun name parameters returns is => ?_,
        fun text is => ?_⟩
      · exact functions p.origin.1 name parameters returns (is ▸ mem)
      · exact raws p.origin.1 text (is ▸ mem)

end Draft

namespace Skeleton

open Draft (DeclaredFunction)

theorem length_unitTests (taken : List Text) (fs : List DeclaredFunction) :
    (unitTests taken fs).length = fs.length := by
  induction fs generalizing taken with
  | nil => rfl
  | cons f fs ih => rw [unitTests, List.length_cons, ih, List.length_cons]

theorem kind_unitTests {taken : List Text} {fs : List DeclaredFunction} {t : Test}
    (mem : t ∈ unitTests taken fs) : t.kind = .unit := by
  induction fs generalizing taken with
  | nil => cases mem
  | cons f fs ih =>
    rw [unitTests] at mem
    rcases List.mem_cons.1 mem with rfl | later
    · rfl
    · exact ih later

/-- There is one unit test for each function that is found. -/
theorem length_unit_tests (swift : Text) :
    ((tests swift).filter (·.kind = .unit)).length =
      (Draft.declarations swift).functions.length := by
  have all : (unitTests [] (Draft.declarations swift).functions).filter (·.kind = .unit) =
      unitTests [] (Draft.declarations swift).functions :=
    List.filter_eq_self.2 fun t mem => decide_eq_true (kind_unitTests mem)
  unfold tests testsOf
  rw [List.filter_append, all, List.length_append, length_unitTests]
  split <;> rfl

end Skeleton

namespace Draft

open Script (preorder nest)

theorem names_found (unit : Nat) (seconds : Int) (source : Text) :
    (declarations (ofScript unit (timestamp seconds) source).text).functions.map
        DeclaredFunction.name =
      (preorder (nest (effectiveUnit unit) source).nodes).filterMap fun s => foundName? s.2 := by
  rw [← names_places (fun _ => rfl), ← places_ofScript unit seconds, List.map_map]
  rfl

/-- The functions found in the draft of a script. In order and by name they are those of the script
whose headers read back, and the statements copied into the draft that look like such a header. So
they are the script's functions, each on its own line of the draft, exactly when all headers read
back and no copied statement looks like one; a header does read back if its parameters are quiet.
There is one unit test for each. -/
theorem functions_found (unit : Nat) (seconds : Int) (source : Text) :
    let nodes := (nest (effectiveUnit unit) source).nodes
    let text := (ofScript unit (timestamp seconds) source).text
    let found := (declarations text).functions
    found.map DeclaredFunction.name = (preorder nodes).filterMap (fun s => foundName? s.2) ∧
    (found.map DeclaredFunction.place = places definedName? (printed 0 nodes) ↔
      (∀ number name parameters returns,
        (number, .header (.function name parameters returns)) ∈ preorder nodes →
          ReadsBack parameters returns) ∧
      ∀ number raw, (number, .simple (.raw raw)) ∈ preorder nodes →
        functionName? (chomp (expression raw)) = none) ∧
    (places definedName? (printed 0 nodes)).map Prod.snd =
      (preorder nodes).filterMap (fun s => definedName? s.2) ∧
    ((Skeleton.tests text).filter (·.kind = .unit)).length = found.length ∧
    ∀ parameters returns, (∀ p ∈ parameters, Quiet 0 p.name ∧ ∀ d ∈ p.default, Quiet 0 d) →
      ReadsBack parameters returns := by
  intro nodes text found
  refine ⟨names_found unit seconds source, ?_, names_places (fun _ => rfl) nodes,
    Skeleton.length_unit_tests text, fun _ returns quiet => readsBack_of_quiet quiet returns⟩
  have located : found.map DeclaredFunction.place = places foundName? (printed 0 nodes) :=
    places_ofScript unit seconds source
  rw [located]
  exact places_found_eq_iff nodes

/-- A function whose parameter has an escaped quote as its default value. -/
def escapedDefault : Text := "def f(sep=\"\\\"\"):\n    pass\n".toList

/-- A statement that looks like the header of a Swift function once it is folded. -/
def callOfFunc : Text := "func in (a  # ) \x7b\n)\n".toList

theorem preorder_escapedDefault : preorder (nest 4 escapedDefault).nodes =
    [(1, .header (.function "f".toList [⟨"sep".toList, none, some "\"\\\"\"".toList⟩] none)),
      (2, .simple .pass)] := by
  have split : lines escapedDefault =
      ["def f(sep=\"\\\"\"):".toList, "    pass".toList] := by decide
  rw [Script.preorder_nest, Script.logicalLines, split, Script.logicalLinesFrom_single (by decide),
    Script.logicalLinesFrom_single (by decide), Script.logicalLinesFrom_nil]
  decide

theorem preorder_callOfFunc : preorder (nest 4 callOfFunc).nodes =
    [(1, .simple (.raw "func in (a  # ) \x7b )".toList))] := by
  have split : lines callOfFunc = "func in (a  # ) \x7b".toList :: ([")".toList] ++ []) := by decide
  rw [Script.preorder_nest, Script.logicalLines, split, Script.logicalLinesFrom_cons (by decide),
    Script.logicalLinesFrom_nil]
  decide

/-- The scan takes the escaped quote for the end of the literal and misses the function; and it
takes a comparison with a comment in it for a function. -/
theorem escaped_quote_hides_function :
    ((preorder (nest 4 escapedDefault).nodes).filterMap (fun s => definedName? s.2) = ["f".toList] ∧
      (declarations (ofScript 4 (timestamp 0) escapedDefault).text).functions.map
        DeclaredFunction.name = []) ∧
    ((preorder (nest 4 callOfFunc).nodes).filterMap (fun s => definedName? s.2) = [] ∧
      (declarations (ofScript 4 (timestamp 0) callOfFunc).text).functions.map
        DeclaredFunction.name = ["in".toList]) := by
  rw [names_found, names_found, show effectiveUnit 4 = 4 from rfl, preorder_escapedDefault,
    preorder_callOfFunc]
  decide

end Draft

end SwiftDraft
