import SwiftDraft.Proofs.Found
import SwiftDraft.Proofs.Scopes

/-!
# The owners of functions

The owner of a function that is found in the draft of a script is the nearest type declared on a
line around its own. The classes among these lines are the classes around the function in the
script, whatever other blocks there are between them (`allEnclosed_located`); a statement that is
copied into the draft can be among them too. So a function has the innermost class around it as its
owner, unless a copied statement looks like a type, even where it is local to another function
(`owners_found`).
-/

namespace SwiftDraft.Draft

open Text
open Script (Header Simple Statement Node preorder nest forest_induction)

/-- Whether the lines of a statement are printed as code; blank lines and comments are not. -/
def isHeard : Statement → Bool
  | .header h => isBraced (.header h)
  | .simple (.returning _) | .simple (.assign _ _ _) | .simple (.printing _) => true
  | .simple (.raw text) => !declaresNothing (chomp (expression text))
  | .simple _ => false

/-- The class that a statement defines. -/
def className? : Statement → Option Text
  | .header (.classType name) => some name
  | _ => none

theorem className?_eq_some {s : Statement} {name : Text} (h : className? s = some name) :
    s = .header (.classType name) := by
  unfold className? at h
  split at h
  · cases h
    rfl
  · cases h

/-- The type that a statement looks like in the draft if it is copied there. -/
def copiedType? : Statement → Option Text
  | .simple (.raw text) => declaredType? (chomp (expression text))
  | _ => none

/-- The type that a scan finds on the lines of a statement. -/
def typeName? (s : Statement) : Option Text := (className? s).or (copiedType? s)

section

variable {c : Char} {r : Text}

theorem declaresNothing_slashes (r : Text) : declaresNothing (chomp ('/' :: '/' :: r)) = true := by
  obtain ⟨r', start⟩ := exists_chomp_cons (show isBlank '/' = false by decide) ['/'] r
  rw [show '/' :: '/' :: r = ['/'] ++ '/' :: r from rfl, start]
  rfl

theorem declaresNothing_of_head (visible : isBlank c = false) (other : c ≠ '/') (r : Text) :
    declaresNothing (chomp (c :: r)) = false := by
  obtain ⟨r', start⟩ := exists_chomp_cons visible [] r
  rw [List.nil_append, List.nil_append] at start
  rw [start, declaresNothing, trimStart_cons_of_not_blank visible]
  simp [startsWith, List.isPrefixOf, Ne.symm other]

theorem isHeard_statementLines {s : Statement} :
    ∀ l ∈ statementLines s, declaresNothing (chomp l) = !isHeard s := by
  have only {t : Text} {heard : Bool} (h : declaresNothing (chomp t) = !heard) :
      ∀ l ∈ [t], declaresNothing (chomp l) = !heard := List.forall_mem_singleton.2 h
  cases s with
  | header h =>
    cases h with
    | unsupported header => exact only (declaresNothing_slashes _)
    | _ => exact only (declaresNothing_of_head (by decide) (by decide) _)
  | simple s =>
    cases s with
    | blank => exact only rfl
    | pass | comment text | importing text => exact only (declaresNothing_slashes _)
    | docstring content =>
      intro l mem
      obtain ⟨t, -, rfl⟩ := List.mem_map.1 mem
      unfold docstringLine
      split <;> exact declaresNothing_slashes _
    | returning value =>
      cases value <;> exact only (declaresNothing_of_head (by decide) (by decide) _)
    | assign target hint value | printing arguments =>
      exact only (declaresNothing_of_head (by decide) (by decide) _)
    | raw text => exact only (Bool.not_not _).symm

theorem declaredType?_of_head (visible : isBlank c = false)
    (other : c ≠ 'f' ∧ c ≠ 'c' ∧ c ≠ 's') (r : Text) : declaredType? (c :: r) = none := by
  rw [declaredType?, trimStart_cons_of_not_blank visible]
  simp [after?, List.isPrefixOf?, Ne.symm other.1, Ne.symm other.2.1, Ne.symm other.2.2]

theorem declaredType?_chomp_of_head (visible : isBlank c = false)
    (other : c ≠ 'f' ∧ c ≠ 'c' ∧ c ≠ 's') (r : Text) : declaredType? (chomp (c :: r)) = none := by
  obtain ⟨r', start⟩ := exists_chomp_cons visible [] r
  rw [List.nil_append, List.nil_append] at start
  rw [start]
  exact declaredType?_of_head visible other r'

theorem declaredType?_classHeader {name : Text} (identifier : IsIdentifier name) :
    declaredType? (chomp (openingLine (.classType name))) = some name := by
  have whole : chomp (openingLine (.classType name)) =
      'c' :: 'l' :: 'a' :: 's' :: 's' :: ' ' :: (name ++ " \x7b".toList) := by
    change chomp (("class ".toList ++ name) ++ " \x7b".toList) = _
    rw [chomp_append _ (by decide)]
    rfl
  have start : trimStart ('c' :: 'l' :: 'a' :: 's' :: 's' :: ' ' :: (name ++ " \x7b".toList)) =
      'c' :: 'l' :: 'a' :: 's' :: 's' :: ' ' :: (name ++ " \x7b".toList) :=
    trimStart_cons_of_not_blank (by decide) _
  have noFinal : after? "final" ('c' :: 'l' :: 'a' :: 's' :: 's' :: ' ' ::
      (name ++ " \x7b".toList)) = none := rfl
  have keyword : after? "class" ('c' :: 'l' :: 'a' :: 's' :: 's' :: ' ' ::
      (name ++ " \x7b".toList)) = some (' ' :: (name ++ " \x7b".toList)) :=
    after?_eq_some_iff.2 rfl
  have atEnd : atWordEnd " \x7b".toList := by decide
  rw [whole, declaredType?, start, noFinal]
  simp only [keyword, afterGap?_identifier identifier, identifier?_append identifier atEnd,
    Option.bind_none, Option.getD_none, Option.orElse_eq_orElse, Option.orElse_eq_or,
    Option.some_or, Option.bind_eq_bind, Option.bind_some]
  rfl

theorem declaredType?_statementLines {s : Statement}
    (identifier : ∀ name ∈ className? s, IsIdentifier name) (heard : isHeard s) :
    ∀ l ∈ statementLines s, declaredType? (chomp l) = typeName? s := by
  have only {t : Text} {type : Option Text} (h : declaredType? (chomp t) = type) :
      ∀ l ∈ [t], declaredType? (chomp l) = type := List.forall_mem_singleton.2 h
  cases s with
  | header h =>
    cases h with
    | function name parameters returns =>
      obtain ⟨rest, line⟩ : ∃ rest, openingLine (.function name parameters returns) =
        ['f', 'u', 'n'] ++ 'c' :: rest := ⟨_, rfl⟩
      obtain ⟨r, start⟩ := exists_chomp_cons (show isBlank 'c' = false by decide)
        ['f', 'u', 'n'] rest
      refine only ((declares_of_func (r := r) ?_).2.trans rfl)
      rw [line, start]
      exact trimStart_cons_of_not_blank (by decide) _
    | classType name => exact only (declaredType?_classHeader (identifier name rfl))
    | loop target items =>
      -- Here the second character tells the line from a type.
      obtain ⟨rest, line⟩ : ∃ rest, openingLine (.loop target items) = ['f'] ++ 'o' :: rest :=
        ⟨_, rfl⟩
      obtain ⟨r, start⟩ := exists_chomp_cons (show isBlank 'o' = false by decide) ['f'] rest
      refine only ?_
      rw [line, start]
      rfl
    | unsupported header => cases heard
    | _ => exact only (declaredType?_chomp_of_head (by decide) (by decide) _)
  | simple s =>
    cases s with
    | returning value =>
      cases value <;> exact only (declaredType?_chomp_of_head (by decide) (by decide) _)
    | assign target hint value | printing arguments =>
      exact only (declaredType?_chomp_of_head (by decide) (by decide) _)
    | raw text => exact only rfl
    | _ => cases heard

theorem visible_statementLines {s : Statement} (heard : isHeard s) :
    ∀ l ∈ statementLines s, ∀ c ∈ l.head?, isBlank c = false := by
  have only {c : Char} {r : Text} (visible : isBlank c = false) :
      ∀ l ∈ [c :: r], ∀ c ∈ l.head?, isBlank c = false := by
    refine List.forall_mem_singleton.2 ?_
    rintro _ ⟨⟩
    exact visible
  cases s with
  | header h =>
    cases h with
    | unsupported header => cases heard
    | _ => exact only (by decide)
  | simple s =>
    cases s with
    | returning value => cases value <;> exact only (by decide)
    | assign target hint value | printing arguments => exact only (by decide)
    | raw text => exact List.forall_mem_singleton.2 (visible_expression text)
    | _ => cases heard

end

/-- Whether a line is printed as code; a closing brace is. -/
def Printed.isHeard (p : Printed) : Bool := p.closes || Draft.isHeard p.origin.2

/-- The lines around a line at a depth, from the lines above it, nearest first. -/
def printedAround (depth : Nat) : List Printed → List Printed
  | [] => []
  | p :: above =>
    if p.isHeard ∧ p.line.depth < depth then p :: printedAround p.line.depth above
    else printedAround depth above

/-- What a scan makes of a printed line. -/
structure ReadAs (unit : Nat) (p : Printed) (line : Text) : Prop where
  heard : declaresNothing line = !p.isHeard
  indent : p.isHeard → lineIndent line = p.line.depth * unit
  type : p.isHeard → declaredType? line = printedName? typeName? p

section

variable {unit depth : Nat} {p : Printed} {i : Text}

theorem declaresNothing_blanks_append (blanks : ∀ c ∈ i, isBlank c) (s : Text) :
    declaresNothing (i ++ s) = declaresNothing s := by
  unfold declaresNothing
  rw [trimStart_of_blanks blanks]

theorem declaredType?_blanks_append (blanks : ∀ c ∈ i, isBlank c) (s : Text) :
    declaredType? (i ++ s) = declaredType? s := by
  unfold declaredType?
  rw [trimStart_of_blanks blanks]

theorem lineIndent_blanks_cons (blanks : ∀ c ∈ i, isBlank c) {c : Char} (visible : isBlank c = false)
    (r : Text) : lineIndent (i ++ c :: r) = i.length := by
  rw [lineIndent, List.takeWhile_append_of_pos blanks,
    List.takeWhile_cons_of_neg (by simp [visible]), List.append_nil]

/-- The text of a printed line by itself, before it is indented. -/
theorem read_text {source : Text} (mem : p ∈ printed 0 (nest unit source).nodes) :
    declaresNothing (chomp p.line.text) = (!p.isHeard) ∧
      (p.isHeard → declaredType? (chomp p.line.text) = printedName? typeName? p ∧
        ∀ c ∈ p.line.text.head?, isBlank c = false) := by
  unfold Printed.isHeard printedName?
  cases kind : p.closes with
  | true =>
    rw [braces_printed mem kind]
    have visible : isBlank '\x7d' = false := by decide
    refine ⟨declaresNothing_of_head visible (by decide) [], fun _ =>
      ⟨declaredType?_chomp_of_head visible (by decide) [], ?_⟩⟩
    rintro c ⟨⟩
    exact visible
  | false =>
    obtain ⟨inTree, inLines⟩ := mem_statementLines_of_printed mem kind
    refine ⟨isHeard_statementLines _ inLines, fun heard => ⟨?_, ?_⟩⟩
    · refine declaredType?_statementLines (fun name given => ?_) heard _ inLines
      have header := className?_eq_some given
      rw [← Prod.eta p.origin, header] at inTree
      exact Script.isIdentifier_of_mem_preorder inTree name rfl
    · exact visible_statementLines heard _ inLines

theorem readAs_shown {source : Text} (mem : p ∈ printed 0 (nest unit source).nodes) (width : Nat) :
    ReadAs width p (chomp (p.line.shown width)) := by
  obtain ⟨silent, loud⟩ := read_text mem
  cases text : p.line.text with
  | nil =>
    have hushed : p.isHeard = false := by
      rw [text] at silent
      have said : true = !p.isHeard := silent
      simpa using said.symm
    have nothing : chomp (p.line.shown width) = [] := by
      rw [Line.shown, if_pos text]
      rfl
    rw [nothing]
    exact ⟨by rw [hushed]; rfl, by simp [hushed], by simp [hushed]⟩
  | cons c r =>
    have spaces : ∀ c ∈ List.replicate (p.line.depth * width) ' ', isBlank c := by
      intro c mem
      rw [List.eq_of_mem_replicate mem]
      decide
    have line : chomp (p.line.shown width) =
        List.replicate (p.line.depth * width) ' ' ++ chomp p.line.text := by
      rw [Line.shown, if_neg (by simp [text]), chomp_append _ (by simp [text])]
    rw [line]
    refine ⟨(declaresNothing_blanks_append spaces _).trans silent, fun heard => ?_, fun heard => ?_⟩
    · obtain ⟨r', start⟩ := exists_chomp_cons ((loud heard).2 c (by rw [text]; rfl)) [] r
      rw [List.nil_append, List.nil_append] at start
      rw [text, start, lineIndent_blanks_cons spaces ((loud heard).2 c (by rw [text]; rfl)),
        List.length_replicate]
    · rw [declaredType?_blanks_append spaces, (loud heard).1]

/-- Where lines are read as they are printed, the types around a line are those of the printed lines
around it; further up there are none. -/
theorem findSome?_linesAround (positive : 0 < unit) {f : Printed → Text} {above : List Printed}
    (each : ∀ p ∈ above, ReadAs unit p (f p)) {top : List Text}
    (untyped : ∀ l ∈ top, declaredType? l = none) (depth : Nat) :
    (linesAround (depth * unit) (above.map f ++ top)).findSome? declaredType? =
      (printedAround depth above).findSome? (printedName? typeName?) := by
  induction above generalizing depth with
  | nil =>
    rw [List.map_nil, List.nil_append, printedAround, List.findSome?_nil]
    exact List.findSome?_eq_none_iff.2 fun l mem => untyped l (linesAround_subset _ _ mem)
  | cons p above ih =>
    obtain ⟨first, rest⟩ := List.forall_mem_cons.1 each
    rw [List.map_cons, List.cons_append, linesAround, printedAround, first.heard]
    cases heard : p.isHeard with
    | false => simpa using ih rest depth
    | true =>
      rw [first.indent heard]
      simp only [Bool.not_true, true_and, Nat.mul_lt_mul_right positive]
      by_cases deeper : p.line.depth < depth
      · rw [if_pos deeper, if_pos deeper, List.findSome?_cons, List.findSome?_cons,
          first.type heard, ih rest]
      · rw [if_neg deeper, if_neg deeper, ih rest]

end

mutual

def locatedNode (depth : Nat) (blocks : List Header) : Node → List (Printed × List Header)
  | .leaf number s =>
    (simpleLines s).map fun t => (⟨⟨depth, t⟩, (number, .simple s), false⟩, blocks)
  | .block number h body =>
    (opening depth number h, blocks) :: located (depth + 1) (h :: blocks) body ++
      if isBraced (.header h) then [(closing depth number h, blocks)] else []

/-- The lines of nodes at a depth, each with the blocks it stands in, innermost first. -/
def located (depth : Nat) (blocks : List Header) : List Node → List (Printed × List Header)
  | [] => []
  | n :: ns => locatedNode depth blocks n ++ located depth blocks ns

end

section

variable {depth number : Nat} {s : Simple} {h : Header} {blocks : List Header}
  {body ns : List Node} {above lines : List Printed} {p : Printed}

theorem located_leaf : located depth blocks (.leaf number s :: ns) =
    (simpleLines s).map (fun t => (⟨⟨depth, t⟩, (number, .simple s), false⟩, blocks)) ++
      located depth blocks ns := rfl

theorem located_block : located depth blocks (.block number h body :: ns) =
    (opening depth number h, blocks) :: (located (depth + 1) (h :: blocks) body ++
      ((if isBraced (.header h) then [(closing depth number h, blocks)] else []) ++
        located depth blocks ns)) := by
  simp [located, locatedNode]

theorem map_fst_located (depth : Nat) (blocks : List Header) (ns : List Node) :
    (located depth blocks ns).map Prod.fst = printed depth ns := by
  induction ns using forest_induction generalizing depth blocks with
  | nil => rfl
  | leaf number s ns ih =>
    rw [located_leaf, printed_leaf, List.map_append, List.map_map, ih]
    rfl
  | block number h body ns ihBody ih =>
    rw [located_block, printed_block, List.map_cons, List.map_append, List.map_append, ihBody, ih]
    cases isBraced (.header h) <;> rfl

/-- Lines that are at least as deep are not around a line. -/
theorem printedAround_append (deep : ∀ p ∈ lines, depth ≤ p.line.depth) (above : List Printed) :
    printedAround depth (lines ++ above) = printedAround depth above := by
  induction lines with
  | nil => rfl
  | cons p lines ih =>
    obtain ⟨first, rest⟩ := List.forall_mem_cons.1 deep
    rw [List.cons_append, printedAround, if_neg (by omega), ih rest]

/-- The lines of a block are not around a line behind it. -/
theorem printedAround_block (deep : ∀ p ∈ lines, depth ≤ p.line.depth) (number : Nat) (h : Header)
    (above : List Printed) : printedAround depth (lines ++ opening depth number h :: above) =
      printedAround depth above := by
  rw [printedAround_append deep, printedAround, if_neg]
  exact fun less => Nat.lt_irrefl depth less.2

/-- The classes among blocks. -/
def classes (blocks : List Header) : List Text := blocks.filterMap fun h => className? (.header h)

/-- The classes on the lines around a line at a depth. -/
def classesAround (depth : Nat) (above : List Printed) : List Text :=
  (printedAround depth above).filterMap (printedName? className?)

/-- From `depth` on, the classes around a further line are those among the blocks. -/
def Encloses (depth : Nat) (blocks : List Header) (above : List Printed) : Prop :=
  ∀ d, depth ≤ d → classesAround d above = classes blocks

theorem Encloses.cons (inv : Encloses depth blocks above) (level : p.line.depth = depth)
    (noClass : printedName? className? p = none) : Encloses depth blocks (p :: above) := by
  intro d deeper
  rw [classesAround, printedAround]
  split
  · rw [List.filterMap_cons, noClass, level]
    exact inv depth (Nat.le_refl depth)
  · exact inv d deeper

theorem className?_of_not_braced (bare : isBraced (.header h) = false) :
    className? (.header h) = none := by
  cases h with
  | unsupported header => rfl
  | _ => cases bare

/-- The line that opens a block is around the lines of its body, unless it is only a comment. -/
theorem Encloses.opening (inv : Encloses depth blocks above) (number : Nat) (h : Header) :
    Encloses (depth + 1) (h :: blocks) (Draft.opening depth number h :: above) := by
  intro d deeper
  cases braced : isBraced (.header h) with
  | true =>
    rw [classesAround, printedAround, if_pos ⟨braced, deeper⟩, List.filterMap_cons, classes,
      List.filterMap_cons]
    have own : printedName? className? (Draft.opening depth number h) = className? (.header h) := rfl
    rw [own]
    cases className? (.header h) with
    | none => exact inv depth (Nat.le_refl depth)
    | some name => exact congrArg (name :: ·) (inv depth (Nat.le_refl depth))
  | false =>
    have silent : (Draft.opening depth number h).isHeard = false := braced
    rw [classesAround, printedAround, silent, if_neg (by simp), classes, List.filterMap_cons,
      className?_of_not_braced braced]
    exact inv d (by omega)

/-- Behind a block, the classes around a further line are those that were around the block. -/
theorem Encloses.closed (inv : Encloses depth blocks above)
    (inner : Encloses (depth + 1) (h :: blocks) (lines ++ Draft.opening depth number h :: above))
    (deep : ∀ p ∈ lines, depth ≤ p.line.depth) :
    Encloses depth blocks ((if isBraced (.header h) then [closing depth number h] else []) ++
      (lines ++ Draft.opening depth number h :: above)) := by
  have outer : classesAround depth (lines ++ Draft.opening depth number h :: above) =
      classes blocks := by
    rw [classesAround, printedAround_block deep]
    exact inv depth (Nat.le_refl depth)
  intro d deeper
  cases braced : isBraced (.header h) with
  | true =>
    rcases Nat.eq_or_lt_of_le deeper with rfl | less
    · rw [if_pos rfl, List.singleton_append, classesAround, printedAround,
        if_neg (fun less => Nat.lt_irrefl depth less.2)]
      exact outer
    · rw [if_pos rfl, List.singleton_append, classesAround, printedAround, if_pos ⟨rfl, less⟩]
      exact outer
  | false =>
    rw [if_neg (by simp), List.nil_append]
    rcases Nat.eq_or_lt_of_le deeper with rfl | less
    · exact outer
    · rw [inner d less, classes, List.filterMap_cons, className?_of_not_braced braced]
      rfl

/-- At each of the lines, the classes around it are those among its blocks. -/
def AllEnclosed (above : List Printed) : List (Printed × List Header) → Prop
  | [] => True
  | l :: later =>
    classesAround l.1.line.depth above = classes l.2 ∧ AllEnclosed (l.1 :: above) later

theorem allEnclosed_append {xs ys : List (Printed × List Header)} :
    AllEnclosed above (xs ++ ys) ↔
      AllEnclosed above xs ∧ AllEnclosed ((xs.map Prod.fst).reverse ++ above) ys := by
  induction xs generalizing above with
  | nil => simp [AllEnclosed]
  | cons x xs ih => simp [AllEnclosed, ih, and_assoc]

theorem allEnclosed_simpleLines (inv : Encloses depth blocks above) (number : Nat) (s : Simple)
    (ts : List Text) :
    AllEnclosed above (ts.map fun t => (⟨⟨depth, t⟩, (number, .simple s), false⟩, blocks)) ∧
      Encloses depth blocks
        ((ts.map fun t => (⟨⟨depth, t⟩, (number, .simple s), false⟩ : Printed)).reverse ++ above) := by
  induction ts generalizing above with
  | nil => exact ⟨trivial, inv⟩
  | cons t ts ih =>
    obtain ⟨each, done⟩ := ih (inv.cons (p := ⟨⟨depth, t⟩, (number, .simple s), false⟩) rfl rfl)
    exact ⟨⟨inv depth (Nat.le_refl depth), each⟩, by simpa using done⟩

/-- One node after the other: around each line of it, and around what comes behind it. -/
theorem allEnclosed_located (ns : List Node) (inv : Encloses depth blocks above) :
    AllEnclosed above (located depth blocks ns) ∧
      Encloses depth blocks ((printed depth ns).reverse ++ above) := by
  induction ns using forest_induction generalizing depth blocks above with
  | nil => exact ⟨trivial, inv⟩
  | leaf number s ns ih =>
    obtain ⟨own, inv⟩ := allEnclosed_simpleLines inv number s (simpleLines s)
    obtain ⟨later, done⟩ := ih inv
    refine ⟨?_, ?_⟩
    · rw [located_leaf, allEnclosed_append, List.map_map]
      exact ⟨own, later⟩
    · rw [printed_leaf, List.reverse_append, List.append_assoc]
      exact done
  | block number h body ns ihBody ih =>
    have deep : ∀ p ∈ (printed (depth + 1) body).reverse, depth ≤ p.line.depth := fun p mem =>
      Nat.le_of_succ_le (le_depth_of_mem_printed (List.mem_reverse.1 mem))
    obtain ⟨inside, inner⟩ := ihBody (inv.opening number h)
    obtain ⟨later, done⟩ := ih (inv.closed inner deep)
    refine ⟨?_, ?_⟩
    · rw [located_block, AllEnclosed, allEnclosed_append, allEnclosed_append, map_fst_located]
      refine ⟨inv depth (Nat.le_refl depth), inside, ?_, ?_⟩
      · split
        · refine ⟨?_, trivial⟩
          exact (congrArg (List.filterMap _) (printedAround_block deep number h above)).trans
            (inv depth (Nat.le_refl depth))
        · trivial
      · cases braced : isBraced (.header h) <;> simpa [braced] using later
    · rw [printed_block]
      cases braced : isBraced (.header h) <;> simpa [braced] using done

end

/-- The class that a function is a method of: that of the nearest class or function around it, if
that is a class. -/
def methodOwner? (blocks : List Header) : Option Text :=
  (blocks.find? fun h => h.name?.isSome).bind fun h => className? (.header h)

/-- The innermost class is the one that a function is a method of, unless the function is local to
another one inside of a class. -/
theorem head?_classes_eq_iff (blocks : List Header) :
    (classes blocks).head? = methodOwner? blocks ↔
      (methodOwner? blocks = none → classes blocks = []) := by
  induction blocks with
  | nil => exact iff_of_true rfl fun _ => rfl
  | cons h blocks ih =>
    cases h with
    | function name parameters returns =>
      have none : methodOwner? (.function name parameters returns :: blocks) = none := rfl
      rw [none, List.head?_eq_none_iff]
      exact ⟨fun empty _ => empty, fun empty => empty rfl⟩
    | classType name => exact iff_of_true rfl nofun
    | _ => exact ih

/-- The lines around the line behind some others. -/
def linesOver (before : List (Printed × List Header)) (p : Printed) : List Printed :=
  printedAround p.line.depth (before.map Prod.fst).reverse

/-- Where a function that is found stands, and what its owner is: the nearest type that a line around
it looks like. The classes among these lines are the classes around it in the script; so if no
copied statement among them looks like a type, the owner is the innermost class, which is the one
that the function is a method of, unless it is local to a function inside of a class. -/
structure FoundAt (nodes : List Node) (f : DeclaredFunction)
    (before : List (Printed × List Header)) (p : Printed) (blocks : List Header)
    (after : List (Printed × List Header)) : Prop where
  place : located 0 [] nodes = before ++ (p, blocks) :: after
  line : f.line = firstLine + before.length
  name : printedName? foundName? p = some f.name
  owner : f.owner = (linesOver before p).findSome? (printedName? typeName?)
  around : (linesOver before p).filterMap (printedName? className?) = classes blocks
  uncopied : (∀ q ∈ linesOver before p, printedName? copiedType? q = none) →
    f.owner = (classes blocks).head? ∧
      (f.owner = methodOwner? blocks ↔ (methodOwner? blocks = none → classes blocks = []))

theorem declaredType?_header (seconds : Int) :
    ∀ l ∈ lines (header (timestamp seconds)), declaredType? l = none := by
  rw [lines_header]
  refine List.forall_mem_cons.2 ⟨?_, by decide⟩
  exact declaredType?_of_head (by decide) (by decide) _

/-- A line of a list that does not stand in its first part. -/
theorem exists_of_append_map_eq {α : Type} {f : α → Text} {top above below : List Text} {line : Text}
    {items : List α} (whole : top ++ items.map f = above ++ line :: below) (apart : line ∉ top) :
    ∃ before item after, items = before ++ item :: after ∧ above = top ++ before.map f ∧
      line = f item := by
  rcases List.append_eq_append_iff.1 whole with ⟨front, rfl, rest⟩ | ⟨front, split, rest⟩
  · obtain ⟨before, tail, rfl, rfl, made⟩ := List.map_eq_append_iff.1 rest
    obtain ⟨item, after, rfl, rfl, -⟩ := List.map_eq_cons_iff.1 made
    exact ⟨before, item, after, rfl, rfl, rfl⟩
  · cases front with
    | nil =>
      obtain ⟨item, after, rfl, same, -⟩ := List.map_eq_cons_iff.1 rest.symm
      exact ⟨[], item, after, rfl, by simpa using split.symm, same.symm⟩
    | cons first front =>
      rw [(List.cons.inj rest).1, split] at apart
      exact absurd (List.mem_append_right above List.mem_cons_self) apart

theorem printedName?_typeName? (p : Printed) :
    printedName? typeName? p = (printedName? className? p).or (printedName? copiedType? p) := by
  unfold printedName? typeName?
  cases p.closes <;> rfl

theorem findSome?_typeName? {ps : List Printed}
    (uncopied : ∀ q ∈ ps, printedName? copiedType? q = none) :
    ps.findSome? (printedName? typeName?) = (ps.filterMap (printedName? className?)).head? := by
  have same : ∀ q ∈ ps, printedName? typeName? q = printedName? className? q := by
    intro q mem
    rw [printedName?_typeName?, uncopied q mem, Option.or_none]
  rw [← List.head?_filterMap, List.filterMap_congr same]

/-- The classes on the lines around a line of a draft are those among the blocks it stands in. -/
theorem filterMap_linesOver {nodes : List Node} {before after : List (Printed × List Header)}
    {p : Printed} {blocks : List Header}
    (place : located 0 [] nodes = before ++ (p, blocks) :: after) :
    (linesOver before p).filterMap (printedName? className?) = classes blocks := by
  have start : Encloses 0 [] [] := fun _ _ => rfl
  have all := (allEnclosed_located nodes start).1
  rw [place, allEnclosed_append] at all
  have here := all.2.1
  rwa [List.append_nil] at here

section

variable {unit : Nat} {seconds : Int} {source : Text} {f : DeclaredFunction}

/-- A function that is found, by the line of the draft it is found on and the lines above that. -/
theorem exists_located_of_found
    (mem : f ∈ (declarations (ofScript unit (timestamp seconds) source).text).functions) :
    ∃ before p blocks after,
      located 0 [] (nest (effectiveUnit unit) source).nodes = before ++ (p, blocks) :: after ∧
      f.line = firstLine + before.length ∧
      functionName? (chomp (p.line.shown (effectiveUnit unit))) = some f.name ∧
      f.owner = (linesAround (lineIndent (chomp (p.line.shown (effectiveUnit unit))))
        ((before.map Prod.fst).reverse.map (fun p => chomp (p.line.shown (effectiveUnit unit))) ++
          (lines (header (timestamp seconds))).reverse)).findSome? declaredType? := by
  obtain ⟨above, line, below, whole, number, name, owner⟩ := exists_of_mem_declarations mem
  have apart : line ∉ lines (header (timestamp seconds)) := by
    intro inHeader
    rw [functionName?_header seconds line inHeader] at name
    cases name
  rw [lines_ofScript, ← map_fst_located 0 [], List.map_map] at whole
  obtain ⟨before, ⟨p, blocks⟩, after, split, rfl, rfl⟩ := exists_of_append_map_eq whole apart
  refine ⟨before, p, blocks, after, split, ?_, name, ?_⟩
  · rw [number, List.length_append, List.length_map, lines_header, firstLine]
    simp only [List.length_cons, List.length_nil]
    omega
  · rw [owner, List.reverse_append, ← List.map_map, List.map_reverse]
    rfl

/-- Above the header of a function, the types around it are those of the printed lines around it. -/
theorem findSome?_linesAround_shown {above below : List Printed} {p : Printed} {name : Text}
    (drafted : printed 0 (nest (effectiveUnit unit) source).nodes = above ++ p :: below)
    (found : functionName? (chomp (p.line.shown (effectiveUnit unit))) = some name) :
    (linesAround (lineIndent (chomp (p.line.shown (effectiveUnit unit))))
      (above.reverse.map (fun p => chomp (p.line.shown (effectiveUnit unit))) ++
        (lines (header (timestamp seconds))).reverse)).findSome? declaredType? =
      (printedAround p.line.depth above.reverse).findSome? (printedName? typeName?) := by
  have read {q : Printed} (inDraft : q ∈ above ++ p :: below) :
      ReadAs (effectiveUnit unit) q (chomp (q.line.shown (effectiveUnit unit))) :=
    readAs_shown (drafted ▸ inDraft) _
  have own := read (List.mem_append_right _ List.mem_cons_self)
  have heard : p.isHeard := by
    have loud : declaresNothing (chomp (p.line.shown (effectiveUnit unit))) = false :=
      declaresNothing_of_functionName? found
    simpa [own.heard] using loud
  have positive : 0 < effectiveUnit unit := Nat.lt_of_lt_of_le Nat.one_pos (Nat.le_max_right _ _)
  rw [own.indent heard]
  refine findSome?_linesAround positive (fun q mem => ?_) (fun l mem => ?_) _
  · exact read (List.mem_append_left _ (List.mem_reverse.1 mem))
  · exact declaredType?_header seconds l (List.mem_reverse.1 mem)

end

/-- The functions found in the draft of a script stand on the lines of their headers and have the
nearest type on a line around them as their owner. -/
theorem owners_found (unit : Nat) (seconds : Int) (source : Text) :
    ∀ f ∈ (declarations (ofScript unit (timestamp seconds) source).text).functions,
      ∃ before p blocks after,
        FoundAt (nest (effectiveUnit unit) source).nodes f before p blocks after := by
  intro f mem
  obtain ⟨before, p, blocks, after, place, line, name, owner⟩ := exists_located_of_found mem
  have drafted : printed 0 (nest (effectiveUnit unit) source).nodes =
      before.map Prod.fst ++ p :: after.map Prod.fst := by
    rw [← map_fst_located 0 [], place, List.map_append, List.map_cons]
  have found : printedName? foundName? p = some f.name := by
    rw [← functionName?_printed (drafted ▸ List.mem_append_right _ List.mem_cons_self),
      ← functionName?_shown (effectiveUnit unit)]
    exact name
  have nearest : f.owner = (linesOver before p).findSome? (printedName? typeName?) :=
    owner.trans (findSome?_linesAround_shown drafted name)
  have around := filterMap_linesOver place
  refine ⟨before, p, blocks, after, place, line, found, nearest, around, fun uncopied => ?_⟩
  have innermost : f.owner = (classes blocks).head? := by
    rw [nearest, findSome?_typeName? uncopied, around]
  exact ⟨innermost, innermost ▸ head?_classes_eq_iff blocks⟩

/-- A function that is local to a method. -/
def localFunction : Text :=
  "class C:\n    def f(self):\n        def g():\n            pass\n".toList

/-- A class on one line, which is copied, in front of a block that is only commented. -/
def copiedClass : Text := "class X: pass\ntry:\n    def f():\n        pass\n".toList

theorem nodes_localFunction : (nest 4 localFunction).nodes =
    [.block 1 (.classType "C".toList) [.block 2 (.function "f".toList [] none)
      [.block 3 (.function "g".toList [] none) [.leaf 4 .pass]]]] := by
  have split : lines localFunction = ["class C:".toList, "    def f(self):".toList,
      "        def g():".toList, "            pass".toList] := by decide
  have read : Script.logicalLines 4 localFunction =
      [⟨1, 1, some 0, .header (.classType "C".toList)⟩,
        ⟨2, 1, some 4, .header (.function "f".toList [] none)⟩,
        ⟨3, 1, some 8, .header (.function "g".toList [] none)⟩, ⟨4, 1, some 12, .simple .pass⟩] := by
    rw [Script.logicalLines, split, Script.logicalLinesFrom_single (by decide),
      Script.logicalLinesFrom_single (by decide), Script.logicalLinesFrom_single (by decide),
      Script.logicalLinesFrom_single (by decide), Script.logicalLinesFrom_nil]
    decide
  rw [nest, read]
  rfl

theorem nodes_copiedClass : (nest 4 copiedClass).nodes =
    [.leaf 1 (.raw "class X: pass".toList), .block 2 (.unsupported "try:".toList)
      [.block 3 (.function "f".toList [] none) [.leaf 4 .pass]]] := by
  have split : lines copiedClass = ["class X: pass".toList, "try:".toList, "    def f():".toList,
      "        pass".toList] := by decide
  have read : Script.logicalLines 4 copiedClass =
      [⟨1, 1, some 0, .simple (.raw "class X: pass".toList)⟩,
        ⟨2, 1, some 0, .header (.unsupported "try:".toList)⟩,
        ⟨3, 1, some 4, .header (.function "f".toList [] none)⟩, ⟨4, 1, some 8, .simple .pass⟩] := by
    rw [Script.logicalLines, split, Script.logicalLinesFrom_single (by decide),
      Script.logicalLinesFrom_single (by decide), Script.logicalLinesFrom_single (by decide),
      Script.logicalLinesFrom_single (by decide), Script.logicalLinesFrom_nil]
    decide
  rw [nest, read]
  rfl

theorem functions_localFunction :
    (declarations (ofScript 4 (timestamp 0) localFunction).text).functions =
      [⟨"f".toList, [], none, some "C".toList, 7⟩, ⟨"g".toList, [], none, some "C".toList, 8⟩] := by
  rw [ofScript, show effectiveUnit 4 = 4 from rfl, nodes_localFunction]
  decide +kernel

theorem functions_copiedClass :
    (declarations (ofScript 4 (timestamp 0) copiedClass).text).functions =
      [⟨"f".toList, [], none, some "X".toList, 8⟩] := by
  rw [ofScript, show effectiveUnit 4 = 4 from rfl, nodes_copiedClass]
  decide +kernel

theorem owners_found_method :
    ⟨"f".toList, [], none, some "C".toList, 7⟩ ∈
        (declarations (ofScript 4 (timestamp 0) localFunction).text).functions ∧
      ∃ before p blocks after, FoundAt (nest 4 localFunction).nodes
        ⟨"f".toList, [], none, some "C".toList, 7⟩ before p blocks after := by
  have mem : ⟨"f".toList, [], none, some "C".toList, 7⟩ ∈
      (declarations (ofScript 4 (timestamp 0) localFunction).text).functions := by
    rw [functions_localFunction]
    exact List.mem_cons_self
  exact ⟨mem, owners_found 4 0 localFunction _ mem⟩

/-- A local function gets the class around its method as its owner, and a function in a block that
is only commented the class on the line above. -/
theorem wrong_owners :
    (∃ before p blocks after,
      located 0 [] (nest 4 localFunction).nodes = before ++ (p, blocks) :: after ∧
      definedName? p.origin.2 = some "g".toList ∧ methodOwner? blocks = none ∧
      ⟨"g".toList, [], none, some "C".toList, firstLine + before.length⟩ ∈
        (declarations (ofScript 4 (timestamp 0) localFunction).text).functions) ∧
    ∃ before p blocks after,
      located 0 [] (nest 4 copiedClass).nodes = before ++ (p, blocks) :: after ∧
      definedName? p.origin.2 = some "f".toList ∧ methodOwner? blocks = none ∧
      ⟨"f".toList, [], none, some "X".toList, firstLine + before.length⟩ ∈
        (declarations (ofScript 4 (timestamp 0) copiedClass).text).functions := by
  rw [functions_localFunction, functions_copiedClass, nodes_localFunction, nodes_copiedClass]
  constructor
  · refine ⟨[(opening 0 1 (.classType "C".toList), []),
        (opening 1 2 (.function "f".toList [] none), [.classType "C".toList])],
      opening 2 3 (.function "g".toList [] none),
      [.function "f".toList [] none, .classType "C".toList], _, rfl, rfl, rfl, ?_⟩
    exact List.mem_cons_of_mem _ List.mem_cons_self
  · refine ⟨[(⟨⟨0, "class X: pass".toList⟩, (1, .simple (.raw "class X: pass".toList)), false⟩, []),
        (opening 0 2 (.unsupported "try:".toList), [])],
      opening 1 3 (.function "f".toList [] none), [.unsupported "try:".toList], _, rfl, rfl, rfl, ?_⟩
    exact List.mem_cons_self

end SwiftDraft.Draft
