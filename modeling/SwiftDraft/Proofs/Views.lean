import SwiftDraft.Proofs.Imports
import SwiftDraft.Tree.Sketch

/-!
# The views of a script

The sketched tree, the outline and the packages of a script are read from its lines by three scans.
They agree (`Tree.views_agree`): the functions and classes of the tree are those of the outline on
lines that are not indented, and what the tree imports without dots is among the packages.
-/

namespace SwiftDraft

open Text

namespace Script

section

variable {line name : Text}

/-- What the definition of a function starts with. -/
def functionKeywords : List String := ["def ", "async def "]

theorem keyword_of_functionName? (h : functionName? line = some name) :
    ∃ p ∈ functionKeywords, ∃ r, after? p line = some r := by
  obtain ⟨r, behind, -⟩ := Option.bind_eq_some_iff.1 h
  rcases (Option.orElse_eq_some _ _ _).1 behind with plain | ⟨-, async⟩
  · exact ⟨"def ", by simp [functionKeywords], r, plain⟩
  · exact ⟨"async def ", by simp [functionKeywords], r, async⟩

theorem keyword_of_className? (h : className? line = some name) :
    ∃ r, after? "class " line = some r := by
  obtain ⟨r, behind, -⟩ := Option.bind_eq_some_iff.1 h
  exact ⟨r, behind⟩

theorem functionName?_of_className? (h : className? line = some name) :
    functionName? line = none := by
  obtain ⟨r, behind⟩ := keyword_of_className? h
  have noDef : after? "def " line = none := after?_eq_none (by decide) behind
  have noAsync : after? "async def " line = none := after?_eq_none (by decide) behind
  rw [functionName?, noDef, noAsync]
  rfl

/-- A line that starts with a keyword is neither blank nor a comment. -/
theorem definition?_of_after? {p : String} {r : Text} (h : after? p line = some r)
    (code : p.toList.head?.any (· != '#')) :
    definition? line = ((functionName? line).map .function <|> (className? line).map .classType <|>
      (assignedName? line).map .assigned) := by
  apply if_neg
  rw [after?_eq_some_iff.1 h]
  cases shape : p.toList with
  | nil =>
    rw [shape] at code
    cases code
  | cons c cs =>
    rw [shape] at code
    simpa using code

theorem definition?_of_functionName? (h : functionName? line = some name) :
    definition? line = some (.function name) := by
  have code : ∀ p ∈ functionKeywords, p.toList.head?.any (· != '#') := by decide
  obtain ⟨p, mem, r, behind⟩ := keyword_of_functionName? h
  rw [definition?_of_after? behind (code p mem), h]
  rfl

theorem definition?_of_className? (h : className? line = some name) :
    definition? line = some (.classType name) := by
  obtain ⟨r, behind⟩ := keyword_of_className? h
  rw [definition?_of_after? behind rfl, functionName?_of_className? h, h]
  rfl

/-- Any other line assigns a name or defines nothing. -/
theorem definition?_of_none (noFunction : functionName? line = none)
    (noClass : className? line = none) :
    definition? line = none ∨ ∃ name, definition? line = some (.assigned name) := by
  unfold definition?
  split
  · exact Or.inl rfl
  · rw [noFunction, noClass]
    cases assignedName? line with
    | none => exact Or.inl rfl
    | some name => exact Or.inr ⟨name, rfl⟩

end

/-- What is found on a line, by what a trimmed line defines. -/
def item? (name? : Text → Option Text) (line : Nat × Text) : Option OutlineItem :=
  (name? (trim line.2)).map fun name => ⟨name, line.1⟩

def OutlineItem.place (i : OutlineItem) : Option Text × Option Nat := (some i.name, some i.line)

/-- An outline after one more line. -/
def Outline.read (o : Outline) (line : Nat × Text) : Outline :=
  match definition? (trim line.2) with
  | some d => o.add line.1 d
  | none => o

theorem Outline.read_eq (o : Outline) (line : Nat × Text) :
    ∃ assigned, o.read line = ⟨o.functions ++ (item? functionName? line).toList,
      o.types ++ (item? className? line).toList, assigned⟩ := by
  unfold read item?
  cases isFunction : functionName? (trim line.2) with
  | some name =>
    have noClass : className? (trim line.2) = none := by
      cases isClass : className? (trim line.2) with
      | none => rfl
      | some other =>
        rw [functionName?_of_className? isClass] at isFunction
        cases isFunction
    rw [definition?_of_functionName? isFunction, noClass]
    exact ⟨o.assigned, by simp [add]⟩
  | none =>
    cases isClass : className? (trim line.2) with
    | some name =>
      rw [definition?_of_className? isClass]
      exact ⟨o.assigned, by simp [add]⟩
    | none =>
      rcases definition?_of_none isFunction isClass with nothing | ⟨name, assigns⟩
      · rw [nothing]
        exact ⟨o.assigned, by simp⟩
      · rw [assigns]
        exact ⟨o.assigned ++ [⟨name, line.1⟩], by simp [add]⟩

theorem Outline.foldl_read (ls : List (Nat × Text)) (o : Outline) :
    ∃ assigned, ls.foldl read o = ⟨o.functions ++ ls.filterMap (item? functionName?),
      o.types ++ ls.filterMap (item? className?), assigned⟩ := by
  induction ls generalizing o with
  | nil => exact ⟨o.assigned, by simp⟩
  | cons line ls ih =>
    obtain ⟨before, first⟩ := o.read_eq line
    obtain ⟨assigned, rest⟩ := ih (o.read line)
    have cons (f : Nat × Text → Option OutlineItem) :
        (line :: ls).filterMap f = (f line).toList ++ ls.filterMap f := by
      rw [List.filterMap_cons]
      cases f line with
      | none => rfl
      | some i => rfl
    refine ⟨assigned, ?_⟩
    rw [List.foldl_cons, rest, first, cons, cons, List.append_assoc, List.append_assoc]

/-- The outline has every function and every type that a line defines. -/
theorem outline_eq (source : Text) :
    (outline source).functions = (numberedLines source).filterMap (item? functionName?) ∧
      (outline source).types = (numberedLines source).filterMap (item? className?) := by
  have folded : outline source = (numberedLines source).foldl Outline.read Outline.empty := rfl
  obtain ⟨assigned, whole⟩ := Outline.foldl_read (numberedLines source) Outline.empty
  rw [folded, whole]
  exact ⟨rfl, rfl⟩

end Script

namespace Tree

open Script

def importFromNode (number : Nat) (i : FromImport) : Tree :=
  node importFromKind none (some number) []
    (Attributes.ofList
      [("module".toList, .string i.module), ("level".toList, .ofNat i.level), names i.names])

def importNode (number : Nat) (modules : List Text) : Tree :=
  node importKind none (some number) [] (Attributes.ofList [names modules])

/-- The node of a definition. -/
def definitionNode (kind : Text) (number : Nat) (name : Text) : Tree :=
  node kind (some name) (some number) [] Attributes.empty

theorem kinds_apart : importFromKind ≠ importKind ∧ importFromKind ≠ functionKind ∧
    importFromKind ≠ classKind ∧ importKind ≠ functionKind ∧ importKind ≠ classKind ∧
    functionKind ≠ classKind := by decide

section

variable {number : Nat} {raw : Text} {t : Tree}

/-- The node of a line comes from one of the four forms, and the line is not indented. -/
theorem ofLine?_cases (h : ofLine? number raw = some t) :
    raw.head?.any isBlank = false ∧
      ((∃ i, fromImport? (trim raw) = some i ∧ t = importFromNode number i) ∨
        (∃ clause, importClause? (trim raw) = some clause ∧
          t = importNode number (importedItems clause)) ∨
        (∃ name, functionName? (trim raw) = some name ∧
          t = definitionNode functionKind number name) ∨
        ∃ name, className? (trim raw) = some name ∧ t = definitionNode classKind number name) := by
  rw [ofLine?, Option.ite_none_left_eq_some] at h
  obtain ⟨unindented, h⟩ := h
  refine ⟨Bool.eq_false_iff.2 unindented, ?_⟩
  dsimp only at h
  cases isFrom : fromImport? (trim raw) with
  | some i =>
    rw [isFrom] at h
    exact Or.inl ⟨i, rfl, (Option.some.inj h).symm⟩
  | none =>
    rw [isFrom] at h
    cases isImport : importClause? (trim raw) with
    | some clause =>
      rw [isImport] at h
      exact Or.inr (Or.inl ⟨clause, rfl, (Option.some.inj h).symm⟩)
    | none =>
      rw [isImport] at h
      cases isFunction : functionName? (trim raw) with
      | some name =>
        rw [isFunction] at h
        exact Or.inr (Or.inr (Or.inl ⟨name, rfl, (Option.some.inj h).symm⟩))
      | none =>
        rw [isFunction] at h
        obtain ⟨name, isClass, made⟩ := Option.map_eq_some_iff.1 h
        exact Or.inr (Or.inr (Or.inr ⟨name, isClass, made.symm⟩))

theorem functionName?_of_kind (h : ofLine? number raw = some t) (ofKind : t.kind = functionKind) :
    ∃ name, functionName? (trim raw) = some name := by
  obtain ⟨-, fromFunction, -, importFunction, -, functionClass⟩ := kinds_apart
  obtain ⟨-, ⟨i, -, rfl⟩ | ⟨clause, -, rfl⟩ | ⟨name, found, -⟩ | ⟨name, -, rfl⟩⟩ :=
    ofLine?_cases h
  · exact absurd ofKind fromFunction
  · exact absurd ofKind importFunction
  · exact ⟨name, found⟩
  · exact absurd ofKind.symm functionClass

theorem className?_of_kind (h : ofLine? number raw = some t) (ofKind : t.kind = classKind) :
    ∃ name, className? (trim raw) = some name := by
  obtain ⟨-, -, fromClass, -, importClass, functionClass⟩ := kinds_apart
  obtain ⟨-, ⟨i, -, rfl⟩ | ⟨clause, -, rfl⟩ | ⟨name, -, rfl⟩ | ⟨name, found, -⟩⟩ :=
    ofLine?_cases h
  · exact absurd ofKind fromClass
  · exact absurd ofKind importClass
  · exact absurd ofKind functionClass
  · exact ⟨name, found⟩

theorem line_of_ofLine? (h : ofLine? number raw = some t) : t.line = some number := by
  obtain ⟨-, ⟨i, -, rfl⟩ | ⟨clause, -, rfl⟩ | ⟨name, -, rfl⟩ | ⟨name, -, rfl⟩⟩ := ofLine?_cases h
  · rfl
  · rfl
  · rfl
  · rfl

/-- A line that starts with a keyword of a definition imports nothing. -/
theorem ofLine?_of_after? {p : String} {r : Text} (unindented : raw.head?.any isBlank = false)
    (behind : after? p (trim raw) = some r)
    (apart : Apart p "from" ∧ Apart p "import") :
    ofLine? number raw = match functionName? (trim raw) with
      | some name => some (definitionNode functionKind number name)
      | none => (className? (trim raw)).map (definitionNode classKind number) := by
  have noFrom : fromImport? (trim raw) = none := fromImport?_eq_none apart.1 behind
  have noImport : importClause? (trim raw) = none := importClause?_eq_none apart.2 behind
  rw [ofLine?, unindented]
  simp only [noFrom, noImport, Bool.false_eq_true, if_false]
  rfl

theorem ofLine?_of_functionName? {name : Text} (unindented : raw.head?.any isBlank = false)
    (h : functionName? (trim raw) = some name) :
    ofLine? number raw = some (definitionNode functionKind number name) := by
  have apart : ∀ p ∈ functionKeywords, Apart p "from" ∧ Apart p "import" := by decide
  obtain ⟨p, mem, r, behind⟩ := keyword_of_functionName? h
  rw [ofLine?_of_after? unindented behind (apart p mem), h]

theorem ofLine?_of_className? {name : Text} (unindented : raw.head?.any isBlank = false)
    (h : className? (trim raw) = some name) :
    ofLine? number raw = some (definitionNode classKind number name) := by
  obtain ⟨r, behind⟩ := keyword_of_className? h
  rw [ofLine?_of_after? unindented behind (by decide), functionName?_of_className? h, h]
  rfl

end

/-- The name of a node and the line where it stands, as far as it has them. -/
def place (t : Tree) : Option Text × Option Nat := (t.name, t.line)

/-- Whether a line is there and does not start with a blank. -/
def isUnindented (source : Text) (number : Nat) : Bool :=
  (lines source)[number - 1]?.any fun l => !l.head?.any isBlank

theorem mem_numberedLines {source raw : Text} {number : Nat} :
    (number, raw) ∈ numberedLines source ↔ 1 ≤ number ∧ (lines source)[number - 1]? = some raw := by
  rw [numberedLines, List.mem_map]
  constructor
  · rintro ⟨⟨l, i⟩, mem, made⟩
    cases made
    exact ⟨Nat.le_add_left 1 i, List.mk_mem_zipIdx_iff_getElem?.1 mem⟩
  · rintro ⟨positive, found⟩
    exact ⟨(raw, number - 1), List.mk_mem_zipIdx_iff_getElem?.2 found, by simp; omega⟩

section

variable {kind : Text} {name? : Text → Option Text}

/-- One line for the two scans: the node of a kind, and what is found if the line is not
indented. -/
theorem place_ofLine? {source raw : Text} {number : Nat}
    (made : ∀ name, raw.head?.any isBlank = false → name? (trim raw) = some name →
      ofLine? number raw = some (definitionNode kind number name))
    (read : ∀ t, ofLine? number raw = some t → t.kind = kind →
      ∃ name, name? (trim raw) = some name)
    (here : isUnindented source number = !raw.head?.any isBlank) :
    ((ofLine? number raw).filter fun t => t.kind = kind).map place =
      ((item? name? (number, raw)).filter fun i => isUnindented source i.line).map
        OutlineItem.place := by
  cases indented : raw.head?.any isBlank with
  | true =>
    rw [indented] at here
    have nothing : ofLine? number raw = none := if_pos indented
    rw [nothing, item?]
    cases name? (trim raw) with
    | none => rfl
    | some name =>
      rw [Option.map_some, Option.filter_some, if_neg (by simp [here])]
      rfl
  | false =>
    rw [indented] at here
    cases found : name? (trim raw) with
    | some name =>
      have ofKind : (definitionNode kind number name).kind = kind := rfl
      rw [made name indented found, item?, found, Option.map_some, Option.filter_some,
        Option.filter_some, if_pos (decide_eq_true ofKind), if_pos (by simp [here])]
      rfl
    | none =>
      have other : (ofLine? number raw).filter (fun t => decide (t.kind = kind)) = none := by
        rw [Option.filter_eq_none_iff]
        intro t isNode isKind
        obtain ⟨name, named⟩ := read t isNode (of_decide_eq_true isKind)
        rw [found] at named
        cases named
      rw [other, item?, found]
      rfl

/-- The nodes of one kind are what is found on the lines that are not indented. -/
theorem places_sketch
    (made : ∀ number raw name, raw.head?.any isBlank = false → name? (trim raw) = some name →
      ofLine? number raw = some (definitionNode kind number name))
    (read : ∀ number raw t, ofLine? number raw = some t → t.kind = kind →
      ∃ name, name? (trim raw) = some name) (source : Text) :
    ((sketch source).children.filter fun t => t.kind = kind).map place =
      (((numberedLines source).filterMap (item? name?)).filter
        fun i => isUnindented source i.line).map OutlineItem.place := by
  change (((numberedLines source).filterMap fun l => ofLine? l.1 l.2).filter _).map place = _
  rw [List.filter_filterMap, List.map_filterMap, List.filter_filterMap, List.map_filterMap]
  apply List.filterMap_congr
  rintro ⟨number, raw⟩ mem
  apply place_ofLine? (made number raw) (read number raw)
  rw [isUnindented, (mem_numberedLines.1 mem).2]
  rfl

end

/-- What a node of the sketched tree is, beside the outline and the packages. -/
structure Agrees (source : Text) (t : Tree) : Prop where
  childless : t.children = []
  topLevel : t.kind ∈ topLevelKinds
  /-- The packages have what an import names. -/
  imports : t.kind = importKind → ∃ modules, t.attributes = Attributes.ofList [names modules] ∧
    ∀ n ∈ modules, firstSegment n ≠ [] → firstSegment n ∈ (packages source).elements
  /-- The packages have the module of an import that is not relative, and nothing from the line of
  one that is. -/
  importsFrom : t.kind = importFromKind → ∃ i : FromImport,
    t.attributes = Attributes.ofList
      [("module".toList, .string i.module), ("level".toList, .ofNat i.level), names i.names] ∧
    (i.level = 0 → firstSegment i.module ≠ [] →
      firstSegment i.module ∈ (packages source).elements) ∧
    (1 ≤ i.level → ∃ number raw, t.line = some number ∧ (number, raw) ∈ numberedLines source ∧
      linePackages raw = [])

theorem agrees_of_ofLine? {source raw : Text} {number : Nat} {t : Tree}
    (mem : (number, raw) ∈ numberedLines source) (h : ofLine? number raw = some t) :
    Agrees source t := by
  have inLines : raw ∈ lines source := List.mem_of_getElem? (mem_numberedLines.1 mem).2
  obtain ⟨fromImport, fromFunction, fromClass, importFunction, importClass, -⟩ := kinds_apart
  obtain ⟨-, ⟨i, found, rfl⟩ | ⟨clause, found, rfl⟩ | ⟨name, -, rfl⟩ | ⟨name, -, rfl⟩⟩ :=
    ofLine?_cases h
  · refine ⟨rfl, (by decide : importFromKind ∈ topLevelKinds),
      fun same => absurd same fromImport, fun _ => ⟨i, rfl, ?_, ?_⟩⟩
    · intro absolute needed
      exact mem_packages.2 ⟨raw, inLines, mem_linePackages_of_module found absolute needed⟩
    · intro relative
      exact ⟨number, raw, rfl, mem, linePackages_of_relative found relative⟩
  · refine ⟨rfl, (by decide : importKind ∈ topLevelKinds), fun _ => ⟨_, rfl, ?_⟩,
      fun same => absurd same.symm fromImport⟩
    intro n listed needed
    exact mem_packages.2 ⟨raw, inLines, mem_linePackages_of_clause found listed needed⟩
  · exact ⟨rfl, (by decide : functionKind ∈ topLevelKinds),
      fun same => absurd same.symm importFunction, fun same => absurd same.symm fromFunction⟩
  · exact ⟨rfl, (by decide : classKind ∈ topLevelKinds),
      fun same => absurd same.symm importClass, fun same => absurd same.symm fromClass⟩

theorem pairwise_numberedLines (source : Text) :
    (numberedLines source).Pairwise fun a b => a.1 < b.1 := by
  have numbers : (numberedLines source).map Prod.fst = List.range' 1 (lines source).length := by
    have count : Prod.fst ∘ (fun l : Text × Nat => (l.2 + 1, l.1)) = (· + 1) ∘ Prod.snd := rfl
    have succ : (· + 1) = fun n => 1 + n := funext fun n => Nat.add_comm n 1
    rw [numberedLines, List.map_map, count, ← List.map_map, List.zipIdx_map_snd, succ,
      List.map_add_range']
  rw [← List.pairwise_map, numbers]
  exact List.pairwise_lt_range'

/-- The nodes stand on lines that ascend. -/
theorem lines_sketch (source : Text) :
    ∃ numbers : List Nat, (sketch source).children.map line = numbers.map some ∧
      numbers.Pairwise (· < ·) := by
  refine ⟨(numberedLines source).filterMap fun l => (ofLine? l.1 l.2).map fun _ => l.1, ?_, ?_⟩
  · change ((numberedLines source).filterMap fun l => ofLine? l.1 l.2).map line = _
    rw [List.map_filterMap, List.map_filterMap]
    apply List.filterMap_congr
    rintro ⟨number, raw⟩ -
    cases node : ofLine? number raw with
    | none => rfl
    | some t => simp [line_of_ofLine? node]
  · apply (pairwise_numberedLines source).filterMap
    intro a b below m inA n inB
    obtain ⟨t, -, rfl⟩ := Option.map_eq_some_iff.1 inA
    obtain ⟨u, -, rfl⟩ := Option.map_eq_some_iff.1 inB
    exact below

/-- The sketched tree, the outline and the packages of a script agree. -/
theorem views_agree (source : Text) :
    ((sketch source).children.filter fun t => t.kind = functionKind).map place =
        ((Script.outline source).functions.filter fun i => isUnindented source i.line).map
          OutlineItem.place ∧
      ((sketch source).children.filter fun t => t.kind = classKind).map place =
        ((Script.outline source).types.filter fun i => isUnindented source i.line).map
          OutlineItem.place ∧
      (∀ t ∈ (sketch source).children, Agrees source t) ∧
      ∃ numbers : List Nat, (sketch source).children.map line = numbers.map some ∧
        numbers.Pairwise (· < ·) := by
  obtain ⟨functions, types⟩ := outline_eq source
  refine ⟨?_, ?_, ?_, lines_sketch source⟩
  · rw [functions]
    apply places_sketch
    · intro number raw name unindented isFunction
      exact ofLine?_of_functionName? unindented isFunction
    · intro number raw t made ofKind
      exact functionName?_of_kind made ofKind
  · rw [types]
    apply places_sketch
    · intro number raw name unindented isClass
      exact ofLine?_of_className? unindented isClass
    · intro number raw t made ofKind
      exact className?_of_kind made ofKind
  · intro t mem
    obtain ⟨⟨number, raw⟩, inLines, made⟩ := List.mem_filterMap.1 mem
    exact agrees_of_ofLine? inLines made

end Tree

end SwiftDraft
