import SwiftDraft.Proofs.Pieces
import SwiftDraft.Proofs.ScannedHeaders
import SwiftDraft.Proofs.Scopes
import SwiftDraft.Proofs.TestNames
import SwiftDraft.Proofs.Words

/-!
# The lines of tests

What a scan reads off a header is made of names and of pieces of one line
(`isRead_of_mem_declarations`). So what is copied into a test never breaks a line: a method has the
lines that it was put together from, whatever function it calls (`lines_unitTest`).
-/

namespace SwiftDraft.Draft

open Text

/-- A name as it stands in a list of parameters: neither a blank nor a colon is in it. -/
structure IsToken (t : Text) : Prop where
  filled : t ≠ []
  visible : ∀ c ∈ t, isBlank c = false
  colon : ':' ∉ t

/-- What is known of a parameter that is read off a line. -/
structure DeclaredParameter.IsRead (p : DeclaredParameter) : Prop where
  name : IsToken p.name
  label : ∀ l ∈ p.label, IsToken l
  type : ∀ t ∈ p.type, '\n' ∉ t

/-- What is known of a function whose header is found. -/
structure DeclaredFunction.IsRead (f : DeclaredFunction) : Prop where
  name : IsIdentifier f.name
  owner : ∀ o ∈ f.owner, IsIdentifier o
  parameters : ∀ p ∈ f.parameters, p.IsRead

section

variable {s : Text}

theorem isToken_of_mem_words {names w : Text} (colon : ':' ∉ names) (mem : w ∈ words names) :
    IsToken w :=
  ⟨ne_nil_of_mem_words mem, isBlank_of_mem_words mem, fun inside =>
    colon (subset_of_mem_words mem inside)⟩

theorem not_mem_of_splitOnce?_eq_none {sep : Char} (none : splitOnce? sep s = none) : sep ∉ s := by
  intro mem
  obtain ⟨front, back, rfl, first⟩ := List.eq_append_cons_of_mem mem
  rw [splitOnce?_append first] at none
  cases none

/-- The names and the type in a declaration. -/
def namesAndType (declaration : Text) : Text × Option Text :=
  match splitOnce? ':' declaration with
  | some (names, type) => (trim names, some (trim type))
  | none => (declaration, none)

/-- The parameter with these names and this type. -/
def namedParameter? (names : Text) (type : Option Text) : Option DeclaredParameter :=
  let label (l : Option Text) : Option Text := if type.any (endsWith · "...") then none else l
  match words names with
  | [] => none
  | [only] => some ⟨label (some only), only, type.filter (· ≠ [])⟩
  | first :: second :: _ =>
    some ⟨label (if first = "_".toList then none else some first), second, type.filter (· ≠ [])⟩

theorem declaredParameter?_eq (s : Text) :
    declaredParameter? s =
      let (names, type) := namesAndType (trim (s.takeWhile (· ≠ '=')))
      namedParameter? names type := by
  unfold declaredParameter? namesAndType namedParameter?
  dsimp only
  generalize trim (s.takeWhile (· ≠ '=')) = declaration
  cases splitOnce? ':' declaration with
  | none => rcases words declaration with _ | ⟨first, _ | ⟨second, rest⟩⟩ <;> rfl
  | some parts => rcases words (trim parts.1) with _ | ⟨first, _ | ⟨second, rest⟩⟩ <;> rfl

theorem plain_of_namesAndType (plain : '\n' ∉ s) :
    ':' ∉ (namesAndType s).1 ∧ ∀ t ∈ (namesAndType s).2, '\n' ∉ t := by
  unfold namesAndType
  split
  · next names type split =>
    obtain ⟨whole, first⟩ := splitOnce?_eq_some split
    refine ⟨fun mem => first (trim_subset names mem), ?_⟩
    rintro t ⟨⟩ mem
    refine plain ?_
    rw [whole]
    exact List.mem_append_right _ (List.mem_cons_of_mem _ (trim_subset type mem))
  · next split => exact ⟨not_mem_of_splitOnce?_eq_none split, nofun⟩

theorem isRead_of_namedParameter? {names : Text} {type : Option Text} {p : DeclaredParameter}
    (colon : ':' ∉ names) (oneLine : ∀ t ∈ type, '\n' ∉ t)
    (found : namedParameter? names type = some p) : p.IsRead := by
  have token : ∀ w ∈ words names, IsToken w := fun w => isToken_of_mem_words colon
  have typed : ∀ t ∈ type.filter (· ≠ []), '\n' ∉ t := fun t given =>
    oneLine t (Option.filter_eq_some_iff.1 given).1
  simp only [namedParameter?] at found
  split at found
  · cases found
  · next only same =>
    cases found
    have only := token only (by simp [same])
    refine ⟨only, fun l given => ?_, typed⟩
    obtain ⟨-, ⟨⟩⟩ := Option.ite_none_left_eq_some.1 given
    exact only
  · next first second rest same =>
    cases found
    refine ⟨token second (by simp [same]), fun l given => ?_, typed⟩
    obtain ⟨-, given⟩ := Option.ite_none_left_eq_some.1 given
    obtain ⟨-, ⟨⟩⟩ := Option.ite_none_left_eq_some.1 given
    exact token first (by simp [same])

theorem isRead_of_declaredParameter? {p : DeclaredParameter} (plain : '\n' ∉ s)
    (found : declaredParameter? s = some p) : p.IsRead := by
  have front : '\n' ∉ trim (s.takeWhile (· ≠ '=')) := fun mem =>
    plain (List.takeWhile_subset _ (trim_subset _ mem))
  rw [declaredParameter?_eq] at found
  obtain ⟨colon, oneLine⟩ := plain_of_namesAndType front
  exact isRead_of_namedParameter? colon oneLine found

theorem subset_of_cutClosing {scan : Scan} {inside rest : Text}
    (h : cutClosing scan.depth scan.quote s = some (inside, rest)) : inside ⊆ s := by
  induction s generalizing scan inside with
  | nil => cases h
  | cons c s ih =>
    rw [cutClosing_cons] at h
    split at h
    · cases h
      exact List.nil_subset _
    · obtain ⟨⟨l, r⟩, found, same⟩ := Option.map_eq_some_iff.1 h
      cases same
      exact List.cons_subset_cons c (ih found)

theorem isRead_of_declaredFunction? {owner : Option Text} {number : Nat} {f : DeclaredFunction}
    (plain : '\n' ∉ s) (owned : ∀ o ∈ owner, IsIdentifier o)
    (found : declaredFunction? owner number s = some f) : f.IsRead := by
  obtain ⟨⟨name, r⟩, start, found⟩ := Option.bind_eq_some_iff.1 found
  obtain ⟨t, gap, named⟩ := Option.bind_eq_some_iff.1 start
  obtain ⟨u, keyword, behind⟩ := Option.bind_eq_some_iff.1 gap
  obtain ⟨list, opened, found⟩ := Option.bind_eq_some_iff.1 found
  obtain ⟨⟨inner, rest⟩, closed, found⟩ := Option.bind_eq_some_iff.1 found
  obtain ⟨returnType, -, made⟩ := Option.bind_eq_some_iff.1 found
  cases made
  refine ⟨isIdentifier_of_identifier? named, owned, fun p mem => ?_⟩
  obtain ⟨item, listed, read⟩ := List.mem_filterMap.1 mem
  have inLine : item ⊆ s := List.Subset.trans (subset_of_mem_splitTopLevel listed)
    (List.Subset.trans (@subset_of_cutClosing _ ⟨0, none⟩ _ _ closed)
      (List.Subset.trans (subset_of_after? opened) (List.Subset.trans (trimStart_subset r)
        (List.Subset.trans (subset_of_identifier? named).2 (List.Subset.trans
          (subset_of_afterGap? behind) (List.Subset.trans (subset_of_after? keyword)
            (trimStart_subset s)))))))
  exact isRead_of_declaredParameter? (fun newline => plain (inLine newline)) read

theorem isIdentifier_of_declaredType? {name : Text} (found : declaredType? s = some name) :
    IsIdentifier name := by
  obtain ⟨r, -, found⟩ := Option.bind_eq_some_iff.1 found
  obtain ⟨⟨n, rest⟩, named, made⟩ := Option.bind_eq_some_iff.1 found
  cases made
  obtain ⟨t, -, named⟩ := Option.bind_eq_some_iff.1 named
  exact isIdentifier_of_identifier? named

theorem isRead_of_mem_declarations {swift : Text} {f : DeclaredFunction}
    (mem : f ∈ (declarations swift).functions) : f.IsRead := by
  obtain ⟨before, ⟨number, line⟩, after, split, found⟩ := exists_of_mem_foldl mem
  have inText : line ∈ lines swift := by
    rw [← map_snd_numberedLines, split, List.map_append, List.map_cons]
    exact List.mem_append_right _ List.mem_cons_self
  refine isRead_of_declaredFunction? (newline_not_mem_of_mem_lines inText) (fun o owned => ?_) found
  obtain ⟨l, -, type⟩ := List.exists_of_findSome?_eq_some owned
  exact isIdentifier_of_declaredType? type

end

end SwiftDraft.Draft

namespace SwiftDraft.Text

/-- A text that makes one line. -/
structure IsLine (l : Text) : Prop where
  filled : l ≠ []
  newline : '\n' ∉ l
  ending : l.getLast? ≠ some '\r'

theorem IsLine.append_left {i l : Text} (line : IsLine l) (plain : '\n' ∉ i) : IsLine (i ++ l) where
  filled := List.append_ne_nil_of_right_ne_nil i line.filled
  newline := List.not_mem_append plain line.newline
  ending := by
    rw [List.getLast?_append_of_ne_nil i line.filled]
    exact line.ending

theorem lines_unlines_of_isLine {ls : List Text} (h : ∀ l ∈ ls, IsLine l) :
    lines (unlines ls) = ls := by
  have whole : ∀ l ∈ ls, chomp l = l := fun l mem => chomp_of_getLast (h l mem).ending
  rw [lines_unlines fun l mem => (h l mem).newline, List.map_congr_left whole, List.map_id']

end SwiftDraft.Text

namespace SwiftDraft.Skeleton

open Text
open Draft (DeclaredFunction DeclaredParameter IsToken)

/-- The lines of a method. -/
def methodLines (name : Text) (body : List Text) : List Text :=
  ("func ".toList ++ name ++ "() \x7b".toList) :: body.map ("    ".toList ++ ·) ++ ["\x7d".toList]

theorem method_eq_unlines (name : Text) (body : List Text) :
    method name body = unlines (methodLines name body) := by
  have opening : "() \x7b\n".toList = "() \x7b".toList ++ ['\n'] := rfl
  have closing : "\x7d\n".toList = "\x7d".toList ++ ['\n'] := rfl
  unfold method methodLines unlines
  rw [List.cons_append, List.flatMap_cons, List.flatMap_append, List.flatMap_map,
    List.flatMap_singleton, opening, closing]
  simp only [List.append_assoc]

theorem isLine_of_mem_methodLines {name : Text} {body : List Text} (named : '\n' ∉ name)
    (plain : ∀ l ∈ body, IsLine l) : ∀ l ∈ methodLines name body, IsLine l := by
  have opening : IsLine "() \x7b".toList := ⟨by decide, by decide, by decide⟩
  have front : '\n' ∉ "func ".toList ++ name := List.not_mem_append (by decide) named
  refine List.forall_mem_append.2 ⟨List.forall_mem_cons.2 ⟨?_, ?_⟩, ?_⟩
  · exact opening.append_left front
  · exact List.forall_mem_map.2 fun l mem => (plain l mem).append_left (by decide)
  · exact List.forall_mem_singleton.2 ⟨by decide, by decide, by decide⟩

theorem lines_method {name : Text} {body : List Text} (named : '\n' ∉ name)
    (plain : ∀ l ∈ body, IsLine l) : lines (method name body) = methodLines name body := by
  rw [method_eq_unlines, lines_unlines_of_isLine (isLine_of_mem_methodLines named plain)]

theorem sample_mem (type : Option Text) :
    sample type ∈ ["42", "3.14", "\"test\"", "true", "[:]", "[]", "nil"].map String.toList := by
  cases type with
  | none => decide
  | some type =>
    simp only [sample, sampleOf]
    split_ifs <;> decide

theorem isLine_sample (type : Option Text) : IsLine (sample type) := by
  have all : ∀ l ∈ ["42", "3.14", "\"test\"", "true", "[:]", "[]", "nil"].map String.toList,
      l ≠ [] ∧ '\n' ∉ l ∧ l.getLast? ≠ some '\r' := by decide
  obtain ⟨filled, newline, ending⟩ := all _ (sample_mem type)
  exact ⟨filled, newline, ending⟩

theorem dropSuffixes_subset (suffix s : Text) : dropSuffixes suffix s ⊆ s := by
  have inside (n : Nat) (r : Text) : dropSuffixes.go suffix n r ⊆ r := by
    induction n generalizing r with
    | zero => exact List.Subset.refl r
    | succ n ih =>
      unfold dropSuffixes.go
      split
      · next rest cut =>
        rw [← List.append_eq_of_isPrefixOf?_eq_some cut]
        exact List.subset_append_of_subset_right _ (ih rest)
      · exact List.Subset.refl r
  intro c mem
  exact List.mem_reverse.1 (inside _ _ (List.mem_reverse.1 mem))

theorem newline_not_mem_wrappedType {type : Option Text} (plain : ∀ t ∈ type, '\n' ∉ t) :
    '\n' ∉ wrappedType type := by
  cases type with
  | none => decide
  | some t =>
    intro mem
    refine plain t rfl (dropSuffixes_subset "...".toList t ?_)
    exact List.mem_reverse.1 (List.dropWhile_subset _ (List.mem_reverse.1 mem))

theorem newline_not_mem_token {t : Text} (token : IsToken t) : '\n' ∉ t := fun mem =>
  absurd (token.visible '\n' mem) (by decide)

theorem newline_not_mem_identifier {name : Text} (named : IsIdentifier name) : '\n' ∉ name :=
  (Draft.isWordName_of_isIdentifier named).not_mem (by decide)

section

variable {p : DeclaredParameter} {f : DeclaredFunction}

theorem isLine_binding (read : p.IsRead) : IsLine (binding p) := by
  have named := newline_not_mem_token read.name
  have type : '\n' ∉ wrappedType p.type := newline_not_mem_wrappedType read.type
  have ending : IsLine "? = nil".toList := ⟨by decide, by decide, by decide⟩
  unfold binding
  dsimp only
  split
  · refine ending.append_left ?_
    split <;> simp [named, type]
  · exact (isLine_sample p.type).append_left (by simp [named])

theorem newline_not_mem_argument (read : p.IsRead) {value : Text} (plain : '\n' ∉ value) :
    '\n' ∉ argument p value := by
  unfold argument
  split
  · next label given =>
    exact List.not_mem_append (List.not_mem_append (newline_not_mem_token (read.label label given))
      (by decide)) plain
  · exact plain

theorem isLine_call (read : f.IsRead) {arguments : List Text} (plain : ∀ a ∈ arguments, '\n' ∉ a) :
    IsLine (call f arguments) := by
  have named := newline_not_mem_identifier read.name
  have list : '\n' ∉ join ", " arguments := by
    intro mem
    rcases Draft.mem_join mem with comma | ⟨a, inList, inside⟩
    · exact absurd comma (by decide)
    · exact plain a inList inside
  have ending : IsLine ")".toList := ⟨by decide, by decide, by decide⟩
  unfold call
  cases owned : f.owner with
  | none =>
    have front : '\n' ∉ f.name ++ '(' :: join ", " arguments := by simp [named, list]
    exact ending.append_left front
  | some o =>
    have owner := newline_not_mem_identifier (read.owner o owned)
    have front : '\n' ∉ o ++ "().".toList ++ f.name ++ '(' :: join ", " arguments := by
      simp [named, list, owner]
    exact ending.append_left front

theorem isLine_of_mem_unitLines (read : f.IsRead) : ∀ l ∈ unitLines f, IsLine l := by
  have made : IsLine (call f (f.parameters.map fun p => argument p p.name)) :=
    isLine_call read (List.forall_mem_map.2 fun p mem =>
      newline_not_mem_argument (read.parameters p mem)
        (newline_not_mem_token (read.parameters p mem).name))
  unfold unitLines
  refine List.forall_mem_append.2 ⟨List.forall_mem_map.2 fun p mem =>
    isLine_binding (read.parameters p mem), ?_⟩
  split
  · refine List.forall_mem_append.2 ⟨?_, ?_⟩
    · refine List.forall_mem_cons.2 ⟨made.append_left (by decide),
        List.forall_mem_singleton.2 ⟨by decide, by decide, by decide⟩⟩
    · split
      · exact List.forall_mem_singleton.2 ⟨by decide, by decide, by decide⟩
      · exact nofun
  · have ending : IsLine " returns no value; nothing to assert".toList :=
      ⟨by decide, by decide, by decide⟩
    have named := newline_not_mem_identifier read.name
    exact List.forall_mem_cons.2 ⟨made,
      List.forall_mem_singleton.2 (ending.append_left (by simp [named]))⟩

end

theorem isWord_toUpper {c : Char} (h : startsName c) : isWord c.toUpper := by
  simp only [startsName, Bool.or_eq_true, beq_iff_eq] at h
  rcases h with letter | rfl
  · have upper : c.toUpper.isAlphanum := isAlphanum_toUpper (by simp [Char.isAlphanum, letter])
    simp [isWord, toNat_lt_of_isAlphanum upper, upper]
  · decide

theorem isWord_of_isDigit {c : Char} (h : c.isDigit) : isWord c := by
  have alphanum : c.isAlphanum := by simp [Char.isAlphanum, h]
  simp [isWord, toNat_lt_of_isAlphanum alphanum, alphanum]

/-- A unit test is named by an identifier. -/
theorem isIdentifier_of_isUnitTest {f : DeclaredFunction} {t : Test} (read : f.IsRead)
    (test : IsUnitTest f t) : IsIdentifier t.name := by
  have word : ∀ c ∈ baseName f, isWord c := by
    obtain ⟨c, r, same, starts, word⟩ := read.name
    rw [baseName, same]
    exact List.forall_mem_append.2
      ⟨List.all_eq_true.1 rfl, List.forall_mem_cons.2 ⟨isWord_toUpper starts, word⟩⟩
  have named {u : Text} (inside : ∀ c ∈ u, isWord c) : IsIdentifier (baseName f ++ u) :=
    ⟨'t', _, rfl, by decide, (List.forall_mem_cons.1 (List.forall_mem_append.2 ⟨word, inside⟩)).2⟩
  rcases test.named with plain | ⟨n, -, numbered⟩
  · rw [plain, ← List.append_nil (baseName f)]
    exact named (List.forall_mem_nil _)
  · rw [numbered]
    exact named fun c mem => isWord_of_isDigit (isDigit_of_mem_ofNat mem)

/-- A unit test has the lines that it was put together from. -/
theorem lines_unitTest {f : DeclaredFunction} {t : Test} (read : f.IsRead) (test : IsUnitTest f t) :
    lines t.body = methodLines t.name (unitLines f) := by
  rw [test.body]
  exact lines_method (newline_not_mem_identifier (isIdentifier_of_isUnitTest read test))
    (isLine_of_mem_unitLines read)

end SwiftDraft.Skeleton
