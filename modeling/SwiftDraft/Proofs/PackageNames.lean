import SwiftDraft.Proofs.ScannedHeaders
import SwiftDraft.Proofs.Words

/-!
# The names of packages

A package is cut out of a line that imports: in front of a comment, between commas, up to a blank
and up to a dot. None of these gets into its name, except for a `#` in the place of the clause.
Other signs do: the package of an item is a name of word characters exactly if nothing else ends the
name at the start of the item (`package_names`).
-/

namespace SwiftDraft.Script

open Text
open Draft (IsWordName)

section

variable {s clause : Text}

theorem head?_upToComment (h : upToComment s = some clause) : clause.head? = s.head? := by
  cases s with
  | nil => cases h
  | cons c r =>
    rw [upToComment] at h
    split at h
    · cases h
      rfl
    · obtain ⟨_, -, rfl⟩ := Option.map_eq_some_iff.1 h
      rfl

/-- A comment can only be taken for the clause itself. -/
theorem not_mem_tail_upToComment (h : upToComment s = some clause) : '#' ∉ clause.tail := by
  induction s generalizing clause with
  | nil => cases h
  | cons c r ih =>
    rw [upToComment] at h
    split at h
    · cases h
      exact List.not_mem_nil
    · next goesOn =>
      obtain ⟨further, found, rfl⟩ := Option.map_eq_some_iff.1 h
      -- The rest does not start with `#`, or the clause would end in front of it.
      have first : further.head? ≠ some '#' := by
        rw [head?_upToComment found]
        intro comment
        obtain ⟨r, rfl⟩ := List.head?_eq_some_iff.1 comment
        exact goesOn rfl
      intro mem
      cases further with
      | nil => cases mem
      | cons d further =>
        rcases List.mem_cons.1 mem with rfl | later
        · exact first rfl
        · exact ih found later

end

/-- The name at the start of an item, up to a blank or a dot. -/
def leadingName (item : Text) : Text := (trimStart item).takeWhile fun c => !isBlank c && c != '.'

/-- Behind the word characters at the start of an item there is a blank, a dot or nothing. -/
def EndsName (item : Text) : Prop :=
  ((trimStart item).dropWhile isWord).head?.all fun c => isBlank c || c == '.'

instance (item : Text) : Decidable (EndsName item) := inferInstanceAs (Decidable (_ = true))

section

variable {item clause line p : Text}

theorem firstSegment_eq (item : Text) :
    ((firstWord? item).map firstSegment).getD [] = leadingName item := by
  rw [firstWord?_eq]
  split
  · next nothing =>
    rw [leadingName, nothing]
    rfl
  · rw [Option.map_some, Option.getD_some, firstSegment, List.takeWhile_takeWhile, leadingName]
    refine congrArg (List.takeWhile · _) (funext fun c => ?_)
    rw [Bool.eq_iff_iff]
    simp [and_comm]

theorem mem_importedItems (filled : p ≠ []) :
    p ∈ (importedItems clause).map firstSegment ↔
      ∃ item ∈ clause.splitOn ',', leadingName item = p := by
  simp only [importedItems, List.mem_map, List.mem_filterMap, ← firstSegment_eq]
  constructor
  · rintro ⟨w, ⟨item, mem, first⟩, rfl⟩
    exact ⟨item, mem, by rw [first]; rfl⟩
  · rintro ⟨item, mem, rfl⟩
    cases first : firstWord? item with
    | none => simp [first] at filled
    | some w => exact ⟨w, ⟨item, mem, first⟩, rfl⟩

/-- The packages of a line that starts with `import`. -/
theorem mem_linePackages_clause (found : importClause? (trimStart line) = some clause) :
    p ∈ linePackages line ↔ p ≠ [] ∧ ∃ item ∈ clause.splitOn ',', leadingName item = p := by
  rw [linePackages, fromModule?_eq_none found, found]
  simp only [List.mem_filter, decide_eq_true_eq]
  rw [and_comm]
  exact and_congr_right mem_importedItems

theorem of_mem_dottedName? {s name r : Text} (h : dottedName? s = some (name, r)) :
    ∀ c ∈ name, isWord c ∨ c = '.' := by
  cases s with
  | nil => cases h
  | cons c s =>
    rw [dottedName?, Option.ite_none_right_eq_some] at h
    obtain ⟨starts, made⟩ := h
    cases made
    refine List.forall_mem_cons.2 ⟨Or.inl (isWord_of_startsName starts), fun d mem => ?_⟩
    simpa using List.mem_takeWhile_imp mem

/-- The package of any other line is a name. -/
theorem isWordName_of_noClause (none : importClause? (trimStart line) = none)
    (mem : p ∈ linePackages line) : IsWordName p := by
  unfold linePackages at mem
  rw [none] at mem
  split at mem
  · next module found =>
    obtain ⟨inList, filled⟩ := List.mem_filter.1 mem
    obtain rfl := List.mem_singleton.1 inList
    obtain ⟨⟨m, r⟩, named, found⟩ := Option.bind_eq_some_iff.1 found
    obtain ⟨s, -, dotted⟩ := Option.bind_eq_some_iff.1 named
    obtain ⟨rest, -, found⟩ := Option.bind_eq_some_iff.1 found
    obtain ⟨-, ⟨⟩⟩ := Option.ite_none_right_eq_some.1 found
    refine ⟨by simpa using filled, fun c inSegment => ?_⟩
    have inName : c ∈ module := List.takeWhile_subset _ inSegment
    have noDot : c ≠ '.' := by simpa using List.mem_takeWhile_imp inSegment
    exact (of_mem_dottedName? dotted c inName).resolve_right noDot
  · cases mem

theorem isWord_takeWhile_iff {q : Char → Bool} (letters : ∀ c, isWord c → q c) (t : Text) :
    (∀ c ∈ t.takeWhile q, isWord c) ↔ (t.dropWhile isWord).head?.all fun c => !q c := by
  induction t with
  | nil => simp
  | cons c t ih =>
    by_cases word : isWord c
    · rw [List.takeWhile_cons_of_pos (letters c word), List.dropWhile_cons_of_pos word, ← ih,
        List.forall_mem_cons]
      exact and_iff_right word
    · rw [List.dropWhile_cons_of_neg word]
      cases kept : q c with
      | true =>
        rw [List.takeWhile_cons_of_pos kept]
        simp [word, kept]
      | false =>
        rw [List.takeWhile_cons_of_neg (by simp [kept])]
        simp [kept]

theorem isWord_leadingName_iff (item : Text) :
    (∀ c ∈ leadingName item, isWord c) ↔ EndsName item := by
  have letters : ∀ c, isWord c → (!isBlank c && c != '.') = true := by
    intro c word
    have other : c ≠ '.' := by
      rintro rfl
      exact absurd word (by decide)
    simp [isBlank_of_isWord word, other]
  rw [leadingName, isWord_takeWhile_iff letters, EndsName]
  simp [bne]

/-- What no package has in it. -/
structure IsCutOut (p : Text) : Prop where
  filled : p ≠ []
  visible : ∀ c ∈ p, isBlank c = false
  dot : '.' ∉ p
  comma : ',' ∉ p
  /-- A `#` is at most its first character. -/
  comment : '#' ∉ p.tail

theorem isCutOut_of_isWordName (named : IsWordName p) : IsCutOut p where
  filled := named.1
  visible c mem := isBlank_of_isWord (named.2 c mem)
  dot := named.not_mem (by decide)
  comma := named.not_mem (by decide)
  comment mem := named.not_mem (by decide) (List.mem_of_mem_tail mem)

theorem tail_subset_of_isInfix {s : Text} (h : p <:+: s) : p.tail ⊆ s.tail := by
  obtain ⟨front, back, rfl⟩ := h
  cases p with
  | nil => exact List.nil_subset _
  | cons c r =>
    cases front with
    | nil => exact List.subset_append_left r back
    | cons d front =>
      intro x mem
      exact List.mem_append_left _ (List.mem_append_right _ (List.mem_cons_of_mem c mem))

theorem isCutOut_of_mem_linePackages (mem : p ∈ linePackages line) : IsCutOut p := by
  cases found : importClause? (trimStart line) with
  | none => exact isCutOut_of_isWordName (isWordName_of_noClause found mem)
  | some clause =>
    obtain ⟨filled, item, listed, rfl⟩ := (mem_linePackages_clause found).1 mem
    rw [List.splitOn_eq_splitOnP] at listed
    have starts : leadingName item <+: trimStart item := List.takeWhile_prefix _
    have inside : leadingName item <:+: clause :=
      (starts.isInfix.trans (List.dropWhile_suffix isBlank).isInfix).trans
        (isInfix_of_mem_splitOnP listed)
    have signs : ∀ c ∈ leadingName item, isBlank c = false ∧ c ≠ '.' := fun c mem => by
      simpa using List.mem_takeWhile_imp mem
    refine ⟨filled, fun c mem => (signs c mem).1, fun mem => (signs '.' mem).2 rfl, ?_, ?_⟩
    · intro comma
      have noComma := of_mem_splitOnP listed ',' (trimStart_subset item (starts.subset comma))
      cases noComma
    · obtain ⟨r, -, commented⟩ := Option.bind_eq_some_iff.1 found
      exact fun mem => not_mem_tail_upToComment commented (tail_subset_of_isInfix inside mem)

end

/-- What is cut out for a package is never empty and has no blank, dot or comma in it, and a `#` at
most in front. It is a name of word characters for every package exactly if each item of a line that
starts with `import` has, behind the word characters at its start, a blank, a dot or nothing. -/
theorem package_names (source : Text) :
    (∀ p ∈ (packages source).elements, IsCutOut p) ∧
      ((∀ p ∈ (packages source).elements, IsWordName p) ↔
        ∀ line ∈ lines source, ∀ clause, importClause? (trimStart line) = some clause →
          ∀ item ∈ clause.splitOn ',', EndsName item) := by
  refine ⟨fun p mem => ?_, fun named line inText clause found item listed => ?_,
    fun ends p mem => ?_⟩
  · obtain ⟨line, -, inLine⟩ := mem_packages.1 mem
    exact isCutOut_of_mem_linePackages inLine
  · rw [← isWord_leadingName_iff]
    by_cases filled : leadingName item = []
    · rw [filled]
      exact nofun
    · have needed := (mem_linePackages_clause found).2 ⟨filled, item, listed, rfl⟩
      exact (named _ (mem_packages.2 ⟨line, inText, needed⟩)).2
  · obtain ⟨line, inText, inLine⟩ := mem_packages.1 mem
    cases found : importClause? (trimStart line) with
    | none => exact isWordName_of_noClause found inLine
    | some clause =>
      obtain ⟨filled, item, listed, rfl⟩ := (mem_linePackages_clause found).1 inLine
      exact ⟨filled, (isWord_leadingName_iff item).2 (ends line inText clause found item listed)⟩

/-- Two imports on one line, and one that goes on in the next line. -/
def joinedImports : Text := "import os; import sys\nimport re, \\\n    json\n".toList

/-- The signs behind the names are taken into the packages. -/
theorem signs_in_packages :
    (packages joinedImports).elements = ["\\".toList, "os;".toList, "re".toList] ∧
      ¬∀ p ∈ (packages joinedImports).elements, IsWordName p := by
  have listed : (packages joinedImports).elements = ["\\".toList, "os;".toList, "re".toList] := by
    decide
  refine ⟨listed, fun named => ?_⟩
  have word := (named "os;".toList (by rw [listed]; decide)).2 ';' (by decide)
  exact absurd word (by decide)

end SwiftDraft.Script
