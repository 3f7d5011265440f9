import Mathlib.Data.Option.Basic
import SwiftDraft.Proofs.Pieces
import SwiftDraft.Proofs.Trimmed
import SwiftDraft.Script.Import

/-!
# Lines that import

What the packages of a script have from a line that imports: the first segment of the module it
imports from, unless the import is relative, or those of the modules it imports. The blanks behind a
line make no difference.
-/

namespace SwiftDraft

namespace TextSet

open Text

theorem mem_foldl_insert {t : Text} (ts : List Text) (set : TextSet) :
    t ∈ (ts.foldl insert set).elements ↔ t ∈ set.elements ∨ t ∈ ts := by
  induction ts generalizing set with
  | nil => simp
  | cons u ts ih =>
    rw [List.foldl_cons, ih, insert, mem_insertText, List.mem_cons, or_comm (a := t = u), or_assoc]

theorem mem_ofList {t : Text} {ts : List Text} : t ∈ (ofList ts).elements ↔ t ∈ ts := by
  rw [ofList, mem_foldl_insert]
  simp [empty]

end TextSet

namespace Script

open Text

theorem mem_packages {source t : Text} :
    t ∈ (packages source).elements ↔ ∃ line ∈ lines source, t ∈ linePackages line := by
  rw [packages, TextSet.mem_ofList, List.mem_flatMap]

variable {i s r t : Text}

/-- The code points of blanks. -/
def blankCodes : List Nat :=
  List.range' 9 5 ++ List.range' 0x2000 11 ++
    [0x20, 0x85, 0xA0, 0x1680, 0x2028, 0x2029, 0x202F, 0x205F, 0x3000]

theorem isWord_of_isBlank {c : Char} (h : isBlank c) : isWord c = false := by
  have listed : c.toNat ∈ blankCodes := by
    simp only [isBlank, Bool.or_eq_true, Bool.and_eq_true, decide_eq_true_eq, beq_iff_eq] at h
    simp only [blankCodes, List.mem_append, List.mem_range'_1, List.mem_cons, List.not_mem_nil,
      or_false]
    omega
  have all : ∀ n ∈ blankCodes, isWord (Char.ofNat n) = false := by decide +kernel
  have here := all c.toNat listed
  rwa [Char.ofNat_toNat] at here

theorem isBlank_of_isWord {c : Char} (word : isWord c) : isBlank c = false := by
  by_contra blank
  rw [isWord_of_isBlank (by simpa using blank)] at word
  cases word

theorem after?_append {p : String} (h : after? p s = some r) (i : Text) :
    after? p (s ++ i) = some (r ++ i) := by
  rw [after?_eq_some_iff] at h ⊢
  rw [h, List.append_assoc]

theorem trimStart_append (filled : trimStart s ≠ []) (i : Text) :
    trimStart (s ++ i) = trimStart s ++ i := by
  unfold trimStart at filled ⊢
  rw [List.dropWhile_append, if_neg (by simpa using filled)]

theorem afterGap?_append (h : afterGap? s = some r) (filled : r ≠ []) (i : Text) :
    afterGap? (s ++ i) = some (r ++ i) := by
  rw [afterGap?, Option.ite_none_right_eq_some] at h
  obtain ⟨gap, made⟩ := h
  cases s with
  | nil => cases gap
  | cons c s =>
    have rest := Option.some.inj made
    rw [← rest] at filled
    rw [← rest, afterGap?, trimStart_append filled]
    exact if_pos gap

theorem afterKeyword?_append {keyword : String} (h : afterKeyword? keyword s = some r)
    (filled : r ≠ []) (i : Text) : afterKeyword? keyword (s ++ i) = some (r ++ i) := by
  obtain ⟨t, behind, gap⟩ := Option.bind_eq_some_iff.1 h
  rw [afterKeyword?, after?_append behind, Option.bind_some, afterGap?_append gap filled]

theorem dottedName?_append {name : Text} (h : dottedName? s = some (name, r)) (filled : r ≠ [])
    (i : Text) : dottedName? (s ++ i) = some (name, r ++ i) := by
  cases s with
  | nil => cases h
  | cons c s =>
    rw [dottedName?, Option.ite_none_right_eq_some] at h
    obtain ⟨starts, made⟩ := h
    cases made
    have stops : (s.takeWhile fun d => isWord d || d == '.').length ≠ s.length := by
      intro all
      have whole := congrArg List.length
        (List.takeWhile_append_dropWhile (p := fun d => isWord d || d == '.') (l := s))
      rw [List.length_append, all, Nat.add_eq_left] at whole
      exact filled (List.eq_nil_of_length_eq_zero whole)
    rw [List.cons_append, dottedName?, if_pos starts, List.takeWhile_append, if_neg stops,
      List.dropWhile_append, if_neg (by simpa using filled)]

theorem trimStart_eq_nil_iff : trimStart s = [] ↔ ∀ c ∈ s, isBlank c :=
  List.dropWhile_eq_nil_iff

theorem endsLine_append (blanks : ∀ c ∈ i, isBlank c) (s : Text) :
    endsLine (s ++ i) = endsLine s := by
  unfold endsLine
  cases trimmed : trimStart s with
  | nil =>
    have nothing : trimStart i = [] := trimStart_eq_nil_iff.2 blanks
    rw [trimStart_of_blanks (trimStart_eq_nil_iff.1 trimmed), nothing]
  | cons c r =>
    rw [trimStart_append (by simp [trimmed]), trimmed]
    rfl

theorem upToComment_append (blanks : ∀ c ∈ i, isBlank c) {clause : Text}
    (h : upToComment s = some clause) : upToComment (s ++ i) = some clause := by
  induction s generalizing clause with
  | nil => cases h
  | cons c s ih =>
    rw [upToComment] at h
    rw [List.cons_append, upToComment, endsLine_append blanks]
    split at h
    · next ends => rw [if_pos ends, h]
    · next goesOn =>
      obtain ⟨rest, found, rfl⟩ := Option.map_eq_some_iff.1 h
      rw [if_neg goesOn, ih found, Option.map_some]

theorem importClause?_append (blanks : ∀ c ∈ i, isBlank c) {clause : Text}
    (h : importClause? s = some clause) : importClause? (s ++ i) = some clause := by
  obtain ⟨r, behind, found⟩ := Option.bind_eq_some_iff.1 h
  have filled : r ≠ [] := by
    rintro rfl
    cases found
  rw [importClause?, afterKeyword?_append behind filled, Option.bind_some,
    upToComment_append blanks found]

/-- Neither of two keywords starts with the other. -/
def Apart (p q : String) : Prop := ¬p.toList <+: q.toList ∧ ¬q.toList <+: p.toList

instance (p q : String) : Decidable (Apart p q) := inferInstanceAs (Decidable (_ ∧ _))

theorem after?_eq_none {p q : String} (apart : Apart p q)
    (h : after? p s = some r) : after? q s = none := by
  cases found : after? q s with
  | none => rfl
  | some t =>
    rw [after?_eq_some_iff] at h found
    have first : p.toList <+: s := ⟨r, h.symm⟩
    have second : q.toList <+: s := ⟨t, found.symm⟩
    rcases List.prefix_or_prefix_of_prefix first second with starts | starts
    · exact absurd starts apart.1
    · exact absurd starts apart.2

theorem importClause?_eq_none {p : String} (apart : Apart p "import")
    (h : after? p s = some r) : importClause? s = none := by
  rw [importClause?, afterKeyword?, after?_eq_none apart h]
  rfl

theorem fromImport?_eq_none {p : String} (apart : Apart p "from")
    (h : after? p s = some r) : fromImport? s = none := by
  rw [fromImport?, after?_eq_none apart h]
  rfl

theorem head?_of_takeWhile {p : Char → Bool} (filled : s.takeWhile p ≠ []) : s.head?.any p := by
  cases s with
  | nil => exact absurd rfl filled
  | cons c s =>
    by_cases first : p c
    · exact first
    · exact absurd (List.takeWhile_cons_of_neg first) filled

/-- What `from ..module import names` has in it; the module may be missing. -/
theorem fromImport?_cases {f : FromImport} (h : fromImport? s = some f) :
    ∃ r, after? "from" s = some r ∧ afterGap? r = some (trimStart r) ∧
      f.level = ((trimStart r).takeWhile (· == '.')).length ∧
      (f.module = [] ∨ ∃ u v clause,
        dottedName? (trimStart ((trimStart r).dropWhile (· == '.'))) = some (f.module, u) ∧
        afterGap? u = some v ∧ importClause? v = some clause) := by
  obtain ⟨r, behind, h⟩ := Option.bind_eq_some_iff.1 h
  dsimp only at h
  split at h
  · cases h
  · next gap =>
    refine ⟨r, behind, if_pos (head?_of_takeWhile gap), ?_⟩
    rcases (Option.orElse_eq_some _ _ _).1 h with named | ⟨-, unnamed⟩
    · obtain ⟨⟨module, u⟩, dotted, named⟩ := Option.bind_eq_some_iff.1 named
      obtain ⟨names, listed, made⟩ := Option.bind_eq_some_iff.1 named
      obtain ⟨v, spaced, listed⟩ := Option.bind_eq_some_iff.1 listed
      obtain ⟨clause, found, -⟩ := Option.map_eq_some_iff.1 listed
      cases made
      exact ⟨rfl, Or.inr ⟨u, v, clause, dotted, spaced, found⟩⟩
    · obtain ⟨-, unnamed⟩ := Option.ite_none_right_eq_some.1 unnamed
      obtain ⟨names, -, made⟩ := Option.map_eq_some_iff.1 unnamed
      cases made
      exact ⟨rfl, Or.inl rfl⟩

theorem atWordEnd_append (h : afterGap? s = some t) (i : Text) : atWordEnd (s ++ i) := by
  rw [afterGap?, Option.ite_none_right_eq_some] at h
  obtain ⟨blank, -⟩ := h
  cases s with
  | nil => cases blank
  | cons c s => simp [atWordEnd, isWord_of_isBlank blank]

theorem trimStart_trimStart (s : Text) : trimStart (trimStart s) = trimStart s :=
  List.dropWhile_idempotent ..

section

variable {line : Text} {f : FromImport}

/-- A line is its trimmed text between blanks. -/
theorem exists_trimStart_eq (line : Text) :
    ∃ i, trimStart line = trim line ++ i ∧ ∀ c ∈ i, isBlank c :=
  exists_trimEnd_append (trimStart line)

theorem fromModule?_eq {module u x : Text} (read : afterKeyword? "from" (trimStart line) = some s)
    (dotted : dottedName? s = some (module, u))
    (word : (afterGap? u).bind (after? "import") = some x) (ends : atWordEnd x) :
    fromModule? line = some module := by
  have step : (afterKeyword? "from" (trimStart line)).bind dottedName? = some (module, u) := by
    rw [read, Option.bind_some, dotted]
  unfold fromModule?
  rw [step]
  simp only [Option.bind_eq_bind, Option.bind_some, word, ends, if_true]

/-- The module that a line imports from is the same whichever way it is read. -/
theorem fromModule?_of_fromImport? (h : fromImport? (trim line) = some f) (absolute : f.level = 0)
    (named : f.module ≠ []) : fromModule? line = some f.module := by
  obtain ⟨i, whole, blanks⟩ := exists_trimStart_eq line
  obtain ⟨r, behind, gap, level, nothing | ⟨u, v, clause, dotted, spaced, found⟩⟩ :=
    fromImport?_cases h
  · exact absurd nothing named
  have noDots : (trimStart r).takeWhile (· == '.') = [] :=
    List.eq_nil_of_length_eq_zero (level.symm.trans absolute)
  have start : (trimStart r).dropWhile (· == '.') = trimStart r := by
    have parts := List.takeWhile_append_dropWhile (p := (· == '.')) (l := trimStart r)
    rwa [noDots, List.nil_append] at parts
  rw [start, trimStart_trimStart] at dotted
  obtain ⟨w, keyword, rest⟩ := Option.bind_eq_some_iff.1 found
  obtain ⟨x, word, spaces⟩ := Option.bind_eq_some_iff.1 keyword
  have filledModule : trimStart r ≠ [] := by
    intro empty
    rw [empty] at dotted
    cases dotted
  have filledGap : u ≠ [] := by
    rintro rfl
    cases spaced
  have filledClause : v ≠ [] := by
    rintro rfl
    cases word
  have read : afterKeyword? "from" (trim line) = some (trimStart r) := by
    rw [afterKeyword?, behind, Option.bind_some, gap]
  -- The blanks behind the line stand behind the clause in each of the steps.
  apply fromModule?_eq
  · rw [whole]
    exact afterKeyword?_append read filledModule i
  · exact dottedName?_append dotted filledGap i
  · rw [afterGap?_append spaced filledClause, Option.bind_some]
    exact after?_append word i
  · exact atWordEnd_append spaces i

theorem mem_linePackages_of_module (h : fromImport? (trim line) = some f) (absolute : f.level = 0)
    (needed : firstSegment f.module ≠ []) : firstSegment f.module ∈ linePackages line := by
  have named : f.module ≠ [] := by
    intro empty
    rw [empty] at needed
    exact needed rfl
  rw [linePackages, fromModule?_of_fromImport? h absolute named]
  simp [needed]

/-- A line with a relative import needs no package. -/
theorem linePackages_of_relative (h : fromImport? (trim line) = some f) (relative : 1 ≤ f.level) :
    linePackages line = [] := by
  obtain ⟨i, whole, -⟩ := exists_trimStart_eq line
  obtain ⟨r, behind, gap, level, -⟩ := fromImport?_cases h
  have dots : (trimStart r).takeWhile (· == '.') ≠ [] := by
    intro none
    rw [level, none] at relative
    exact absurd relative (by decide)
  have noModule : fromModule? line = none := by
    have dot := head?_of_takeWhile dots
    cases shape : trimStart r with
    | nil =>
      rw [shape] at dot
      cases dot
    | cons c t =>
      rw [shape] at dot gap
      -- A module does not start with a dot.
      have first : c = '.' := by simpa using dot
      have read : afterKeyword? "from" (trimStart line) = some ('.' :: (t ++ i)) := by
        rw [whole, ← first]
        apply afterKeyword?_append _ (List.cons_ne_nil c t)
        rw [afterKeyword?, behind, Option.bind_some, gap]
      unfold fromModule?
      rw [read]
      rfl
  have noClause : importClause? (trimStart line) = none := by
    rw [whole]
    exact importClause?_eq_none (by decide) (after?_append behind i)
  rw [linePackages, noModule, noClause]

/-- A line with a clause of modules imports from none. -/
theorem fromModule?_eq_none {clause : Text} (h : importClause? (trimStart line) = some clause) :
    fromModule? line = none := by
  obtain ⟨r, keyword, -⟩ := Option.bind_eq_some_iff.1 h
  obtain ⟨u, behind, -⟩ := Option.bind_eq_some_iff.1 keyword
  have other : after? "from" (trimStart line) = none := after?_eq_none (by decide) behind
  unfold fromModule? afterKeyword?
  rw [other]
  rfl

theorem mem_linePackages_of_clause {clause n : Text} (h : importClause? (trim line) = some clause)
    (listed : n ∈ importedItems clause) (needed : firstSegment n ≠ []) :
    firstSegment n ∈ linePackages line := by
  obtain ⟨i, whole, blanks⟩ := exists_trimStart_eq line
  have found : importClause? (trimStart line) = some clause := by
    rw [whole]
    exact importClause?_append blanks h
  rw [linePackages, fromModule?_eq_none found, found]
  exact List.mem_filter.2 ⟨List.mem_map_of_mem listed, by simpa using needed⟩

end

end Script

end SwiftDraft
