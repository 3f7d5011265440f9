import SwiftDraft.Draft.Expression
import SwiftDraft.Draft.Hint
import SwiftDraft.Proofs.Trimmed
import Mathlib.Data.List.SplitBy
import Mathlib.Data.List.TakeWhile

/-!
# What rewriting keeps

Rewriting an expression exchanges words for operators and drops blanks around them: all other
characters stay, in their order (`filter_expression`), and no blank comes to stand in front
(`visible_expression`). A type is written in letters and a few signs,
whatever the hint it was made from (`SwiftType.typeChar_text`).
-/

namespace SwiftDraft.Draft

open Text

section

variable {p : Char → Bool} {s t : Text}

/-- The characters of the words that are replaced, and of what replaces them. -/
def replacementChars : Text := "isnotNoneTrueFalseandor!=niltruefalse&|".toList

/-- A property that neither a replaced character nor a blank of `s` has. -/
structure Unaffected (p : Char → Bool) (s : Text) : Prop where
  words : replacementChars.any p = false
  blanks : ∀ c ∈ s, isBlank c → p c = false

theorem filter_eq_nil_of_subset (h : replacementChars.any p = false)
    (inside : s ⊆ replacementChars) : s.filter p = [] :=
  List.filter_eq_nil_iff.2 fun _ hc => List.any_eq_false.1 h _ (inside hc)

/-- What was kept so far is not affected by what comes next. -/
theorem Unaffected.of_filter_eq (h : Unaffected p s) (same : t.filter p = s.filter p) :
    Unaffected p t := by
  refine ⟨h.words, fun c mem blank => ?_⟩
  by_contra kept
  have inT : c ∈ t.filter p := List.mem_filter.2 ⟨mem, by simpa using kept⟩
  rw [same] at inT
  have inS := List.mem_filter.1 inT
  exact absurd (h.blanks c inS.1 blank) (by simpa using inS.2)

theorem Unaffected.of_subset (h : Unaffected p s) (inside : t ⊆ s) : Unaffected p t :=
  ⟨h.words, fun c mem => h.blanks c (inside mem)⟩

theorem Unaffected.filter_blanks (h : Unaffected p s) (blank : s.all isBlank) :
    s.filter p = [] := by
  refine List.filter_eq_nil_iff.2 fun c mem => ?_
  simp [h.blanks c mem (List.all_eq_true.1 blank c mem)]

theorem Unaffected.filter_trimStart (h : Unaffected p s) : (trimStart s).filter p = s.filter p := by
  have front : (s.takeWhile isBlank).filter p = [] :=
    (h.of_subset (List.takeWhile_subset isBlank)).filter_blanks
      (List.all_eq_true.2 fun c mem => List.mem_takeWhile_imp mem)
  have whole := congrArg (List.filter p) (List.takeWhile_append_dropWhile (p := isBlank) (l := s))
  rw [List.filter_append, front, List.nil_append] at whole
  exact whole

theorem Unaffected.filter_trim (h : Unaffected p s) : (trim s).filter p = s.filter p := by
  have inner : Unaffected p (trimStart s).reverse :=
    h.of_subset fun c mem => List.dropWhile_subset isBlank (List.mem_reverse.1 mem)
  have back := congrArg List.reverse inner.filter_trimStart
  rw [← List.filter_reverse, ← List.filter_reverse, List.reverse_reverse] at back
  exact back.trans h.filter_trimStart

theorem flatten_runs (s : Text) : (runs s).flatten = s := List.flatten_splitBy _ s

theorem Unaffected.filter_exchange (h : Unaffected p s) {word replacement : String}
    (letters : word.toList ⊆ replacementChars) (operator : replacement.toList ⊆ replacementChars)
    (run : Text) :
    (if run = word.toList then replacement.toList else run).filter p = run.filter p := by
  split
  · next same =>
    rw [same, filter_eq_nil_of_subset h.words letters, filter_eq_nil_of_subset h.words operator]
  · rfl

theorem filter_replaceWord (h : Unaffected p s) {word replacement : String}
    (letters : word.toList ⊆ replacementChars) (operator : replacement.toList ⊆ replacementChars) :
    (replaceWord word replacement s).filter p = s.filter p := by
  conv => rhs; rw [← flatten_runs s]
  rw [replaceWord, List.filter_flatMap, List.filter_flatten, ← List.flatMap_def]
  exact List.flatMap_congr fun run _ => h.filter_exchange letters operator run

theorem filter_joinIsNot {rs : List Text} (h : Unaffected p rs.flatten) :
    (joinIsNot rs).flatten.filter p = rs.flatten.filter p := by
  fun_induction joinIsNot rs with
  | case1 a gap b rest found ih =>
    obtain ⟨rfl, blank, rfl⟩ := found
    have inner : Unaffected p gap := h.of_subset fun c mem => by simp [mem]
    have rest := ih (h.of_subset fun c mem => by simp [mem])
    have word (w : String) (inside : w.toList ⊆ replacementChars) : w.toList.filter p = [] :=
      filter_eq_nil_of_subset h.words inside
    simp only [List.flatten_cons, List.filter_append, rest, inner.filter_blanks blank,
      word "is" (by decide), word "not" (by decide), word "!=" (by decide), List.nil_append]
  | case2 a gap b rest other ih =>
    have rest := ih (h.of_subset (List.subset_append_right a _))
    rw [List.flatten_cons, List.filter_append, rest, ← List.filter_append, ← List.flatten_cons]
  | case3 => rfl

theorem filter_tightenNot {rs : List Text} (h : Unaffected p rs.flatten) :
    (tightenNot rs).flatten.filter p = rs.flatten.filter p := by
  fun_induction tightenNot rs with
  | case1 gap rest ih =>
    have inner : Unaffected p gap := h.of_subset fun c mem => by simp [mem]
    have rest := ih (h.of_subset fun c mem => by simp [mem])
    have not : "not".toList.filter p = [] := filter_eq_nil_of_subset h.words (by decide)
    have bang : "!".toList.filter p = [] := filter_eq_nil_of_subset h.words (by decide)
    simp only [List.flatten_cons, List.filter_append, rest, inner.filter_trimStart, not, bang]
  | case2 a gap rest other ih =>
    have rest := ih (h.of_subset (List.subset_append_right a _))
    rw [List.flatten_cons, List.filter_append, rest, ← List.filter_append, ← List.flatten_cons]
  | case3 a =>
    rw [List.flatten_singleton, List.flatten_singleton]
    exact h.filter_exchange (by decide) (by decide) a
  | case4 => rfl

theorem filter_replaceIsNot (h : Unaffected p s) : (replaceIsNot s).filter p = s.filter p := by
  have runs_s := flatten_runs s
  rw [replaceIsNot, filter_joinIsNot (by rwa [runs_s]), runs_s]

theorem filter_replaceNot (h : Unaffected p s) : (replaceNot s).filter p = s.filter p := by
  have runs_s := flatten_runs s
  rw [replaceNot, filter_tightenNot (by rwa [runs_s]), runs_s]

/-- Rewriting keeps the characters that neither belong to a replaced word nor are blank. -/
theorem filter_expression (h : Unaffected p s) : (expression s).filter p = s.filter p := by
  have next {t u : Text} (kept : t.filter p = s.filter p)
      (stage : Unaffected p t → u.filter p = t.filter p) : u.filter p = s.filter p :=
    (stage (h.of_filter_eq kept)).trans kept
  have word {t : Text} (w r : String) (letters : w.toList ⊆ replacementChars)
      (operator : r.toList ⊆ replacementChars) (kept : t.filter p = s.filter p) :
      (replaceWord w r t).filter p = s.filter p :=
    next kept fun inner => filter_replaceWord inner letters operator
  have start : (replaceIsNot (trim s)).filter p = s.filter p :=
    next h.filter_trim filter_replaceIsNot
  have constants := word "False" "false" (by decide) (by decide)
    (word "True" "true" (by decide) (by decide) (word "None" "nil" (by decide) (by decide)
      (word "is" "==" (by decide) (by decide) start)))
  exact next (word "or" "||" (by decide) (by decide) (word "and" "&&" (by decide) (by decide)
    constants)) filter_replaceNot

theorem not_mem_expression {c : Char} (plain : c ∉ replacementChars) (absent : c ∉ s) :
    c ∉ expression s := by
  have other {t : Text} (absent : c ∉ t) : ∀ d ∈ t, (d == c) = false := by
    intro d mem
    exact beq_eq_false_iff_ne.2 fun same => absent (same ▸ mem)
  have words : replacementChars.any (· == c) = false :=
    List.any_eq_false.2 fun d mem => by simp [other plain d mem]
  have kept := filter_expression ⟨words, fun d mem _ => other absent d mem⟩
  have none : s.filter (· == c) = [] := List.filter_eq_nil_iff.2 fun d mem => by
    simp [other absent d mem]
  rw [none, List.filter_eq_nil_iff] at kept
  exact fun mem => kept c mem (beq_self_eq_true c)

end

/-- Runs of which the first starts with a visible character, if there are any. -/
def StartVisible (rs : List Text) : Prop :=
  rs = [] ∨ ∃ c a rest, rs = (c :: a) :: rest ∧ isBlank c = false

theorem StartVisible.flatten {rs : List Text} (h : StartVisible rs) :
    ∀ c ∈ rs.flatten.head?, isBlank c = false := by
  rcases h with rfl | ⟨c, a, rest, rfl, visible⟩
  · exact nofun
  · rintro _ ⟨⟩
    exact visible

theorem startVisible_runs {s : Text} (visible : ∀ c ∈ s.head?, isBlank c = false) :
    StartVisible (runs s) := by
  cases shape : runs s with
  | nil => exact Or.inl rfl
  | cons first rest =>
    have filled : first ≠ [] := by
      rintro rfl
      refine List.nil_notMem_splitBy (r := fun a b => isWord a == isWord b) (l := s) ?_
      change [] ∈ runs s
      rw [shape]
      exact List.mem_cons_self
    obtain ⟨c, a, rfl⟩ := List.exists_cons_of_ne_nil filled
    refine Or.inr ⟨c, a, rest, rfl, visible c ?_⟩
    rw [← flatten_runs s, shape]
    rfl

theorem visible_replaceWord {s : Text} {word replacement : String}
    (operator : ∃ c r, replacement.toList = c :: r ∧ isBlank c = false)
    (visible : ∀ c ∈ s.head?, isBlank c = false) :
    ∀ c ∈ (replaceWord word replacement s).head?, isBlank c = false := by
  rw [replaceWord, List.flatMap_def]
  apply StartVisible.flatten
  rcases startVisible_runs visible with none | ⟨c, a, rest, shape, first⟩
  · rw [none]
    exact Or.inl rfl
  · rw [shape, List.map_cons]
    split
    · obtain ⟨d, r, shown, sign⟩ := operator
      exact Or.inr ⟨d, r, _, by rw [shown], sign⟩
    · exact Or.inr ⟨c, a, _, rfl, first⟩

theorem startVisible_joinIsNot {rs : List Text} (h : StartVisible rs) :
    StartVisible (joinIsNot rs) := by
  fun_cases joinIsNot rs with
  | case1 => exact Or.inr ⟨'!', ['='], _, rfl, by decide⟩
  | case2 a gap b rest other =>
    rcases h with none | ⟨c, r, others, shape, visible⟩
    · cases none
    · cases shape
      exact Or.inr ⟨c, r, _, rfl, visible⟩
  | case3 => exact h

theorem startVisible_tightenNot {rs : List Text} (h : StartVisible rs) :
    StartVisible (tightenNot rs) := by
  fun_cases tightenNot rs with
  | case1 => exact Or.inr ⟨'!', [], _, rfl, by decide⟩
  | case2 a gap rest other =>
    rcases h with none | ⟨c, r, others, shape, visible⟩
    · cases none
    · cases shape
      exact Or.inr ⟨c, r, _, rfl, visible⟩
  | case3 a =>
    split
    · exact Or.inr ⟨'!', [], _, rfl, by decide⟩
    · exact h
  | case4 => exact h

/-- A rewritten expression does not start with a blank. -/
theorem visible_expression (e : Text) : ∀ c ∈ (expression e).head?, isBlank c = false := by
  have start : ∀ c ∈ (replaceIsNot (trim e)).head?, isBlank c = false :=
    (startVisible_joinIsNot (startVisible_runs fun _ => not_isBlank_of_head?_trim)).flatten
  have word {s : Text} (w : String) {r : String} {c : Char} {t : Text} (shape : r.toList = c :: t)
      (sign : isBlank c = false) (visible : ∀ c ∈ s.head?, isBlank c = false) :
      ∀ c ∈ (replaceWord w r s).head?, isBlank c = false :=
    visible_replaceWord ⟨c, t, shape, sign⟩ visible
  have constants := word "False" (r := "false") rfl (by decide) (word "True" (r := "true") rfl
    (by decide) (word "None" (r := "nil") rfl (by decide) (word "is" (r := "==") rfl (by decide)
      start)))
  have words := word "or" (r := "||") rfl (by decide) (word "and" (r := "&&") rfl (by decide)
    constants)
  exact (startVisible_tightenNot (startVisible_runs words)).flatten

/-- The characters that types are written with. -/
def isTypeChar (c : Char) : Bool := c.isAlpha || "[]()<>:, ?".toList.contains c

theorem mem_join {sep : String} {parts : List Text} {c : Char} (h : c ∈ join sep parts) :
    c ∈ sep.toList ∨ ∃ part ∈ parts, c ∈ part := by
  refine join_induction (motive := fun s => c ∈ s → c ∈ sep.toList ∨ ∃ part ∈ parts, c ∈ part)
    nofun ?_ Or.inl ?_ h
  · intro s t hs ht mem
    exact (List.mem_append.1 mem).elim hs ht
  · exact fun part mem inside => Or.inr ⟨part, mem, inside⟩

namespace SwiftType

/-- Induction over a type, the types without parts together. -/
theorem induction {motive : SwiftType → Prop}
    (plain : ∀ t ∈ [int, double, string, bool, data, any, void, anySet], motive t)
    (array : ∀ t, motive t → motive (array t)) (set : ∀ t, motive t → motive (set t))
    (dictionary : ∀ k v, motive k → motive v → motive (dictionary k v))
    (optional : ∀ t, motive t → motive (optional t))
    (tuple : ∀ ts, (∀ t ∈ ts, motive t) → motive (tuple ts)) (t : SwiftType) : motive t := by
  refine @SwiftType.rec motive (fun ts => ∀ t ∈ ts, motive t) ?_ ?_ ?_ ?_ ?_ ?_ ?_ ?_
    array set dictionary optional tuple ?_ ?_ t
  case refine_9 => exact nofun
  case refine_10 => exact fun t ts first rest => List.forall_mem_cons.2 ⟨first, rest⟩
  all_goals exact plain _ (by simp)

theorem text_array (t : SwiftType) : (array t).text = '[' :: t.text ++ [']'] := rfl

theorem text_set (t : SwiftType) : (set t).text = "Set<".toList ++ t.text ++ ['>'] := rfl

theorem text_dictionary (k v : SwiftType) :
    (dictionary k v).text = '[' :: k.text ++ ": ".toList ++ v.text ++ [']'] := rfl

theorem text_optional (t : SwiftType) : (optional t).text = t.text ++ ['?'] := rfl

theorem texts_eq_map (ts : List SwiftType) : texts ts = ts.map text := by
  induction ts with
  | nil => rfl
  | cons t ts ih => exact congrArg (t.text :: ·) ih

theorem text_tuple (ts : List SwiftType) :
    (tuple ts).text = '(' :: join ", " (ts.map text) ++ [')'] := by
  rw [← texts_eq_map]
  rfl

theorem typeChar_text (t : SwiftType) : ∀ c ∈ t.text, isTypeChar c := by
  have sign {a : Text} (h : a.all isTypeChar) : ∀ c ∈ a, isTypeChar c := List.all_eq_true.1 h
  have both {a b : Text} (ha : ∀ c ∈ a, isTypeChar c) (hb : ∀ c ∈ b, isTypeChar c) :
      ∀ c ∈ a ++ b, isTypeChar c := List.forall_mem_append.2 ⟨ha, hb⟩
  induction t using SwiftType.induction with
  | plain t mem =>
    simp only [List.mem_cons, List.not_mem_nil, or_false] at mem
    rcases mem with rfl | rfl | rfl | rfl | rfl | rfl | rfl | rfl <;> exact sign (by decide)
  | array t ih =>
    rw [text_array]
    exact List.forall_mem_cons.2 ⟨rfl, both ih (sign (by decide))⟩
  | set t ih =>
    rw [text_set]
    exact both (both (sign (by decide)) ih) (sign (by decide))
  | dictionary k v ihKey ihValue =>
    rw [text_dictionary]
    have key : ∀ c ∈ '[' :: k.text, isTypeChar c := List.forall_mem_cons.2 ⟨rfl, ihKey⟩
    exact both (both (both key (sign (by decide))) ihValue) (sign (by decide))
  | optional t ih =>
    rw [text_optional]
    exact both ih (sign (by decide))
  | tuple ts ih =>
    rw [text_tuple]
    refine List.forall_mem_cons.2 ⟨rfl, both (fun c mem => ?_) (sign (by decide))⟩
    rcases mem_join mem with sep | ⟨part, inParts, inside⟩
    · exact sign (a := ", ".toList) (by decide) c sep
    · obtain ⟨t, inTs, rfl⟩ := List.mem_map.1 inParts
      exact ih t inTs c inside

theorem not_mem_text {c : Char} (plain : isTypeChar c = false) (t : SwiftType) : c ∉ t.text := by
  intro mem
  rw [typeChar_text t c mem] at plain
  cases plain

end SwiftType

theorem not_mem_hintType {c : Char} (plain : isTypeChar c = false) (hint : Text) :
    c ∉ (hintType hint).text :=
  SwiftType.not_mem_text plain _

end SwiftDraft.Draft
