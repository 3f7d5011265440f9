import SwiftDraft.Proofs.Brackets
import SwiftDraft.Proofs.WrittenHints

/-!
# Types as words of a grammar

The type of a hint is read off the hint by a recursion that ends for every text (`reads_iff`), and
it is written as a word of a small grammar (`TypeWord`). The words of this grammar can stand in a
header of a draft: their brackets are balanced, and a comma or a colon in them stands in brackets.
-/

namespace SwiftDraft.Draft

open Text

/-- The brackets of types, each with the one that closes it. -/
def typeBrackets : List (Char × Char) := codeBrackets ++ [('<', '>')]

/-- A text behind which the same is awaited as in front of it, whatever that is. -/
def IsNeutral (table : List (Char × Char)) (s : Text) : Prop := ∀ w, awaited table w s = some w

/-- Brackets that keep a text neutral, or characters that are no brackets at all. -/
def Wraps (table : List (Char × Char)) (o c : Char) : Prop :=
  ∀ s, IsNeutral table s → IsNeutral table (o :: s ++ [c])

section

variable {table : List (Char × Char)} {s t : Text} {o c : Char}

namespace IsNeutral

theorem nil : IsNeutral table [] := fun _ => rfl

theorem append (hs : IsNeutral table s) (ht : IsNeutral table t) : IsNeutral table (s ++ t) := by
  intro w
  rw [awaited_append, hs w, Option.bind_some, ht w]

theorem of_plain (plain : s.any (isBracket table) = false) : IsNeutral table s := by
  intro w
  rw [← awaited_filter, List.filter_eq_nil_iff.2 (List.any_eq_false.1 plain)]
  rfl

theorem isBalanced (neutral : IsNeutral table s) : IsBalanced table s := neutral []

theorem join {sep : String} {parts : List Text} (between : IsNeutral table sep.toList)
    (h : ∀ part ∈ parts, IsNeutral table part) : IsNeutral table (Text.join sep parts) :=
  join_induction nil (fun _ _ => append) between h

end IsNeutral

theorem wraps_of_pair (opens : table.lookup o = some c)
    (closes : table.lookup c = none ∧ table.any (·.2 == c)) : Wraps table o c := by
  intro s neutral w
  have last : awaitedNext table (c :: w) c = some w := by
    simp only [awaitedNext, closes.1, if_pos closes.2, if_true]
  have first : awaitedNext table w o = some (c :: w) := by
    simp only [awaitedNext, opens]
  rw [List.cons_append, awaited, first, Option.bind_some, awaited_append, neutral, Option.bind_some,
    awaited, last]
  rfl

theorem wraps_of_plain (opens : isBracket table o = false) (closes : isBracket table c = false) :
    Wraps table o c := by
  intro s neutral
  have front : IsNeutral table [o] := .of_plain (by simpa using opens)
  have back : IsNeutral table [c] := .of_plain (by simpa using closes)
  exact (front.append neutral).append back

end

/-- The names of types without parts. -/
def typeNames : List String := ["Int", "Double", "String", "Bool", "Data", "Any", "Void"]

/-- How a type can be written. -/
inductive TypeWord : Text → Prop
  | name {n : String} (known : n ∈ typeNames) : TypeWord n.toList
  | anySet : TypeWord "Set<AnyHashable>".toList
  | array {t : Text} (element : TypeWord t) : TypeWord ('[' :: t ++ [']'])
  | set {t : Text} (element : TypeWord t) : TypeWord ("Set<".toList ++ t ++ ['>'])
  | dictionary {k v : Text} (key : TypeWord k) (value : TypeWord v) :
      TypeWord ('[' :: k ++ ": ".toList ++ v ++ [']'])
  | optional {t : Text} (wrapped : TypeWord t) : TypeWord (t ++ ['?'])
  | tuple {ts : List Text} (filled : ts ≠ []) (elements : ∀ t ∈ ts, TypeWord t) :
      TypeWord ('(' :: join ", " ts ++ [')'])

/-- What stands between the brackets of types. -/
def typeParts : List String := ["Set", "AnyHashable", "?", ", ", ": "] ++ typeNames

/-- A table that has the brackets of types or some of them. -/
structure SuitsTypes (table : List (Char × Char)) : Prop where
  parts : ∀ part ∈ typeParts, IsNeutral table part.toList
  round : Wraps table '(' ')'
  square : Wraps table '[' ']'
  angle : Wraps table '<' '>'

theorem suitsTypes_codeBrackets : SuitsTypes codeBrackets := by
  have plain : ∀ part ∈ typeParts, part.toList.any (isBracket codeBrackets) = false := by decide
  refine ⟨fun part mem => .of_plain (plain part mem), ?_, ?_, ?_⟩
  · exact wraps_of_pair (by decide) (by decide)
  · exact wraps_of_pair (by decide) (by decide)
  -- Angle brackets are no brackets of code.
  · exact wraps_of_plain (by decide) (by decide)

theorem suitsTypes_typeBrackets : SuitsTypes typeBrackets := by
  have plain : ∀ part ∈ typeParts, part.toList.any (isBracket typeBrackets) = false := by decide
  refine ⟨fun part mem => .of_plain (plain part mem), ?_, ?_, ?_⟩
  · exact wraps_of_pair (by decide) (by decide)
  · exact wraps_of_pair (by decide) (by decide)
  · exact wraps_of_pair (by decide) (by decide)

namespace TypeWord

variable {table : List (Char × Char)} {t : Text}

/-- Each rule of the grammar puts neutral texts together, or brackets around one. -/
theorem isNeutral (word : TypeWord t) (suits : SuitsTypes table) : IsNeutral table t := by
  have part {n : String} (known : n ∈ typeParts) : IsNeutral table n.toList := suits.parts n known
  have set {t : Text} (inner : IsNeutral table t) :
      IsNeutral table ("Set".toList ++ ('<' :: t ++ ['>'])) :=
    (part (by decide)).append (suits.angle t inner)
  induction word with
  | name known => exact part (List.mem_append_right _ known)
  | anySet => exact set (part (n := "AnyHashable") (by decide))
  | array element ih => exact suits.square _ ih
  | set element ih => exact set ih
  | dictionary key value ihKey ihValue =>
    have inside := (ihKey.append (part (n := ": ") (by decide))).append ihValue
    have closed := suits.square _ inside
    simpa using closed
  | optional wrapped ih => exact ih.append (part (n := "?") (by decide))
  | tuple filled elements ih => exact suits.round _ (.join (part (by decide)) ih)

end TypeWord

/-- A comma or a colon. -/
def separates (c : Char) : Bool := c == ',' || c == ':'

/-- Every comma and colon stands in brackets. -/
def IsSheltered (s : Text) : Prop :=
  ∀ front c back, s = front ++ c :: back → separates c →
    ∃ d w, awaited codeBrackets [] front = some (d :: w)

namespace IsSheltered

variable {s t : Text} {o c : Char}

theorem of_plain (plain : s.any separates = false) : IsSheltered s := by
  rintro front c back rfl separator
  exact absurd separator (List.any_eq_false.1 plain c (by simp))

theorem append (neutral : IsNeutral codeBrackets s) (hs : IsSheltered s) (ht : IsSheltered t) :
    IsSheltered (s ++ t) := by
  intro front c back whole separator
  rcases List.append_eq_append_iff.1 whole with ⟨x, rfl, behind⟩ | ⟨x, rfl, behind⟩
  · rw [awaited_append, neutral, Option.bind_some]
    exact ht x c back behind separator
  · cases x with
    | nil =>
      obtain ⟨d, w, none⟩ := ht [] c back behind.symm separator
      cases none
    | cons d x =>
      cases behind
      exact hs front c x rfl separator

/-- Brackets around a neutral text shelter all that is in it. -/
theorem bracketed (neutral : IsNeutral codeBrackets s) (opens : codeBrackets.lookup o = some c)
    (plain : separates o = false ∧ separates c = false) : IsSheltered (o :: s ++ [c]) := by
  intro front d back whole separator
  have other : d ≠ o ∧ d ≠ c := by
    constructor <;> rintro rfl <;> simp [separator] at plain
  cases front with
  | nil => exact absurd (List.cons.inj whole).1.symm other.1
  | cons p front =>
    obtain ⟨rfl, inner⟩ := List.cons.inj whole
    have opened : awaited codeBrackets [] (o :: front) = awaited codeBrackets [c] front := by
      simp only [awaited, awaitedNext, opens, Option.bind_some]
    rcases List.append_eq_append_iff.1 inner with ⟨x, -, behind⟩ | ⟨x, rfl, -⟩
    · have last : d ∈ [c] := behind ▸ List.mem_append_right x List.mem_cons_self
      exact absurd (List.mem_singleton.1 last) other.2
    · have inside := neutral []
      rw [awaited_append] at inside
      obtain ⟨w, starts, -⟩ := Option.bind_eq_some_iff.1 inside
      have framed : awaited codeBrackets [c] front = some (w ++ [c]) := awaited_frame starts [c]
      have filled : w ++ [c] ≠ [] := List.append_ne_nil_of_right_ne_nil w (List.cons_ne_nil c [])
      obtain ⟨e, v, shape⟩ := List.exists_cons_of_ne_nil filled
      exact ⟨e, v, by rw [opened, framed, shape]⟩

end IsSheltered

theorem TypeWord.isSheltered {t : Text} (word : TypeWord t) : IsSheltered t := by
  have neutral {t : Text} (word : TypeWord t) : IsNeutral codeBrackets t :=
    word.isNeutral suitsTypes_codeBrackets
  induction word with
  | name known =>
    have plain : ∀ n ∈ typeNames, n.toList.any separates = false := by decide
    exact .of_plain (plain _ known)
  | anySet => exact .of_plain (by decide)
  | array element ih => exact .bracketed (neutral element) (by decide) (by decide)
  | set element ih =>
    have front : IsNeutral codeBrackets "Set<".toList := .of_plain (by decide)
    refine .append (front.append (neutral element)) (.append front (.of_plain (by decide)) ih) ?_
    exact .of_plain (by decide)
  | dictionary key value ihKey ihValue =>
    have between : IsNeutral codeBrackets ": ".toList := .of_plain (by decide)
    have inside := ((neutral key).append between).append (neutral value)
    have sheltered := IsSheltered.bracketed (o := '[') (c := ']') inside (by decide) (by decide)
    simpa using sheltered
  | optional wrapped ih => exact .append (neutral wrapped) ih (.of_plain (by decide))
  | tuple filled elements ih =>
    have between : IsNeutral codeBrackets ", ".toList := .of_plain (by decide)
    exact .bracketed (.join between fun t mem => neutral (elements t mem)) (by decide) (by decide)

/-- What a hint is turned into, with all that is looked at on the way. -/
inductive Reads : Text → Text → Prop
  | plain {hint : Text} (alone : genericParts? (unquoted hint) = none) :
      Reads hint (plainText (unquoted hint))
  | generic {hint base inner : Text} {types : List Text}
      (parts : genericParts? (unquoted hint) = some (base, inner))
      (count : types.length = (splitTopLevel inner).length)
      (arguments : ∀ e ∈ (splitTopLevel inner).zip types, Reads e.1 e.2) :
      Reads hint (genericText base types)

theorem reads_hintType (hint : Text) : Reads hint (hintType hint).text := by
  induction hint using hintType.induct with
  | case1 hint base inner parts ih =>
    rw [hintType_generic parts, text_genericType, List.map_map]
    apply Reads.generic parts
    · exact List.length_map _
    · intro e mem
      rw [← List.map_prod_left_eq_zip] at mem
      obtain ⟨argument, inside, rfl⟩ := List.mem_map.1 mem
      exact ih argument inside
  | case2 hint alone =>
    rw [hintType_plain alone, text_plainType]
    exact .plain alone

/-- The recursion ends for every hint, and it ends with the type of the hint. -/
theorem reads_iff (hint t : Text) : Reads hint t ↔ t = (hintType hint).text := by
  constructor
  · intro reads
    induction reads with
    | plain alone => rw [hintType_plain alone, text_plainType]
    | @generic hint base inner types parts count arguments ih =>
      have found : types = (splitTopLevel inner).map (SwiftType.text ∘ hintType) := by
        calc types = ((splitTopLevel inner).zip types).map Prod.snd :=
              (List.map_snd_zip count.le).symm
          _ = ((splitTopLevel inner).zip types).map ((SwiftType.text ∘ hintType) ∘ Prod.fst) :=
              List.map_congr_left ih
          _ = (((splitTopLevel inner).zip types).map Prod.fst).map (SwiftType.text ∘ hintType) :=
              List.map_map.symm
          _ = (splitTopLevel inner).map (SwiftType.text ∘ hintType) := by
              rw [List.map_fst_zip count.ge]
      rw [hintType_generic parts, text_genericType, List.map_map, found]
  · rintro rfl
    exact reads_hintType hint

theorem typeWord_plainText (name : Text) : TypeWord (plainText name) := by
  have any : TypeWord "Any".toList := .name (by decide)
  rcases lookup?_cases plainNames name with ⟨e, mem, -, found⟩ | ⟨-, none⟩
  · have values : ∀ e ∈ plainNames, e.2 ∈ typeNames ∨
        e.2 ∈ ["[Any]", "[String: Any]", "(Any, Any)", "Set<AnyHashable>"] := by decide
    rw [plainText, found]
    rcases values e mem with known | composed
    · exact .name known
    · simp only [List.mem_cons, List.not_mem_nil, or_false] at composed
      rcases composed with same | same | same | same <;> rw [same]
      · exact .array any
      · exact .dictionary (.name (n := "String") (by decide)) any
      · have both : ∀ t ∈ ["Any".toList, "Any".toList], TypeWord t :=
          List.forall_mem_cons.2 ⟨any, List.forall_mem_singleton.2 any⟩
        exact .tuple (List.cons_ne_nil _ _) both
      · exact .anySet
  · rw [plainText, none]
    exact any

theorem typeWord_genericText {types : List Text} (words : ∀ t ∈ types, TypeWord t) (name : Text) :
    TypeWord (genericText name types) := by
  unfold genericText
  split
  · next t _ => exact .array (words t List.mem_cons_self)
  · next t _ => exact .set (words t List.mem_cons_self)
  · next k v _ => exact .dictionary (words k (by simp)) (words v (by simp))
  · next t _ => exact .optional (words t List.mem_cons_self)
  · next t ts _ => exact .tuple (List.cons_ne_nil t ts) words
  · exact .name (n := "Any") (by decide)

theorem Reads.typeWord {hint t : Text} (reads : Reads hint t) : TypeWord t := by
  induction reads with
  | plain alone => exact typeWord_plainText _
  | @generic hint base inner types parts count arguments ih =>
    apply typeWord_genericText
    intro t mem
    rw [← List.map_snd_zip count.le] at mem
    obtain ⟨e, inside, rfl⟩ := List.mem_map.1 mem
    exact ih e inside

/-- Braces, quotes, `=` and the characters that break a line. -/
def lineMarks : Text :=
  ['\x7b', '\x7d', '"', '\'', '=', '\n', '\x0b', '\x0c', '\r', '\u0085', '\u2028', '\u2029']

/-- The type of any hint is found in a recursion that ends, and is written as a word of the grammar:
its brackets are balanced, with and without the angle ones, its commas and colons stand in brackets,
and it has no characters that matter to the line it stands in. -/
theorem every_hint_has_type_word (hint : Text) :
    (∀ t, Reads hint t ↔ t = (hintType hint).text) ∧ TypeWord (hintType hint).text ∧
      IsBalanced codeBrackets (hintType hint).text ∧ IsBalanced typeBrackets (hintType hint).text ∧
      IsSheltered (hintType hint).text ∧ ∀ c ∈ lineMarks, c ∉ (hintType hint).text := by
  have word := (reads_hintType hint).typeWord
  have plain : lineMarks.any isTypeChar = false := by decide
  refine ⟨reads_iff hint, word, ?_, ?_, word.isSheltered, fun c mem => ?_⟩
  · exact (word.isNeutral suitsTypes_codeBrackets).isBalanced
  · exact (word.isNeutral suitsTypes_typeBrackets).isBalanced
  · exact not_mem_hintType (by simpa using List.any_eq_false.1 plain c mem) hint

end SwiftDraft.Draft
