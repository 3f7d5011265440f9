import SwiftDraft.Proofs.Splitting
import SwiftDraft.Proofs.Trimmed

/-!
# Written hints

Hints as trees, with the way they are written: names, generic types with their arguments,
quotes around a part and blanks around it. The type of a written hint is put together from the
types of its parts, whatever it is nested in (`text_hintType_of_proper`).
-/

namespace SwiftDraft.Draft

open Text

/-- A hint as it is written. -/
inductive WrittenHint where
  | name (name : Text)
  /-- `path.name[arguments]`, with a dot behind each part of the path. -/
  | generic (path : List Text) (name : Text) (arguments : List WrittenHint)
  | quoted (quote : Char) (inner : WrittenHint)
  | spaced (before : Text) (inner : WrittenHint) (after : Text)

/-- The types of names without arguments. -/
def plainNames : List (String × String) :=
  [("int", "Int"), ("float", "Double"), ("str", "String"), ("bool", "Bool"), ("bytes", "Data"),
    ("list", "[Any]"), ("List", "[Any]"), ("dict", "[String: Any]"), ("Dict", "[String: Any]"),
    ("tuple", "(Any, Any)"), ("Tuple", "(Any, Any)"), ("set", "Set<AnyHashable>"),
    ("Set", "Set<AnyHashable>"), ("None", "Void")]

/-- How a generic type is written in Swift. -/
inductive Container where
  | array
  | set
  | dictionary
  | optional
  | tuple
  deriving DecidableEq, Repr

/-- The generic names that are known. -/
def containerNames : List (String × Container) :=
  [("List", .array), ("list", .array), ("Sequence", .array), ("Iterable", .array),
    ("Set", .set), ("set", .set), ("Dict", .dictionary), ("dict", .dictionary),
    ("Mapping", .dictionary), ("Optional", .optional), ("Tuple", .tuple), ("tuple", .tuple)]

/-- The entry of a table under a name. -/
def lookup? {α : Type} (table : List (String × α)) (name : Text) : Option α :=
  (table.find? fun e => e.1.toList == name).map Prod.snd

def plainText (name : Text) : Text :=
  ((lookup? plainNames name).map String.toList).getD "Any".toList

/-- A generic name with the written types of its arguments. -/
def genericText (name : Text) (arguments : List Text) : Text :=
  match lookup? containerNames name, arguments with
  | some .array, [t] => '[' :: t ++ [']']
  | some .set, [t] => "Set<".toList ++ t ++ ['>']
  | some .dictionary, [k, v] => '[' :: k ++ ": ".toList ++ v ++ [']']
  | some .optional, [t] => t ++ ['?']
  | some .tuple, t :: ts => '(' :: join ", " (t :: ts) ++ [')']
  | _, _ => "Any".toList

namespace WrittenHint

mutual

/-- A hint as a text. -/
def text : WrittenHint → Text
  | name n => n
  | generic path n arguments =>
    path.flatMap (· ++ ['.']) ++ n ++ '[' :: join "," (texts arguments) ++ [']']
  | quoted q a => q :: a.text ++ [q]
  | spaced before a after => before ++ a.text ++ after

def texts : List WrittenHint → List Text
  | [] => []
  | a :: rest => a.text :: texts rest

end

mutual

/-- The Swift type of a hint, from the types of its parts. -/
def swift : WrittenHint → Text
  | name n => plainText n
  | generic _ n arguments => genericText n (swifts arguments)
  | quoted _ a | spaced _ a _ => a.swift

def swifts : List WrittenHint → List Text
  | [] => []
  | a :: rest => a.swift :: swifts rest

end

theorem texts_eq_map (as : List WrittenHint) : texts as = as.map text := by
  induction as with
  | nil => rfl
  | cons a as ih => rw [texts, ih, List.map_cons]

theorem swifts_eq_map (as : List WrittenHint) : swifts as = as.map swift := by
  induction as with
  | nil => rfl
  | cons a as ih => rw [swifts, ih, List.map_cons]

/-- The characters of names: neither blanks nor brackets, quotes or commas. -/
def isNameChar (c : Char) : Bool := !isBlank c && !isStructural c && c != ','

/-- A name, which may have dots in it. -/
def IsName (n : Text) : Prop := n ≠ [] ∧ ∀ c ∈ n, isNameChar c

theorem isName_of_all {n : Text} (filled : n.isEmpty = false) (plain : n.all isNameChar) :
    IsName n :=
  ⟨List.isEmpty_eq_false_iff.1 filled, List.all_eq_true.1 plain⟩

def isSpaced : WrittenHint → Bool
  | spaced .. => true
  | _ => false

/-- A hint of which parts may be quoted, if `quotes` says so; what is quoted has no quotes in
it and no blanks at its ends. -/
inductive Proper : Bool → WrittenHint → Prop
  | name {quotes : Bool} {n : Text} (named : IsName n) : Proper quotes (.name n)
  | generic {quotes : Bool} {path : List Text} {n : Text} {arguments : List WrittenHint}
      (segments : ∀ s ∈ path, IsName s) (named : IsName n) (last : '.' ∉ n)
      (parts : ∀ a ∈ arguments, Proper quotes a) : Proper quotes (.generic path n arguments)
  | quoted {q : Char} {a : WrittenHint} (quote : isQuote q) (tight : a.isSpaced = false)
      (inner : Proper false a) : Proper true (.quoted q a)
  | spaced {quotes : Bool} {before after : Text} {a : WrittenHint} (front : ∀ c ∈ before, isBlank c)
      (back : ∀ c ∈ after, isBlank c) (inner : Proper quotes a) :
      Proper quotes (.spaced before a after)

end WrittenHint

/-- A name is in a table, or none of the table's names. -/
theorem lookup?_cases {α : Type} (table : List (String × α)) (n : Text) :
    (∃ e ∈ table, e.1.toList = n ∧ lookup? table n = some e.2) ∨
      (∀ e ∈ table, n ≠ e.1.toList) ∧ lookup? table n = none := by
  unfold lookup?
  cases found : table.find? fun e => e.1.toList == n with
  | some e =>
    have same := List.find?_some found
    exact Or.inl ⟨e, List.mem_of_find?_eq_some found, by simpa using same, rfl⟩
  | none =>
    refine Or.inr ⟨fun e mem same => ?_, rfl⟩
    have other := List.find?_eq_none.1 found e mem
    simp [same] at other

theorem text_plainType (n : Text) : (plainType n).text = plainText n := by
  rcases lookup?_cases plainNames n with ⟨e, mem, rfl, -⟩ | ⟨absent, none⟩
  · simp only [plainNames, List.mem_cons, List.not_mem_nil, or_false] at mem
    rcases mem with rfl | rfl | rfl | rfl | rfl | rfl | rfl | rfl | rfl | rfl | rfl | rfl | rfl |
      rfl
    all_goals rfl
  · simp only [plainNames, List.forall_mem_cons] at absent
    have unknown : plainType n = .any := by
      simp only [plainType, absent, false_or, if_false]
    rw [unknown, plainText, none]
    rfl

theorem text_genericType (n : Text) (ts : List SwiftType) :
    (genericType n ts).text = genericText n (ts.map SwiftType.text) := by
  rcases lookup?_cases containerNames n with ⟨e, mem, rfl, -⟩ | ⟨absent, none⟩
  · simp only [containerNames, List.mem_cons, List.not_mem_nil, or_false] at mem
    rcases ts with _ | ⟨t, _ | ⟨u, _ | ⟨v, ts⟩⟩⟩
    · rcases mem with rfl | rfl | rfl | rfl | rfl | rfl | rfl | rfl | rfl | rfl | rfl | rfl <;> rfl
    · rcases mem with rfl | rfl | rfl | rfl | rfl | rfl | rfl | rfl | rfl | rfl | rfl | rfl <;> rfl
    · rcases mem with rfl | rfl | rfl | rfl | rfl | rfl | rfl | rfl | rfl | rfl | rfl | rfl <;> rfl
    · rcases mem with rfl | rfl | rfl | rfl | rfl | rfl | rfl | rfl | rfl | rfl | rfl | rfl
      case inr.inr.inr.inr.inr.inr.inr.inr.inr.inr.inl => exact SwiftType.text_tuple _
      case inr.inr.inr.inr.inr.inr.inr.inr.inr.inr.inr => exact SwiftType.text_tuple _
      all_goals rfl
  · simp only [containerNames, List.forall_mem_cons] at absent
    have unknown : genericType n ts = .any := by
      unfold genericType
      simp only [List.any_cons, List.any_nil, beq_eq_decide, absent, decide_false, Bool.or_self,
        Bool.false_eq_true, if_false]
      split <;> rfl
    unfold genericText
    rw [unknown, none]
    rfl

section

variable {s : Text}

theorem trimWhere_of_ends {p : Char → Bool} (first : ∀ c ∈ s.head?, p c = false)
    (last : ∀ c ∈ s.getLast?, p c = false) : trimWhere p s = s := by
  have front : s.dropWhile p = s := by
    cases s with
    | nil => rfl
    | cons c r => exact List.dropWhile_cons_of_neg (by simp [first c rfl])
  have back : s.reverse.dropWhile p = s.reverse := by
    cases shape : s.reverse with
    | nil => rfl
    | cons c r =>
      have at_end : s.getLast? = some c := by
        rw [← List.head?_reverse, shape]
        rfl
      exact List.dropWhile_cons_of_neg (by simp [last c at_end])
  rw [trimWhere, front, back, List.reverse_reverse]

/-- Neither a blank nor a quote. -/
def isSolid (c : Char) : Bool := !isBlank c && !isQuote c

theorem plain_of_isSolid {c : Char} (solid : isSolid c) :
    isBlank c = false ∧ isQuote c = false := by
  simpa [isSolid] using solid

/-- A text that starts and ends with a character that is neither a blank nor a quote. -/
def Tight (s : Text) : Prop := s ≠ [] ∧ (∀ c ∈ s.head?, isSolid c) ∧ ∀ c ∈ s.getLast?, isSolid c

theorem tight_of_ends (filled : s.isEmpty = false) (first : s.head?.all isSolid)
    (last : s.getLast?.all isSolid) : Tight s :=
  ⟨List.isEmpty_eq_false_iff.1 filled, by simpa [Option.all_eq_true] using first,
    by simpa [Option.all_eq_true] using last⟩

theorem Tight.append {t : Text} (front : Tight s) (back : Tight t) (inner : Text) :
    Tight (s ++ inner ++ t) := by
  refine ⟨List.append_ne_nil_of_right_ne_nil _ back.1, ?_, ?_⟩
  · rw [List.append_assoc, List.head?_append_of_ne_nil _ front.1]
    exact front.2.1
  · rw [List.getLast?_append_of_ne_nil _ back.1]
    exact back.2.2

theorem Tight.trimWhere_eq (tight : Tight s) {p : Char → Bool}
    (apart : ∀ c, isSolid c → p c = false) : trimWhere p s = s :=
  trimWhere_of_ends (fun c first => apart c (tight.2.1 c first))
    fun c last => apart c (tight.2.2 c last)

theorem Tight.trim_eq (tight : Tight s) : trim s = s :=
  tight.trimWhere_eq fun _ solid => (plain_of_isSolid solid).1

theorem Tight.unquoted_eq (tight : Tight s) : unquoted s = s := by
  have trimmed : trim s = s := tight.trim_eq
  rw [unquoted, trimmed]
  exact tight.trimWhere_eq fun c solid => (plain_of_isSolid solid).2

theorem Tight.unquoted_quoted (tight : Tight s) {q : Char} (quote : isQuote q) :
    unquoted (q :: s ++ [q]) = s := by
  have visible : isBlank q = false := by
    cases blank : isBlank q with
    | false => rfl
    | true => exact absurd (plain_of_isBlank blank).2.1 (by simp [quote])
  have trimmed : trim (q :: s ++ [q]) = q :: s ++ [q] := by
    apply trimWhere_of_ends (p := isBlank)
    · rintro c ⟨⟩
      exact visible
    · intro c last
      rw [List.getLast?_append_of_ne_nil _ (List.cons_ne_nil q [])] at last
      rw [← Option.some.inj last]
      exact visible
  have inner : trimWhere isQuote s = s :=
    tight.trimWhere_eq fun c solid => (plain_of_isSolid solid).2
  have front : s.dropWhile isQuote = s := by
    obtain ⟨c, r, rfl⟩ := List.exists_cons_of_ne_nil tight.1
    have noQuote := (plain_of_isSolid (tight.2.1 c rfl)).2
    exact List.dropWhile_cons_of_neg (by simp [noQuote])
  have opened : (q :: s ++ [q]).dropWhile isQuote = s ++ [q] := by
    have some_left : (s.dropWhile isQuote).isEmpty = false := by
      rw [front]
      exact List.isEmpty_eq_false_iff.2 tight.1
    rw [List.cons_append, List.dropWhile_cons_of_pos quote, List.dropWhile_append, some_left, front]
    rfl
  rw [unquoted, trimmed, trimWhere, opened, List.reverse_concat, List.dropWhile_cons_of_pos quote]
  rwa [trimWhere, front] at inner

/-- The ends of a type are letters and signs that are neither blanks nor quotes. -/
theorem tight_text (t : SwiftType) : Tight t.text := by
  induction t using SwiftType.induction with
  | plain t mem =>
    simp only [List.mem_cons, List.not_mem_nil, or_false] at mem
    rcases mem with rfl | rfl | rfl | rfl | rfl | rfl | rfl | rfl <;>
      exact tight_of_ends rfl rfl rfl
  | array t ih =>
    rw [SwiftType.text_array]
    exact (tight_of_ends rfl rfl rfl : Tight ['[']).append (tight_of_ends rfl rfl rfl) t.text
  | set t ih =>
    rw [SwiftType.text_set]
    exact (tight_of_ends rfl rfl rfl : Tight "Set<".toList).append (tight_of_ends rfl rfl rfl) t.text
  | dictionary k v ihKey ihValue =>
    have whole := (tight_of_ends rfl rfl rfl : Tight ['[']).append
      (tight_of_ends rfl rfl rfl : Tight [']']) (k.text ++ ": ".toList ++ v.text)
    rw [SwiftType.text_dictionary]
    simpa using whole
  | optional t ih =>
    have whole := ih.append (tight_of_ends rfl rfl rfl : Tight ['?']) []
    rwa [List.append_nil, ← SwiftType.text_optional] at whole
  | tuple ts ih =>
    rw [SwiftType.text_tuple]
    exact (tight_of_ends rfl rfl rfl : Tight ['(']).append (tight_of_ends rfl rfl rfl) _

theorem unquoted_spaced {i j : Text} (front : ∀ c ∈ i, isBlank c) (back : ∀ c ∈ j, isBlank c)
    (s : Text) : unquoted (i ++ s ++ j) = unquoted s := by
  rw [unquoted, trim_append_blanks back, trim_of_blanks front]
  rfl

theorem unquoted_trim (s : Text) : unquoted (trim s) = unquoted s := by
  obtain ⟨i, j, whole, front, back⟩ := exists_blanks_trim s
  conv => rhs; rw [whole]
  exact (unquoted_spaced front back (trim s)).symm

theorem hintType_congr {s t : Text} (same : unquoted s = unquoted t) : hintType s = hintType t := by
  cases parts : genericParts? (unquoted t) with
  | none => rw [hintType_plain parts, hintType_plain (by rw [same]; exact parts), same]
  | some generic =>
    obtain ⟨base, inner⟩ := generic
    rw [hintType_generic parts, hintType_generic (by rw [same]; exact parts)]

end

namespace WrittenHint

theorem plain_of_isNameChar {c : Char} (h : isNameChar c) :
    isBlank c = false ∧ isStructural c = false ∧ c ≠ ',' := by
  simpa [isNameChar, and_assoc] using h

theorem isSolid_of_isNameChar {c : Char} (h : isNameChar c) : isSolid c := by
  obtain ⟨visible, plain, -⟩ := plain_of_isNameChar h
  simp only [isStructural, Bool.or_eq_false_iff] at plain
  simp [isSolid, visible, plain.1.1]

theorem IsName.tight {n : Text} (named : IsName n) : Tight n :=
  ⟨named.1, fun c first => isSolid_of_isNameChar (named.2 c (List.mem_of_head? first)),
    fun c last => isSolid_of_isNameChar (named.2 c (List.mem_of_getLast? last))⟩

theorem IsName.uncut {n : Text} (named : IsName n) (depth : Int) : Uncut depth n := by
  apply Uncut.of_plain
  · intro c mem
    exact (plain_of_isNameChar (named.2 c mem)).2.1
  · intro c mem comma
    exact absurd comma (plain_of_isNameChar (named.2 c mem)).2.2

/-- A name with its path is a name. -/
theorem isName_path {path : List Text} {n : Text} (segments : ∀ s ∈ path, IsName s)
    (named : IsName n) : IsName (path.flatMap (· ++ ['.']) ++ n) := by
  constructor
  · intro empty
    exact named.1 (List.append_eq_nil_iff.1 empty).2
  · intro c mem
    rcases List.mem_append.1 mem with inPath | inName
    · obtain ⟨s, inList, inSegment⟩ := List.mem_flatMap.1 inPath
      rcases List.mem_append.1 inSegment with inS | dot
      · exact (segments s inList).2 c inS
      · rw [List.mem_singleton.1 dot]
        decide
    · exact named.2 c inName

theorem lastSegment_path (path : List Text) {n : Text} (last : '.' ∉ n) :
    lastSegment (path.flatMap (· ++ ['.']) ++ n) = n := by
  have all : ∀ c ∈ n.reverse, decide (c ≠ '.') := by
    intro c mem
    apply decide_eq_true
    rintro rfl
    exact last (List.mem_reverse.1 mem)
  unfold lastSegment
  rcases List.eq_nil_or_concat path with rfl | ⟨front, s, rfl⟩
  · rw [List.flatMap_nil, List.nil_append, List.takeWhile_eq_self_iff.2 all, List.reverse_reverse]
  · -- The dot behind the path stands right in front of the name.
    have split : ((front.concat s).flatMap (· ++ ['.']) ++ n).reverse =
        n.reverse ++ '.' :: (s.reverse ++ (front.flatMap (· ++ ['.'])).reverse) := by
      simp
    rw [split, List.takeWhile_append_of_pos all, List.takeWhile_cons_of_neg (by simp),
      List.append_nil, List.reverse_reverse]

variable {quotes : Bool} {a : WrittenHint}

theorem text_generic (path : List Text) (n : Text) (arguments : List WrittenHint) :
    text (.generic path n arguments) = path.flatMap (· ++ ['.']) ++ n ++
      ('[' :: join "," (arguments.map text) ++ [']']) := by
  rw [text, texts_eq_map, List.append_assoc]

theorem tight_generic {path : List Text} {n : Text} (segments : ∀ s ∈ path, IsName s)
    (named : IsName n) (arguments : List WrittenHint) :
    Tight (text (.generic path n arguments)) := by
  have bracket : Tight [']'] := tight_of_ends rfl rfl rfl
  have whole := (isName_path segments named).tight.append bracket
    ('[' :: join "," (arguments.map text))
  rwa [List.append_assoc, ← text_generic] at whole

theorem Proper.tight (proper : Proper false a) (unspaced : a.isSpaced = false) : Tight a.text := by
  cases proper with
  | name named => exact named.tight
  | generic segments named last parts => exact tight_generic segments named _
  | spaced front back inner => cases unspaced

/-- There is no quote in a hint without quotes. -/
theorem Proper.noQuote (proper : Proper quotes a) (without : quotes = false) :
    ∀ c ∈ a.text, isQuote c = false := by
  have name {n : Text} (named : IsName n) : ∀ c ∈ n, isQuote c = false := by
    intro c mem
    have plain := (plain_of_isNameChar (named.2 c mem)).2.1
    simp only [isStructural, Bool.or_eq_false_iff] at plain
    exact plain.1.1
  have blank {i : Text} (blanks : ∀ c ∈ i, isBlank c) : ∀ c ∈ i, isQuote c = false :=
    fun c mem => (plain_of_isBlank (blanks c mem)).2.1
  induction proper with
  | name named => exact name named
  | generic segments named last parts ih =>
    rw [text_generic]
    intro c mem
    rcases List.mem_append.1 mem with inBase | inBrackets
    · exact name (isName_path segments named) c inBase
    · simp only [List.cons_append, List.mem_cons, List.mem_append, List.not_mem_nil,
        or_false] at inBrackets
      rcases inBrackets with rfl | inList | rfl
      · rfl
      · rcases mem_join inList with comma | ⟨part, inParts, inside⟩
        · rw [List.mem_singleton.1 comma]
          rfl
        · obtain ⟨b, inArguments, rfl⟩ := List.mem_map.1 inParts
          exact ih b inArguments without c inside
      · rfl
  | quoted quote tight inner ih => cases without
  | spaced front back inner ih =>
    intro c mem
    simp only [text, List.mem_append] at mem
    rcases mem with (inFront | inside) | inBack
    · exact blank front c inFront
    · exact ih without c inside
    · exact blank back c inBack

/-- The splitter finds no end of an item inside a hint. -/
theorem Proper.uncut (proper : Proper quotes a) {depth : Int} (inside : 0 ≤ depth) :
    Uncut depth a.text := by
  have blank {i : Text} (blanks : ∀ c ∈ i, isBlank c) (depth : Int) : Uncut depth i := by
    apply Uncut.of_plain
    · intro c mem
      obtain ⟨-, noQuote, noOpening, noClosing⟩ := plain_of_isBlank (blanks c mem)
      simp [isStructural, noQuote, noOpening, noClosing]
    · rintro c mem rfl
      exact absurd (blanks ',' mem) (by decide)
  induction proper generalizing depth with
  | name named => exact named.uncut depth
  | generic segments named last parts ih =>
    rw [text_generic]
    apply ((isName_path segments named).uncut depth).append
    refine Uncut.bracketed (.join ?_ fun part mem => ?_) rfl rfl ⟨rfl, rfl⟩ rfl
    · exact Uncut.singleton rfl fun _ => by omega
    · obtain ⟨b, inArguments, rfl⟩ := List.mem_map.1 mem
      exact ih b inArguments (by omega)
  | quoted quote tight inner ih =>
    apply Uncut.quoted quote
    intro mem
    have noQuote := inner.noQuote rfl _ mem
    rw [quote] at noQuote
    cases noQuote
  | spaced front back inner ih =>
    exact ((blank front depth).append (ih inside)).append (blank back depth)

theorem Proper.shown (proper : Proper quotes a) : ∃ c ∈ a.text, isBlank c = false := by
  induction proper with
  | @name quotes n named =>
    obtain ⟨c, r, rfl⟩ := List.exists_cons_of_ne_nil named.1
    exact ⟨c, List.mem_cons_self, (plain_of_isNameChar (named.2 c List.mem_cons_self)).1⟩
  | generic segments named last parts ih => exact ⟨'[', by simp [text], by decide⟩
  | @quoted q a quote tight inner ih =>
    obtain ⟨c, mem, visible⟩ := ih
    exact ⟨c, by simp [text, mem], visible⟩
  | spaced front back inner ih =>
    obtain ⟨c, mem, visible⟩ := ih
    exact ⟨c, by simp [text, mem], visible⟩

/-- The parts of a written generic type, as they are read. -/
theorem genericParts?_generic {path : List Text} {n : Text} (segments : ∀ s ∈ path, IsName s)
    (named : IsName n) (last : '.' ∉ n) (arguments : List WrittenHint) :
    genericParts? (text (.generic path n arguments)) =
      some (n, join "," (arguments.map text)) := by
  have base := isName_path segments named
  have noBracket : '[' ∉ path.flatMap (· ++ ['.']) ++ n := by
    intro mem
    exact absurd (base.2 '[' mem) (by decide)
  have trimmed : trim (path.flatMap (· ++ ['.']) ++ n) = path.flatMap (· ++ ['.']) ++ n :=
    base.tight.trim_eq
  rw [text_generic, genericParts?, List.cons_append, splitOnce?_append noBracket]
  simp only [List.getLast?_concat, if_true, List.dropLast_concat, trimmed, lastSegment_path _ last]

end WrittenHint

section

variable {quotes : Bool} {a : WrittenHint}

theorem text_hintType_name {n : Text} (named : WrittenHint.IsName n) :
    (hintType n).text = plainText n := by
  have noBracket : '[' ∉ n := fun mem => absurd (named.2 '[' mem) (by decide)
  have plain : genericParts? (unquoted n) = none := by
    rw [named.tight.unquoted_eq, genericParts?, splitOnce?_eq_none noBracket]
  rw [hintType_plain plain, named.tight.unquoted_eq, text_plainType]

/-- The splitter finds the arguments of a generic type. -/
theorem splitTopLevel_arguments {arguments : List WrittenHint}
    (parts : ∀ a ∈ arguments, a.Proper quotes) :
    splitTopLevel (join "," (arguments.map WrittenHint.text)) =
      (arguments.map WrittenHint.text).map trim := by
  apply splitTopLevel_join
  · intro part mem
    obtain ⟨a, inArguments, rfl⟩ := List.mem_map.1 mem
    exact (parts a inArguments).uncut (Int.le_refl 0)
  · intro part mem
    obtain ⟨a, inArguments, rfl⟩ := List.mem_map.1 mem
    exact trim_ne_nil (parts a inArguments).shown

/-- The type of a written hint is put together from the types of its parts: a name has the type
of the table, a known generic name with the right number of arguments is built from their types, and
everything else is `Any`. -/
theorem text_hintType_of_proper (proper : a.Proper quotes) : (hintType a.text).text = a.swift := by
  induction proper with
  | name named => exact text_hintType_name named
  | @generic quotes path n arguments segments named last parts ih =>
    have read := WrittenHint.genericParts?_generic segments named last arguments
    rw [← (WrittenHint.tight_generic segments named arguments).unquoted_eq] at read
    have types : (((arguments.map WrittenHint.text).map trim).map hintType).map SwiftType.text =
        arguments.map WrittenHint.swift := by
      rw [List.map_map, List.map_map, List.map_map]
      apply List.map_congr_left
      intro a inArguments
      change (hintType (trim a.text)).text = a.swift
      rw [hintType_congr (unquoted_trim a.text), ih a inArguments]
    rw [hintType_generic read, splitTopLevel_arguments parts, text_genericType, types,
      WrittenHint.swift, WrittenHint.swifts_eq_map]
  | @quoted q a quote tight inner ih =>
    have same : unquoted (q :: a.text ++ [q]) = unquoted a.text := by
      rw [(inner.tight tight).unquoted_quoted quote, (inner.tight tight).unquoted_eq]
    rw [WrittenHint.text, hintType_congr same, ih]
    rfl
  | @spaced quotes before after a front back inner ih =>
    rw [WrittenHint.text, hintType_congr (unquoted_spaced front back a.text), ih]
    rfl

end

/-- `typing.Dict[ str, "List[int]" ]`. -/
def quotedValue : WrittenHint :=
  .generic ["typing".toList] "Dict".toList
    [.spaced " ".toList (.name "str".toList) [],
      .spaced " ".toList (.quoted '"' (.generic [] "List".toList [.name "int".toList])) " ".toList]

theorem text_hintType_of_quotedValue :
    quotedValue.text = "typing.Dict[ str, \"List[int]\" ]".toList ∧ quotedValue.Proper true ∧
      (hintType quotedValue.text).text = "[String: [Int]]".toList := by
  have list : (WrittenHint.generic [] "List".toList [.name "int".toList]).Proper false := by
    refine .generic nofun (WrittenHint.isName_of_all rfl rfl) (by decide) fun a mem => ?_
    rw [List.mem_singleton.1 mem]
    exact .name (WrittenHint.isName_of_all rfl rfl)
  have blank : ∀ c ∈ " ".toList, isBlank c := List.all_eq_true.1 rfl
  have proper : quotedValue.Proper true := by
    refine .generic (fun s mem => ?_) (WrittenHint.isName_of_all rfl rfl) (by decide)
      fun a mem => ?_
    · rw [List.mem_singleton.1 mem]
      exact WrittenHint.isName_of_all rfl rfl
    · simp only [List.mem_cons, List.not_mem_nil, or_false] at mem
      rcases mem with rfl | rfl
      · exact .spaced blank nofun (.name (WrittenHint.isName_of_all rfl rfl))
      · exact .spaced blank blank (.quoted rfl rfl list)
  exact ⟨rfl, proper, text_hintType_of_proper proper⟩

end SwiftDraft.Draft
