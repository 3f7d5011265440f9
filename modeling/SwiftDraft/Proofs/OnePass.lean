import SwiftDraft.Proofs.ScannedHeaders

/-!
# One pass over an expression

An expression is rewritten by eight replacements, one after the other. Together they are one pass
from left to right (`onePass`) that looks at every word once and copies everything else: what a
replacement leaves behind is no word that a later one is after, and it neither joins nor splits
words. For the same reason a second pass finds nothing to do.
-/

namespace SwiftDraft.Draft

open Text
open Script (isWord_of_isBlank isBlank_of_isWord trimStart_append trimStart_eq_nil_iff)

/-- The words that are exchanged by themselves, in the order of the replacements. -/
def substitutes : List (String × String) :=
  [("is", "=="), ("None", "nil"), ("True", "true"), ("False", "false"), ("and", "&&"), ("or", "||")]

/-- What a table has for a word; other words stay. -/
def substitute (table : List (String × String)) (word : Text) : Text :=
  ((lookup? table word).map String.toList).getD word

/-- What follows blanks and the word `not`, if a text starts with these. -/
def afterNot? (s : Text) : Option Text :=
  ((afterGap? s).bind (after? "not")).filter (atWordEnd ·)

theorem afterNot?_eq_some_iff {s t : Text} :
    afterNot? s = some t ↔
      s.head?.any isBlank ∧ trimStart s = "not".toList ++ t ∧ atWordEnd t := by
  unfold afterNot?
  rw [Option.filter_eq_some_iff, Option.bind_eq_some_iff]
  constructor
  · rintro ⟨⟨r, gap, word⟩, ends⟩
    rw [afterGap?, Option.ite_none_right_eq_some] at gap
    rw [← Option.some.inj gap.2, after?_eq_some_iff] at word
    exact ⟨gap.1, word, ends⟩
  · rintro ⟨gap, word, ends⟩
    exact ⟨⟨trimStart s, if_pos gap, after?_eq_some_iff.2 word⟩, ends⟩

theorem length_afterNot?_le (s : Text) : ((afterNot? s).getD []).length ≤ s.length := by
  cases found : afterNot? s with
  | none => exact Nat.zero_le _
  | some t =>
    have start : (trimStart s).length ≤ s.length := (List.dropWhile_suffix isBlank).length_le
    rw [(afterNot?_eq_some_iff.1 found).2.1, List.length_append] at start
    simp only [Option.getD_some]
    omega

/-- The words of a text exchanged from left to right. -/
def onePass : Text → Text
  | [] => []
  | c :: r =>
    if isWord c then
      let word := c :: r.takeWhile isWord
      let rest := r.dropWhile isWord
      if word = "is".toList ∧ (afterNot? rest).isSome then
        "!=".toList ++ onePass ((afterNot? rest).getD [])
      else if word = "not".toList then '!' :: onePass (trimStart rest)
      else substitute substitutes word ++ onePass rest
    else c :: onePass r
  termination_by s => s.length
  decreasing_by
    all_goals
      have shorter : (r.dropWhile isWord).length ≤ r.length :=
        (List.dropWhile_suffix isWord).length_le
      have gap : (trimStart (r.dropWhile isWord)).length ≤ (r.dropWhile isWord).length :=
        (List.dropWhile_suffix isBlank).length_le
      have behind := length_afterNot?_le (r.dropWhile isWord)
      simp only [List.length_cons]
      omega

section

variable {c : Char} {r w rest : Text}

theorem onePass_nil : onePass [] = [] := by rw [onePass]

theorem onePass_sign (sign : isWord c = false) (r : Text) : onePass (c :: r) = c :: onePass r := by
  rw [onePass, if_neg (by simp [sign])]

theorem onePass_word (named : IsWordName w) (ends : atWordEnd rest) :
    onePass (w ++ rest) =
      if w = "is".toList ∧ (afterNot? rest).isSome then
        "!=".toList ++ onePass ((afterNot? rest).getD [])
      else if w = "not".toList then '!' :: onePass (trimStart rest)
      else substitute substitutes w ++ onePass rest := by
  obtain ⟨filled, word⟩ := named
  obtain ⟨c, w, rfl⟩ := List.exists_cons_of_ne_nil filled
  obtain ⟨starts, further⟩ := List.forall_mem_cons.1 word
  obtain ⟨front, back⟩ := span_word further ends
  rw [List.cons_append, onePass, if_pos starts]
  simp only [front, back]

theorem exists_word (starts : isWord c) (r : Text) :
    ∃ w rest, c :: r = w ++ rest ∧ IsWordName w ∧ atWordEnd rest ∧ rest.length ≤ r.length := by
  refine ⟨c :: r.takeWhile isWord, r.dropWhile isWord, ?_, ?_, ?_, ?_⟩
  · rw [List.cons_append, List.takeWhile_append_dropWhile]
  · exact ⟨List.cons_ne_nil _ _,
      List.forall_mem_cons.2 ⟨starts, fun _ mem => List.mem_takeWhile_imp mem⟩⟩
  · have first := List.head?_dropWhile_not isWord r
    cases shape : r.dropWhile isWord with
    | nil => rfl
    | cons d t => simpa [shape, atWordEnd] using first
  · exact (List.dropWhile_suffix isWord).length_le

/-- Induction over a text by its signs and whole words. Behind a word, any text that is no longer
than what follows may be assumed. -/
theorem word_induction {motive : Text → Prop} (nil : motive [])
    (sign : ∀ c r, isWord c = false → motive r → motive (c :: r))
    (word : ∀ w rest, IsWordName w → atWordEnd rest →
      (∀ t : Text, t.length ≤ rest.length → motive t) → motive (w ++ rest)) (s : Text) :
    motive s := by
  induction size : s.length using Nat.strong_induction_on generalizing s with
  | _ n ih =>
    subst size
    cases s with
    | nil => exact nil
    | cons c r =>
      by_cases starts : isWord c
      · obtain ⟨w, rest, whole, named, ends, shorter⟩ := exists_word starts r
        rw [whole]
        apply word w rest named ends
        intro t short
        exact ih t.length (by simp only [List.length_cons]; omega) t rfl
      · exact sign c r (by simpa using starts) (ih r.length (Nat.lt_succ_self _) r rfl)

theorem runs_append {kind : Bool} (filled : w ≠ []) (alike : ∀ c ∈ w, isWord c = kind)
    (other : ∀ c ∈ rest.head?, isWord c = !kind) : runs (w ++ rest) = w :: runs rest := by
  have single : runs w = [w] := by
    apply List.splitBy_of_isChain filled
    apply List.Pairwise.isChain
    apply List.pairwise_of_forall_mem_list
    intro a inA b inB
    rw [alike a inA, alike b inB, beq_self_eq_true]
  rw [runs, List.splitBy_append]
  · exact congrArg (· ++ _) single
  · intro a last b first
    rw [alike a (List.mem_of_getLast? last), other b first]
    cases kind <;> rfl

theorem runs_word (named : IsWordName w) (ends : atWordEnd rest) :
    runs (w ++ rest) = w :: runs rest := by
  apply runs_append named.1 named.2
  cases rest with
  | nil => exact nofun
  | cons d rest => simpa [atWordEnd] using ends

/-- The run that a sign starts, and the runs without that sign. -/
theorem runs_sign (sign : isWord c = false) (r : Text) :
    ∃ gap t, (∀ d ∈ gap, isWord d = false) ∧ r = gap ++ t ∧ (∀ d ∈ t.head?, isWord d) ∧
      runs (c :: r) = (c :: gap) :: runs t ∧
      runs r = if gap = [] then runs t else gap :: runs t := by
  have plain : ∀ d ∈ r.takeWhile (!isWord ·), isWord d = false := fun d mem => by
    simpa using List.mem_takeWhile_imp mem
  have next : ∀ d ∈ (r.dropWhile (!isWord ·)).head?, isWord d := by
    intro d first
    have stopped := List.head?_dropWhile_not (!isWord ·) r
    simpa [show _ = some d from first] using stopped
  have whole : r = r.takeWhile (!isWord ·) ++ r.dropWhile (!isWord ·) :=
    List.takeWhile_append_dropWhile.symm
  refine ⟨_, _, plain, whole, next, ?_, ?_⟩
  · conv => lhs; rw [whole]
    exact runs_append (List.cons_ne_nil _ _) (List.forall_mem_cons.2 ⟨sign, plain⟩) next
  · split
    · next none => conv => lhs; rw [whole, none, List.nil_append]
    · next filled =>
      conv => lhs; rw [whole]
      exact runs_append filled plain next

/-- A pass over runs that copies every run of signs, copies every sign. -/
theorem copies_sign (pass : List Text → Text)
    (copies : ∀ gap rs, (∀ d ∈ gap, isWord d = false) → gap ≠ [] →
      pass (gap :: rs) = gap ++ pass rs)
    (sign : isWord c = false) (r : Text) : pass (runs (c :: r)) = c :: pass (runs r) := by
  obtain ⟨gap, t, plain, rfl, -, whole, inner⟩ := runs_sign sign r
  rw [whole, inner, copies _ _ (List.forall_mem_cons.2 ⟨sign, plain⟩) (List.cons_ne_nil _ _)]
  split
  · next none => rw [none, List.singleton_append]
  · next filled => rw [copies _ _ plain filled, List.cons_append]

theorem ne_of_signs {word gap : Text} (named : IsWordName word)
    (plain : ∀ d ∈ gap, isWord d = false) : gap ≠ word := by
  rintro rfl
  obtain ⟨c, mem⟩ := List.exists_mem_of_ne_nil gap named.1
  exact absurd (named.2 c mem) (by simp [plain c mem])

end

/-- A pass that copies signs. -/
structure Copies (pass : Text → Text) : Prop where
  nil : pass [] = []
  sign : ∀ c r, isWord c = false → pass (c :: r) = c :: pass r

namespace Copies

variable {pass : Text → Text} {rest : Text}

theorem signs (h : Copies pass) {gap : Text} (plain : ∀ d ∈ gap, isWord d = false) (rest : Text) :
    pass (gap ++ rest) = gap ++ pass rest := by
  induction gap with
  | nil => rfl
  | cons c gap ih =>
    obtain ⟨sign, further⟩ := List.forall_mem_cons.1 plain
    rw [List.cons_append, h.sign c _ sign, ih further, List.cons_append]

theorem atWordEnd (h : Copies pass) (ends : Text.atWordEnd rest) : Text.atWordEnd (pass rest) := by
  cases rest with
  | nil => rw [h.nil, Text.atWordEnd]
  | cons c rest =>
    have sign : isWord c = false := by simpa [Text.atWordEnd] using ends
    rw [h.sign c rest sign]
    exact ends

end Copies

/-- A pass that copies signs and exchanges each word by itself. -/
structure Wordwise (pass exchange : Text → Text) : Prop extends Copies pass where
  word : ∀ w rest, IsWordName w → atWordEnd rest → pass (w ++ rest) = exchange w ++ pass rest

theorem wordwise_replaceWord {word : String} (key : IsWordName word.toList) (replacement : String) :
    Wordwise (replaceWord word replacement)
      fun w => if w = word.toList then replacement.toList else w := by
  refine ⟨⟨rfl, ?_⟩, ?_⟩
  · intro c r sign
    refine copies_sign (List.flatMap _) (fun gap rs plain _ => ?_) sign r
    rw [List.flatMap_cons, if_neg (ne_of_signs key plain)]
  · intro w rest named ends
    rw [replaceWord, runs_word named ends, List.flatMap_cons]
    rfl

/-- The replacements of a table, one after the other. -/
def replaceEach (table : List (String × String)) (s : Text) : Text :=
  table.foldl (fun s e => replaceWord e.1 e.2 s) s

/-- A table of words, each with signs or with a word that is not in the table. -/
def Independent (table : List (String × String)) : Prop :=
  ∀ e ∈ table, IsWordName e.1.toList ∧
    ((∀ c ∈ e.2.toList, isWord c = false) ∨
      IsWordName e.2.toList ∧ ∀ f ∈ table, f.1.toList ≠ e.2.toList)

theorem substitute_cons (e : String × String) (table : List (String × String)) (w : Text) :
    substitute (e :: table) w = if w = e.1.toList then e.2.toList else substitute table w := by
  unfold substitute lookup?
  rw [List.find?_cons]
  by_cases same : w = e.1.toList
  · simp [same]
  · have other : (e.1.toList == w) = false := beq_eq_false_iff_ne.2 (Ne.symm same)
    rw [other, if_neg same]

theorem substitute_eq_self {table : List (String × String)} {w : Text}
    (absent : ∀ f ∈ table, f.1.toList ≠ w) : substitute table w = w := by
  induction table with
  | nil => rfl
  | cons e table ih =>
    obtain ⟨first, rest⟩ := List.forall_mem_cons.1 absent
    rw [substitute_cons, if_neg (Ne.symm first), ih rest]

/-- Replacing the words of an independent table in turn exchanges each word once. -/
theorem wordwise_replaceEach {table : List (String × String)} (independent : Independent table) :
    Wordwise (replaceEach table) (substitute table) := by
  induction table with
  | nil => exact ⟨⟨rfl, fun _ _ _ => rfl⟩, fun _ _ _ _ => rfl⟩
  | cons e table ih =>
    obtain ⟨⟨key, value⟩, others⟩ := List.forall_mem_cons.1 independent
    have first := wordwise_replaceWord key e.2
    have further : Wordwise (replaceEach table) (substitute table) := by
      refine ih fun f mem => ⟨(others f mem).1, (others f mem).2.imp_right fun word => ?_⟩
      exact ⟨word.1, fun g inTable => word.2 g (List.mem_cons_of_mem e inTable)⟩
    refine ⟨⟨?_, fun c r sign => ?_⟩, fun w rest named ends => ?_⟩
    · exact (congrArg (replaceEach table) first.nil).trans further.nil
    · change replaceEach table (replaceWord e.1 e.2 (c :: r)) = c :: replaceEach table _
      rw [first.sign c r sign, further.sign c _ sign]
    · change replaceEach table (replaceWord e.1 e.2 (w ++ rest)) = _ ++ replaceEach table _
      rw [first.word w rest named ends, substitute_cons]
      split
      · rcases value with signs | ⟨word, absent⟩
        · exact further.signs signs _
        · rw [further.word _ _ word (first.atWordEnd ends), substitute_eq_self]
          exact fun f mem => absent f (List.mem_cons_of_mem e mem)
      · exact further.word w _ named (first.atWordEnd ends)

theorem isWordName_of_all {w : Text} (filled : w.isEmpty = false) (word : w.all isWord) :
    IsWordName w :=
  ⟨List.isEmpty_eq_false_iff.1 filled, List.all_eq_true.1 word⟩

theorem signs_of_all {s : Text} (plain : s.all (!isWord ·)) : ∀ c ∈ s, isWord c = false := by
  simpa using plain

theorem independent_substitutes : Independent substitutes := by
  intro e mem
  simp only [substitutes, List.mem_cons, List.not_mem_nil, or_false] at mem
  rcases mem with rfl | rfl | rfl | rfl | rfl | rfl
  · exact ⟨isWordName_of_all rfl rfl, .inl (signs_of_all rfl)⟩
  · exact ⟨isWordName_of_all rfl rfl, .inr ⟨isWordName_of_all rfl rfl, by decide⟩⟩
  · exact ⟨isWordName_of_all rfl rfl, .inr ⟨isWordName_of_all rfl rfl, by decide⟩⟩
  · exact ⟨isWordName_of_all rfl rfl, .inr ⟨isWordName_of_all rfl rfl, by decide⟩⟩
  · exact ⟨isWordName_of_all rfl rfl, .inl (signs_of_all rfl)⟩
  · exact ⟨isWordName_of_all rfl rfl, .inl (signs_of_all rfl)⟩

section

variable {w rest : Text}

theorem signs_of_blanks {gap : Text} (blanks : ∀ d ∈ gap, isBlank d) :
    ∀ d ∈ gap, isWord d = false :=
  fun d mem => isWord_of_isBlank (blanks d mem)

theorem isWordName_is : IsWordName "is".toList := isWordName_of_all rfl rfl

theorem isWordName_not : IsWordName "not".toList := isWordName_of_all rfl rfl

theorem joinIsNot_cons {a : Text} (other : a ≠ "is".toList) (rs : List Text) :
    joinIsNot (a :: rs) = a :: joinIsNot rs := by
  match rs with
  | [] => rfl
  | [_] => rfl
  | gap :: b :: rest => rw [joinIsNot, if_neg fun found => other found.1]

theorem copies_replaceIsNot : Copies replaceIsNot := by
  refine ⟨rfl, fun c r sign => ?_⟩
  refine copies_sign (fun rs => (joinIsNot rs).flatten) (fun gap rs plain _ => ?_) sign r
  rw [joinIsNot_cons (ne_of_signs isWordName_is plain), List.flatten_cons]

theorem replaceIsNot_word (named : IsWordName w) (ends : atWordEnd rest) (other : w ≠ "is".toList) :
    replaceIsNot (w ++ rest) = w ++ replaceIsNot rest := by
  rw [replaceIsNot, runs_word named ends, joinIsNot_cons other, List.flatten_cons, replaceIsNot]

/-- The words `is` and `not` with blanks between them are replaced together. -/
theorem replaceIsNot_joined {t : Text} (found : afterNot? rest = some t) :
    replaceIsNot ("is".toList ++ rest) = "!=".toList ++ replaceIsNot t := by
  obtain ⟨spaced, word, ends⟩ := afterNot?_eq_some_iff.1 found
  obtain ⟨gap, whole, blanks⟩ := exists_append_trimStart rest
  rw [word] at whole
  have filled : gap ≠ [] := by
    rintro rfl
    rw [whole] at spaced
    exact absurd spaced (show ¬isBlank 'n' by decide)
  have behind : runs rest = gap :: "not".toList :: runs t := by
    have next : ∀ d ∈ ("not".toList ++ t).head?, isWord d = true := by
      rintro d ⟨⟩
      decide
    rw [whole, runs_append filled (signs_of_blanks blanks) next, runs_word isWordName_not ends]
  have wordEnd : atWordEnd rest := by
    obtain ⟨d, gap, rfl⟩ := List.exists_cons_of_ne_nil filled
    rw [whole]
    simp [atWordEnd, isWord_of_isBlank (blanks d List.mem_cons_self)]
  rw [replaceIsNot, runs_word isWordName_is wordEnd, behind, joinIsNot,
    if_pos ⟨rfl, List.all_eq_true.2 blanks, rfl⟩, List.flatten_cons, replaceIsNot]

/-- Without `not` behind it `is` stays. -/
theorem replaceIsNot_alone (ends : atWordEnd rest) (none : afterNot? rest = none) :
    replaceIsNot ("is".toList ++ rest) = "is".toList ++ replaceIsNot rest := by
  rw [replaceIsNot, runs_word isWordName_is ends, replaceIsNot]
  suffices goesOn : joinIsNot ("is".toList :: runs rest) = "is".toList :: joinIsNot (runs rest) by
    rw [goesOn, List.flatten_cons]
  cases rest with
  | nil => rfl
  | cons c r =>
    have sign : isWord c = false := by simpa [atWordEnd] using ends
    obtain ⟨gap, t, plain, rfl, next, whole, -⟩ := runs_sign sign r
    rw [whole]
    cases t with
    | nil => rfl
    | cons d t =>
      obtain ⟨w, further, same, named, wordEnd, -⟩ := exists_word (next d rfl) t
      rw [same, runs_word named wordEnd, joinIsNot, if_neg]
      rintro ⟨-, blanks, rfl⟩
      have blank := List.all_eq_true.1 blanks
      have found : afterNot? (c :: (gap ++ d :: t)) = some further := by
        refine afterNot?_eq_some_iff.2 ⟨blank c List.mem_cons_self, ?_, wordEnd⟩
        rw [← List.cons_append, trimStart_of_blanks blank, same]
        exact trimStart_cons_of_not_blank (by decide) _
      rw [none] at found
      cases found

theorem trimStart_append_visible {s t : Text} (first : ∀ d ∈ t.head?, isBlank d = false) :
    trimStart (s ++ t) = trimStart s ++ t := by
  by_cases filled : trimStart s = []
  · rw [trimStart_of_blanks (trimStart_eq_nil_iff.1 filled), filled, List.nil_append,
      trimStart_eq_self first]
  · exact trimStart_append filled t

theorem tightenNot_cons {a : Text} (other : a ≠ "not".toList) (rs : List Text) :
    tightenNot (a :: rs) = a :: tightenNot rs := by
  cases rs with
  | nil => rw [tightenNot, if_neg other, tightenNot]
  | cons gap rest => rw [tightenNot, if_neg other]

theorem copies_replaceNot : Copies replaceNot := by
  refine ⟨rfl, fun c r sign => ?_⟩
  refine copies_sign (fun rs => (tightenNot rs).flatten) (fun gap rs plain _ => ?_) sign r
  rw [tightenNot_cons (ne_of_signs isWordName_not plain), List.flatten_cons]

theorem replaceNot_word (named : IsWordName w) (ends : atWordEnd rest) (other : w ≠ "not".toList) :
    replaceNot (w ++ rest) = w ++ replaceNot rest := by
  rw [replaceNot, runs_word named ends, tightenNot_cons other, List.flatten_cons, replaceNot]

/-- The blanks behind `not` go with it. -/
theorem replaceNot_not (ends : atWordEnd rest) :
    replaceNot ("not".toList ++ rest) = '!' :: replaceNot (trimStart rest) := by
  cases rest with
  | nil => rfl
  | cons c r =>
    have sign : isWord c = false := by simpa [atWordEnd] using ends
    obtain ⟨gap, t, plain, rfl, next, whole, -⟩ := runs_sign sign r
    have start : trimStart (c :: (gap ++ t)) = trimStart (c :: gap) ++ t :=
      trimStart_append_visible (s := c :: gap) fun d first => by
        by_contra blank
        simp only [Bool.not_eq_false] at blank
        exact absurd (next d first) (by simp [isWord_of_isBlank blank])
    have run : ∀ d ∈ c :: gap, isWord d = false := List.forall_mem_cons.2 ⟨sign, plain⟩
    have signs : ∀ d ∈ trimStart (c :: gap), isWord d = false := fun d mem =>
      run d (trimStart_subset _ mem)
    rw [start, copies_replaceNot.signs signs, replaceNot, runs_word isWordName_not ends, whole,
      tightenNot, if_pos rfl, List.flatten_cons, List.flatten_cons]
    rfl

end

theorem wordwise_substitutes : Wordwise (replaceEach substitutes) (substitute substitutes) :=
  wordwise_replaceEach independent_substitutes

theorem visible_replaceEach {table : List (String × String)}
    (operators : ∀ e ∈ table, e.2.toList.head?.any (!isBlank ·)) {s : Text}
    (visible : ∀ c ∈ s.head?, isBlank c = false) :
    ∀ c ∈ (replaceEach table s).head?, isBlank c = false := by
  induction table generalizing s with
  | nil => exact visible
  | cons e table ih =>
    obtain ⟨first, others⟩ := List.forall_mem_cons.1 operators
    refine ih others (visible_replaceWord ?_ visible)
    cases shape : e.2.toList with
    | nil => simp [shape] at first
    | cons c r => exact ⟨c, r, rfl, by simpa [shape] using first⟩

/-- The blanks in front stay in front of what the other replacements make of a text. -/
theorem trimStart_replaced (s : Text) :
    trimStart (replaceEach substitutes (replaceIsNot s)) =
      replaceEach substitutes (replaceIsNot (trimStart s)) := by
  obtain ⟨gap, whole, blanks⟩ := exists_append_trimStart s
  have joined : ∀ c ∈ (replaceIsNot (trimStart s)).head?, isBlank c = false :=
    (startVisible_joinIsNot (startVisible_runs fun _ => not_isBlank_of_head?_trimStart)).flatten
  have operators : ∀ e ∈ substitutes, e.2.toList.head?.any (!isBlank ·) := by decide
  have first := visible_replaceEach operators joined
  conv => lhs; rw [whole]
  rw [copies_replaceIsNot.signs (signs_of_blanks blanks),
    wordwise_substitutes.signs (signs_of_blanks blanks), trimStart_of_blanks blanks,
    trimStart_eq_self first]

/-- Signs, or a word that no replacement is about. -/
def IsSettled (t : Text) : Prop :=
  (∀ c ∈ t, isWord c = false) ∨
    IsWordName t ∧ t ≠ "not".toList ∧ ∀ e ∈ substitutes, e.1.toList ≠ t

theorem isSettled_substitute {w : Text} (named : IsWordName w) (other : w ≠ "not".toList) :
    IsSettled (substitute substitutes w) := by
  rcases lookup?_cases substitutes w with ⟨e, mem, -, found⟩ | ⟨absent, none⟩
  · have exchanged : substitute substitutes w = e.2.toList := by rw [substitute, found]; rfl
    rw [exchanged]
    refine (independent_substitutes e mem).2.imp_right fun word => ⟨word.1, ?_, word.2⟩
    have values : ∀ e ∈ substitutes, e.2.toList ≠ "not".toList := by decide
    exact values e mem
  · have kept : substitute substitutes w = w := by rw [substitute, none]; rfl
    rw [kept]
    exact .inr ⟨named, other, fun e mem => Ne.symm (absent e mem)⟩

theorem IsSettled.replaceNot {t rest : Text} (settled : IsSettled t) (ends : atWordEnd rest) :
    replaceNot (t ++ rest) = t ++ Draft.replaceNot rest := by
  rcases settled with signs | ⟨named, other, -⟩
  · exact copies_replaceNot.signs signs rest
  · exact replaceNot_word named ends other

/-- The replacements, one after the other, are one pass. -/
theorem replaceNot_replaceEach (s : Text) :
    replaceNot (replaceEach substitutes (replaceIsNot s)) = onePass s := by
  induction s using word_induction with
  | nil => rw [onePass_nil]; rfl
  | sign c r sign ih =>
    rw [copies_replaceIsNot.sign c r sign, wordwise_substitutes.sign c _ sign,
      copies_replaceNot.sign c _ sign, ih, onePass_sign sign]
  | word w rest named ends ih =>
    have behind : atWordEnd (replaceIsNot rest) := copies_replaceIsNot.atWordEnd ends
    have exchanged (other : w ≠ "not".toList) :
        replaceNot (replaceEach substitutes (w ++ replaceIsNot rest)) =
          substitute substitutes w ++ onePass rest := by
      rw [wordwise_substitutes.word w _ named behind, (isSettled_substitute named other).replaceNot
        (wordwise_substitutes.atWordEnd behind), ih rest (Nat.le_refl _)]
    rw [onePass_word named ends]
    by_cases is : w = "is".toList
    · subst is
      cases found : afterNot? rest with
      | some t =>
        have signs : ∀ c ∈ "!=".toList, isWord c = false := signs_of_all rfl
        have short := length_afterNot?_le rest
        rw [found] at short
        rw [replaceIsNot_joined found, wordwise_substitutes.signs signs,
          copies_replaceNot.signs signs, ih t short, if_pos ⟨rfl, rfl⟩]
        rfl
      | none =>
        rw [replaceIsNot_alone ends found, exchanged (by decide), if_neg (by simp),
          if_neg (by decide)]
    · rw [replaceIsNot_word named ends is, if_neg fun both => is both.1]
      by_cases not : w = "not".toList
      · subst not
        have short : (trimStart rest).length ≤ rest.length :=
          (List.dropWhile_suffix isBlank).length_le
        have kept : substitute substitutes "not".toList = "not".toList :=
          substitute_eq_self (by decide)
        rw [wordwise_substitutes.word _ _ named behind, kept,
          replaceNot_not (wordwise_substitutes.atWordEnd behind), trimStart_replaced, ih _ short,
          if_pos rfl]
      · rw [exchanged not, if_neg not]

theorem expression_eq_onePass (e : Text) : expression e = onePass (trim e) := by
  rw [← replaceNot_replaceEach]
  simp only [expression, replaceEach, substitutes, List.foldl_cons, List.foldl_nil]

theorem copies_onePass : Copies onePass := ⟨onePass_nil, fun _ r sign => onePass_sign sign r⟩

theorem IsSettled.onePass {t rest : Text} (settled : IsSettled t) (ends : atWordEnd rest) :
    onePass (t ++ rest) = t ++ Draft.onePass rest := by
  rcases settled with signs | ⟨named, other, absent⟩
  · exact copies_onePass.signs signs rest
  · have noIs : t ≠ "is".toList := fun same => absent ("is", "==") (by decide) same.symm
    rw [onePass_word named ends, if_neg fun both => noIs both.1, if_neg other,
      substitute_eq_self absent]

theorem onePass_onePass (s : Text) : onePass (onePass s) = onePass s := by
  induction s using word_induction with
  | nil => rw [onePass_nil, onePass_nil]
  | sign c r sign ih => rw [onePass_sign sign, onePass_sign sign, ih]
  | word w rest named ends ih =>
    have signs : ∀ c ∈ "!=".toList, isWord c = false := signs_of_all rfl
    rw [onePass_word named ends]
    split
    · rw [copies_onePass.signs signs, ih _ (length_afterNot?_le rest)]
    · split
      · have short : (trimStart rest).length ≤ rest.length :=
          (List.dropWhile_suffix isBlank).length_le
        rw [onePass_sign (by decide), ih _ short]
      · next other =>
        rw [(isSettled_substitute named other).onePass (copies_onePass.atWordEnd ends),
          ih rest (Nat.le_refl _)]

/-- A text that does not end in a blank. -/
def EndsVisible (s : Text) : Prop := ∀ c ∈ s.getLast?, isBlank c = false

namespace EndsVisible

variable {s t : Text}

theorem of_all (visible : s.getLast?.all (!isBlank ·)) : EndsVisible s := by
  intro c last
  rw [Option.mem_def.1 last] at visible
  simpa using visible

theorem append (hs : EndsVisible s) (ht : EndsVisible t) : EndsVisible (s ++ t) := by
  intro c last
  rw [List.getLast?_append] at last
  cases shape : t.getLast? with
  | none => exact hs c (by simpa [shape] using last)
  | some d => exact ht c (by simpa [shape] using last)

theorem suffix (hs : EndsVisible s) (h : t <:+ s) : EndsVisible t := by
  obtain ⟨front, rfl⟩ := h
  intro c last
  exact hs c (by rw [Option.mem_def] at last ⊢; rw [List.getLast?_append, last]; rfl)

end EndsVisible

/-- What a word is exchanged for is filled and ends in a visible character. -/
theorem endsVisible_substitute {w : Text} (named : IsWordName w) :
    substitute substitutes w ≠ [] ∧ EndsVisible (substitute substitutes w) := by
  rcases lookup?_cases substitutes w with ⟨e, mem, -, found⟩ | ⟨-, none⟩
  · have values : ∀ e ∈ substitutes, e.2.toList ≠ [] ∧ e.2.toList.getLast?.all (!isBlank ·) := by
      decide
    rw [substitute, found]
    exact ⟨(values e mem).1, .of_all (values e mem).2⟩
  · rw [substitute, none]
    exact ⟨named.1, fun c last => isBlank_of_isWord (named.2 c (List.mem_of_getLast? last))⟩

theorem onePass_ne_nil {s : Text} (filled : s ≠ []) : onePass s ≠ [] := by
  cases s using word_induction with
  | nil => exact absurd rfl filled
  | sign c r sign =>
    rw [onePass_sign sign]
    exact List.cons_ne_nil _ _
  | word w rest named ends =>
    rw [onePass_word named ends]
    split
    · exact List.cons_ne_nil _ _
    · split
      · exact List.cons_ne_nil _ _
      · exact List.append_ne_nil_of_left_ne_nil (endsVisible_substitute named).1 _

theorem endsVisible_onePass {s : Text} (visible : EndsVisible s) : EndsVisible (onePass s) := by
  induction s using word_induction with
  | nil => rwa [onePass_nil]
  | sign c r sign ih =>
    rw [onePass_sign sign]
    by_cases filled : r = []
    · rwa [filled, onePass_nil, ← filled]
    · intro d last
      rw [List.getLast?_cons_of_ne_nil (onePass_ne_nil filled)] at last
      exact ih (visible.suffix (List.suffix_cons c r)) d last
  | word w rest named ends ih =>
    have behind : EndsVisible rest := visible.suffix (List.suffix_append w rest)
    have operator {o t : Text} (sign : EndsVisible o) (short : t <:+ rest) :
        EndsVisible (o ++ onePass t) :=
      sign.append (ih t short.length_le (behind.suffix short))
    rw [onePass_word named ends]
    split
    · next joined =>
      obtain ⟨t, found⟩ := Option.isSome_iff_exists.1 joined.2
      have word : t <:+ trimStart rest := by
        rw [(afterNot?_eq_some_iff.1 found).2.1]
        exact List.suffix_append _ t
      rw [found]
      exact operator (.of_all rfl) (word.trans (List.dropWhile_suffix isBlank))
    · split
      · exact operator (o := ['!']) (.of_all rfl) (List.dropWhile_suffix isBlank)
      · exact operator (endsVisible_substitute named).2 (List.suffix_refl rest)

/-- An expression is rewritten in one pass over its words from left to right, and rewriting it again
changes nothing. -/
theorem expression_single_pass (e : Text) :
    expression e = onePass (trim e) ∧ expression (expression e) = expression e := by
  refine ⟨expression_eq_onePass e, ?_⟩
  have visible : EndsVisible (expression e) := by
    rw [expression_eq_onePass]
    exact endsVisible_onePass fun _ last => not_isBlank_of_getLast?_trim last
  have trimmed : trim (expression e) = expression e := by
    rw [trim, trimStart_eq_self (visible_expression e), trimEnd_of_getLast? visible]
  rw [expression_eq_onePass (expression e), trimmed]
  conv => lhs; rw [expression_eq_onePass e, onePass_onePass, ← expression_eq_onePass e]

example : expression " x is not  None and not island ".toList = "x !=  nil && !island".toList := by
  decide +kernel

end SwiftDraft.Draft
