import SwiftDraft.Proofs.HeaderEnds

/-!
# Targets of assignments

The left side of an assignment is a dotted name with what may stand behind it (`TargetRest`) and
perhaps a hint. `assignmentTarget?_iff` says so of a left side that starts with a given name, and
`assignment?_iff` of a whole line. A line in which something else stands behind the name assigns
nothing (`assignment?_eq_none`).
-/

namespace SwiftDraft.Script

open Text

/-- A character of a dotted name. -/
def inDottedName (c : Char) : Bool := isWord c || c == '.'

/-- An index in brackets, or nothing. -/
def IsIndex (index : Text) : Prop :=
  index = [] ∨ ∃ inside, index = '[' :: inside ++ [']'] ∧ ']' ∉ inside

/-- What may stand behind the name that a target starts with. -/
structure TargetRest where
  /-- The rest of the name. -/
  more : Text
  index : Text
  gap : Text
  /-- Further names, each of them behind a comma. -/
  names : List Text
  dotted : ∀ c ∈ more, inDottedName c
  closed : IsIndex index
  blanks : ∀ c ∈ gap, isBlank c
  named : ∀ n ∈ names, isDottedName (trim n)

namespace TargetRest

/-- What stands behind the index. -/
def further (t : TargetRest) : Text := t.gap ++ t.names.flatMap (',' :: ·)

def text (t : TargetRest) : Text := t.more ++ (t.index ++ t.further)

end TargetRest

/-- A hint as it is written behind a target. -/
def hintText (hint : Option Text) : Text := (hint.map (':' :: ·)).getD []

section

variable {c : Char} {s u name : Text} {names : List Text}

theorem isDottedName_iff :
    isDottedName s ↔ ∃ c r, s = c :: r ∧ startsName c ∧ ∀ d ∈ r, inDottedName d := by
  cases s with
  | nil => simp [isDottedName]
  | cons c r => simp [isDottedName, inDottedName]

theorem inDottedName_of_isDottedName (dotted : isDottedName s) : ∀ c ∈ s, inDottedName c := by
  obtain ⟨c, r, rfl, starts, rest⟩ := isDottedName_iff.1 dotted
  intro d mem
  rcases List.mem_cons.1 mem with rfl | inRest
  · simp [inDottedName, isWord_of_startsName starts]
  · exact rest d inRest

theorem isBlank_of_inDottedName (h : inDottedName c) : isBlank c = false := by
  rw [inDottedName, Bool.or_eq_true] at h
  rcases h with word | dot
  · exact isBlank_of_isWord word
  · rw [eq_of_beq dot]
    decide

theorem inDottedName_of_isBlank (blank : isBlank c) : inDottedName c = false := by
  rw [Bool.eq_false_iff]
  intro inName
  rw [isBlank_of_inDottedName inName] at blank
  cases blank

/-- No sign but the dot stands in a dotted name. -/
theorem ne_of_inDottedName {sign : Char} (other : inDottedName sign = false) (h : inDottedName c) :
    c ≠ sign := by
  rintro rfl
  rw [h] at other
  cases other

theorem dottedName?_of_isDottedName (dotted : isDottedName name) (t : Text) :
    dottedName? (name ++ t) = some (name ++ t.takeWhile inDottedName, t.dropWhile inDottedName) := by
  obtain ⟨c, r, rfl, starts, rest⟩ := isDottedName_iff.1 dotted
  have taken : (r ++ t).takeWhile inDottedName = r ++ t.takeWhile inDottedName :=
    List.takeWhile_append_of_pos rest
  have dropped : (r ++ t).dropWhile inDottedName = t.dropWhile inDottedName :=
    List.dropWhile_append_of_pos rest
  simp only [List.cons_append, dottedName?, starts, if_true, ← taken, ← dropped]
  rfl

theorem takeWhile_eq_of_head? {p : Char → Bool} {t : Text} (all : ∀ d ∈ s, p d)
    (ends : ∀ d ∈ t.head?, p d = false) :
    (s ++ t).takeWhile p = s ∧ (s ++ t).dropWhile p = t := by
  rw [List.takeWhile_append_of_pos all, List.dropWhile_append_of_pos all]
  cases t with
  | nil => simp
  | cons d t => simp [ends d rfl]

theorem splitIndex_append {index : Text} (closed : IsIndex index)
    (apart : ∀ d ∈ u.head?, d ≠ '[') : splitIndex (index ++ u) = (index, u) := by
  rcases closed with rfl | ⟨inside, rfl, absent⟩
  · have noIndex : after? "[" u = none := by
      cases u with
      | nil => rfl
      | cons d u =>
        have other : '[' ≠ d := Ne.symm (apart d rfl)
        simp [after?, List.isPrefixOf?, other]
    rw [List.nil_append, splitIndex, noIndex]
    rfl
  · have opened : after? "[" ('[' :: inside ++ [']'] ++ u) = some (inside ++ ']' :: u) := by
      rw [after?_eq_some_iff]
      simp
    rw [splitIndex, opened, Option.bind_some, splitOnce?_append absent]

theorem isIndex_splitIndex (s : Text) : IsIndex (splitIndex s).1 := by
  unfold splitIndex
  split
  · next inside rest found =>
    obtain ⟨v, -, closes⟩ := Option.bind_eq_some_iff.1 found
    exact Or.inr ⟨inside, rfl, (splitOnce?_eq_some closes).2⟩
  · exact Or.inl rfl

theorem splitOn_flatMap (first : ',' ∉ s) (others : ∀ n ∈ names, ',' ∉ n) :
    (s ++ names.flatMap (',' :: ·)).splitOn ',' = s :: names := by
  induction names generalizing s with
  | nil => simp [List.splitOn_eq_singleton first]
  | cons n names ih =>
    obtain ⟨here, behind⟩ := List.forall_mem_cons.1 others
    rw [List.flatMap_cons, List.cons_append, List.splitOn_append_cons_self_of_not_mem first,
      ih here behind]

theorem intercalate_comma (s : Text) (names : List Text) :
    [','].intercalate (s :: names) = s ++ names.flatMap (',' :: ·) := by
  induction names generalizing s with
  | nil => simp
  | cons n names ih => simp [List.intercalate_cons_cons, ih]

theorem eq_of_splitOn (h : u.splitOn ',' = s :: names) : u = s ++ names.flatMap (',' :: ·) := by
  rw [← intercalate_comma, ← h, List.intercalate_splitOn]

/-- A name between blanks has no signs in it. -/
theorem not_mem_of_named {sign : Char} (dotted : isDottedName (trim s))
    (noName : inDottedName sign = false) (visible : isBlank sign = false) : sign ∉ s := by
  intro mem
  obtain ⟨i, j, whole, front, back⟩ := exists_blanks_trim s
  rw [whole, List.mem_append, List.mem_append] at mem
  rcases mem with (inFront | inName) | inBack
  · rw [front sign inFront] at visible
    cases visible
  · exact ne_of_inDottedName noName (inDottedName_of_isDottedName dotted sign inName) rfl
  · rw [back sign inBack] at visible
    cases visible

end

namespace TargetRest

variable {t : TargetRest} {hint : Option Text}

theorem head?_names {d : Char}
    (h : d ∈ (t.names.flatMap (',' :: ·) ++ hintText hint).head?) : d = ',' ∨ d = ':' := by
  cases names : t.names with
  | cons n ns =>
    rw [names] at h
    exact Or.inl (by simpa using h.symm)
  | nil =>
    rw [names] at h
    cases hint with
    | none => cases h
    | some a => exact Or.inr (by simpa [hintText] using h.symm)

/-- Behind the index stands nothing that belongs to a name or an index. -/
theorem head?_further {d : Char} (h : d ∈ (t.further ++ hintText hint).head?) :
    d ≠ '[' ∧ inDottedName d = false := by
  rw [further, List.append_assoc] at h
  cases gap : t.gap with
  | cons c g =>
    rw [gap] at h
    obtain rfl : c = d := by simpa using h
    have blank : isBlank c := t.blanks c (by simp [gap])
    constructor
    · rintro rfl
      cases blank
    · exact inDottedName_of_isBlank blank
  | nil =>
    rw [gap] at h
    rcases head?_names h with rfl | rfl
    · decide
    · decide

theorem not_mem_further {sign : Char} (noName : inDottedName sign = false)
    (visible : isBlank sign = false) (other : sign ≠ ',') : sign ∉ t.further := by
  rw [further, List.mem_append, List.mem_flatMap, not_or]
  constructor
  · intro inGap
    rw [t.blanks sign inGap] at visible
    cases visible
  · rintro ⟨n, mem, inName⟩
    rcases List.mem_cons.1 inName with comma | inside
    · exact other comma
    · exact not_mem_of_named (t.named n mem) noName visible inside

theorem splitOn_further : t.further.splitOn ',' = t.gap :: t.names := by
  apply splitOn_flatMap
  · intro inGap
    exact absurd (t.blanks ',' inGap) (by decide)
  · intro n mem
    exact not_mem_of_named (t.named n mem) (by decide) (by decide)

theorem trimEnd_text : trimEnd t.text = t.more ++ (t.index ++ trimEnd t.further) := by
  have visible : ∀ c ∈ (t.more ++ t.index).getLast?, isBlank c = false := by
    intro c last
    rcases t.closed with none | ⟨inside, closes, -⟩
    · rw [none, List.append_nil] at last
      exact isBlank_of_inDottedName (t.dotted c (List.mem_of_getLast? last))
    · rw [closes, ← List.append_assoc, List.getLast?_concat] at last
      cases last
      decide
  rw [text, ← List.append_assoc, trimEnd_append_of_getLast? visible, List.append_assoc]

/-- A left side that is put together from these parts is taken apart into them. -/
theorem assignmentTarget?_eq {name : Text} (dotted : isDottedName name)
    (filled : ∀ a ∈ hint, trim a ≠ []) :
    assignmentTarget? (name ++ (t.text ++ hintText hint)) =
      some (name ++ trimEnd t.text, hint.map trim) := by
  have ends : ∀ d ∈ (t.index ++ (t.further ++ hintText hint)).head?, inDottedName d = false := by
    intro d first
    rcases t.closed with none | ⟨inside, opens, -⟩
    · rw [none, List.nil_append] at first
      exact (head?_further first).2
    · obtain rfl : '[' = d := by simpa [opens] using first
      decide
  have parts : t.text ++ hintText hint = t.more ++ (t.index ++ (t.further ++ hintText hint)) := by
    simp [text]
  obtain ⟨taken, dropped⟩ := takeWhile_eq_of_head? t.dotted ends
  have index : splitIndex (t.index ++ (t.further ++ hintText hint)) =
      (t.index, t.further ++ hintText hint) :=
    splitIndex_append t.closed fun d first => (head?_further first).1
  have noColon : ∀ d ∈ t.further, (d ≠ ':' : Bool) := by
    intro d mem
    have other : ':' ∉ t.further := not_mem_further (by decide) (by decide) (by decide)
    simpa using ne_of_mem_of_not_mem mem other
  obtain ⟨front, back⟩ := takeWhile_eq_of_head? noColon (t := hintText hint) (by
    intro d first
    cases hint with
    | none => cases first
    | some a =>
      obtain rfl : ':' = d := by simpa [hintText] using first
      decide)
  have listed : t.gap.all isBlank ∧ t.names.all fun n => isDottedName (trim n) :=
    ⟨List.all_eq_true.2 t.blanks, List.all_eq_true.2 t.named⟩
  rw [assignmentTarget?, dottedName?_of_isDottedName dotted, parts, taken, dropped]
  simp only [Option.bind_eq_bind, Option.bind_some, index, front, back, splitOn_further]
  rw [if_pos listed, trimEnd_text]
  cases hint with
  | none => simp [hintText]
  | some a => simp [hintText, filled a rfl]

end TargetRest

variable {name tail target : Text} {hint : Option Text}

/-- A target that starts with a name can be put together from these parts. -/
theorem exists_targetRest {made : Text × Option Text} (dotted : isDottedName name)
    (found : assignmentTarget? (name ++ tail) = some made) :
    ∃ (t : TargetRest) (written : Option Text), tail = t.text ++ hintText written ∧
      ∀ a ∈ written, trim a ≠ [] := by
  rw [assignmentTarget?, dottedName?_of_isDottedName dotted] at found
  simp only [Option.bind_eq_bind, Option.bind_some] at found
  have indexed := append_splitIndex (tail.dropWhile inDottedName)
  have closed := isIndex_splitIndex (tail.dropWhile inDottedName)
  obtain ⟨index, u, pair⟩ : ∃ index u, splitIndex (tail.dropWhile inDottedName) = (index, u) :=
    ⟨_, _, rfl⟩
  simp only [pair] at found indexed closed
  split at found
  · cases found
  · next first names pieces =>
    split at found
    · next listed =>
      have front := eq_of_splitOn pieces
      have sides := List.takeWhile_append_dropWhile (p := (· ≠ ':')) (l := u)
      let t : TargetRest := ⟨tail.takeWhile inDottedName, index, first, names,
        fun _ mem => List.mem_takeWhile_imp mem, closed, List.all_eq_true.1 listed.1,
        List.all_eq_true.1 listed.2⟩
      have whole : tail = t.text ++ u.dropWhile (· ≠ ':') := by
        have further : t.further = u.takeWhile (· ≠ ':') := front.symm
        rw [TargetRest.text, further, List.append_assoc, List.append_assoc, sides, indexed]
        exact List.takeWhile_append_dropWhile.symm
      split at found
      · next behind =>
        rw [behind] at whole
        exact ⟨t, none, whole, nofun⟩
      · next c a behind =>
        obtain ⟨filled, -⟩ := Option.ite_none_left_eq_some.1 found
        have colon := List.head?_dropWhile_not (· ≠ ':') u
        rw [behind] at whole colon
        obtain rfl : c = ':' := by simpa using colon
        refine ⟨t, some a, whole, ?_⟩
        rintro _ ⟨⟩
        exact filled
    · cases found

/-- A left side that starts with a name is a target exactly if what stands behind the name may
stand there, with a hint that is not blank. -/
theorem assignmentTarget?_iff (dotted : isDottedName name) :
    assignmentTarget? (name ++ tail) = some (target, hint) ↔
      ∃ (t : TargetRest) (written : Option Text), tail = t.text ++ hintText written ∧
        (∀ a ∈ written, trim a ≠ []) ∧ target = name ++ trimEnd t.text ∧
        hint = written.map trim := by
  constructor
  · intro found
    obtain ⟨t, written, rfl, filled⟩ := exists_targetRest dotted found
    rw [TargetRest.assignmentTarget?_eq dotted filled] at found
    cases found
    exact ⟨t, written, rfl, filled, rfl, rfl⟩
  · rintro ⟨t, written, rfl, filled, rfl, rfl⟩
    exact TargetRest.assignmentTarget?_eq dotted filled

section

variable {w r lhs value : Text}

theorem prefix_of_cutAssignment {l b : Text} (noSign : '=' ∉ w)
    (h : cutAssignment (w ++ r) = some (l, b)) : w <+: l := by
  have whole : w ++ r = (l ++ ['=']) ++ b := by
    rw [eq_of_cutAssignmentFrom h]
    simp
  have starts : w <+: (l ++ ['=']) ++ b := whole ▸ List.prefix_append w r
  rcases List.prefix_or_prefix_of_prefix starts (List.prefix_append (l ++ ['=']) b) with
    short | long
  · rcases List.prefix_concat_iff.1 short with rfl | inFront
    · exact absurd (by simp) noSign
    · exact inFront
  · exact absurd (long.subset (by simp)) noSign

theorem prefix_trim {s : Text} (clause : IsClause w) (starts : w <+: s) : w <+: trim s := by
  obtain ⟨t, rfl⟩ := starts
  rw [trim, trimStart_eq_self (clause.first_append t), trimEnd_append_of_getLast? clause.last]
  exact List.prefix_append w _

/-- What stands in front of every `=` belongs to the left side. -/
theorem prefix_of_splitAssignment (clause : IsClause w) (noSign : '=' ∉ w)
    (h : splitAssignment (w ++ r) = some (lhs, value)) : w <+: lhs := by
  obtain ⟨⟨l, b⟩, cut, made⟩ := Option.map_eq_some_iff.1 h
  cases made
  exact prefix_trim clause (prefix_of_cutAssignment noSign cut)

/-- The left side of a line that starts with something visible starts the line. -/
theorem left_prefix_of_splitAssignment {s : Text} (first : ∀ c ∈ s.head?, isBlank c = false)
    (h : splitAssignment s = some (lhs, value)) : lhs <+: s := by
  obtain ⟨⟨l, b⟩, cut, made⟩ := Option.map_eq_some_iff.1 h
  cases made
  have whole := eq_of_cutAssignmentFrom cut
  have front : trimStart l = l := by
    apply trimStart_eq_self
    intro c start
    apply first
    rw [whole, List.head?_append, start]
    rfl
  rw [trim, front]
  exact (trimEnd_prefix_self l).trans (whole ▸ List.prefix_append l _)

theorem isClause_of_ends {s : Text} (filled : s ≠ [])
    (first : ∀ c ∈ s.head?, isBlank c = false) (last : ∀ c ∈ s.getLast?, isBlank c = false) :
    IsClause s := by
  refine ⟨filled, ?_⟩
  rw [trim, trimStart_eq_self first]
  exact trimEnd_of_getLast? last

theorem isBlank_of_mem_isDottedName (dotted : isDottedName name) :
    ∀ c ∈ name, isBlank c = false := fun c mem =>
  isBlank_of_inDottedName (inDottedName_of_isDottedName dotted c mem)

theorem ne_nil_of_isDottedName (dotted : isDottedName name) : name ≠ [] := by
  rintro rfl
  cases dotted

theorem isClause_of_isDottedName (dotted : isDottedName name) : IsClause name := by
  apply isClause_of_ends (ne_nil_of_isDottedName dotted)
  · intro c first
    exact isBlank_of_mem_isDottedName dotted c (List.mem_of_head? first)
  · intro c last
    exact isBlank_of_mem_isDottedName dotted c (List.mem_of_getLast? last)

theorem equals_not_mem_isDottedName (dotted : isDottedName name) : '=' ∉ name := fun mem =>
  ne_of_inDottedName (by decide) (inDottedName_of_isDottedName dotted '=' mem) rfl

theorem assignment?_eq_some {s : Text} {made : Simple} (h : assignment? s = some made) :
    ∃ lhs value target hint, splitAssignment s = some (lhs, value) ∧
      ¬lhs.getLast?.any augments ∧ value ≠ [] ∧ assignmentTarget? lhs = some (target, hint) ∧
      made = .assign target hint value := by
  obtain ⟨⟨lhs, value⟩, sides, h⟩ := Option.bind_eq_some_iff.1 h
  dsimp only at h
  split at h
  · cases h
  · next plain =>
    obtain ⟨⟨target, hint⟩, left, same⟩ := Option.bind_eq_some_iff.1 h
    cases same
    obtain ⟨single, filled⟩ := not_or.1 plain
    exact ⟨lhs, value, target, hint, sides, single, filled, left, rfl⟩

/-- A line that starts with a name assigns exactly if its left side is a target and does not end in
an operator, and something is assigned. -/
theorem assignment?_iff (dotted : isDottedName name) :
    assignment? (name ++ r) = some (.assign target hint value) ↔
      ∃ (t : TargetRest) (written : Option Text),
        splitAssignment (name ++ r) = some (name ++ (t.text ++ hintText written), value) ∧
        ¬(name ++ (t.text ++ hintText written)).getLast?.any augments ∧ value ≠ [] ∧
        (∀ a ∈ written, trim a ≠ []) ∧ target = name ++ trimEnd t.text ∧
        hint = written.map trim := by
  constructor
  · intro found
    obtain ⟨lhs, value, target, hint, sides, single, filled, left, made⟩ :=
      assignment?_eq_some found
    cases made
    obtain ⟨tail, rfl⟩ := prefix_of_splitAssignment (isClause_of_isDottedName dotted)
      (equals_not_mem_isDottedName dotted) sides
    obtain ⟨t, written, rfl, given, parts⟩ := (assignmentTarget?_iff dotted).1 left
    exact ⟨t, written, sides, single, filled, given, parts⟩
  · rintro ⟨t, written, sides, single, filled, given, parts⟩
    have left := (assignmentTarget?_iff dotted).2 ⟨t, written, rfl, given, parts⟩
    rw [assignment?, sides]
    simp only [Option.bind_eq_bind, Option.bind_some, left]
    rw [if_neg (not_or.2 ⟨single, filled⟩)]
    rfl

/-- Something stands in a text that no target goes on with: the first visible character is neither
a comma nor a colon nor `=`, and it stands behind a blank if it belongs to a name or opens an
index. -/
def opensClause (r : Text) : Bool :=
  (trimStart r).head?.any (fun c => !(c == ',' || c == ':' || c == '=')) &&
    r.head?.all fun c => !(inDottedName c || c == '[')

theorem not_targetRest_of_opensClause (opens : opensClause r) (t : TargetRest)
    (written : Option Text) : r ≠ t.text ++ hintText written := by
  rintro rfl
  simp only [opensClause, Bool.and_eq_true, Bool.not_or] at opens
  obtain ⟨sign, start⟩ := opens
  -- The text starts neither with a part of a name nor with an index, so only blanks are in front of
  -- the further names.
  have noMore : t.more = [] := by
    cases more : t.more with
    | nil => rfl
    | cons d m =>
      have inName := t.dotted d (by simp [more])
      simp [TargetRest.text, more, inName] at start
  have noIndex : t.index = [] := by
    rcases t.closed with none | ⟨inside, opened, -⟩
    · exact none
    · simp [TargetRest.text, noMore, opened] at start
  have rest : trimStart (t.text ++ hintText written) =
      t.names.flatMap (',' :: ·) ++ hintText written := by
    rw [TargetRest.text, noMore, noIndex, TargetRest.further, List.nil_append, List.nil_append,
      List.append_assoc, trimStart_of_blanks t.blanks]
    apply trimStart_eq_self
    intro d first
    rcases TargetRest.head?_names first with rfl | rfl
    · decide
    · decide
  rw [rest] at sign
  obtain ⟨d, first, other⟩ := Option.any_eq_true _ _ |>.1 sign
  rcases TargetRest.head?_names first with rfl | rfl
  · cases other
  · cases other

theorem opensClause_append {s : Text} (shown : trimStart s ≠ []) (i : Text) :
    opensClause (s ++ i) = opensClause s := by
  have filled : s ≠ [] := by
    rintro rfl
    exact shown rfl
  rw [opensClause, opensClause, trimStart_append shown, List.head?_append_of_ne_nil _ shown,
    List.head?_append_of_ne_nil _ filled]

/-- A line that starts with a name assigns nothing if something else stands behind it. -/
theorem assignment?_eq_none (dotted : isDottedName name) (opens : opensClause r) :
    assignment? (name ++ r) = none := by
  cases found : assignment? (name ++ r) with
  | none => rfl
  | some made =>
    exfalso
    obtain ⟨lhs, value, target, hint, sides, -, -, left, -⟩ := assignment?_eq_some found
    obtain ⟨gap, whole, blanks⟩ := exists_append_trimStart r
    cases start : trimStart r with
    | nil => simp [opensClause, start] at opens
    | cons c rest =>
      have visible : isBlank c = false := not_isBlank_of_head?_trimStart (s := r) (by simp [start])
      have sign : c ≠ '=' := by
        rintro rfl
        simp [opensClause, start] at opens
      rw [start] at whole
      have clause : IsClause (name ++ (gap ++ [c])) := by
        apply isClause_of_ends
        · simp
        · intro d first
          rw [List.head?_append_of_ne_nil _ (ne_nil_of_isDottedName dotted)] at first
          exact isBlank_of_mem_isDottedName dotted d (List.mem_of_head? first)
        · intro d last
          rw [← List.append_assoc, List.getLast?_concat] at last
          cases last
          exact visible
      have noSign : '=' ∉ name ++ (gap ++ [c]) := by
        have inGap : '=' ∉ gap := fun mem => absurd (blanks '=' mem) (by decide)
        simp [equals_not_mem_isDottedName dotted, inGap, Ne.symm sign]
      have parts : name ++ r = name ++ (gap ++ [c]) ++ rest := by simp [whole]
      rw [parts] at sides
      obtain ⟨tail, rfl⟩ := prefix_of_splitAssignment clause noSign sides
      rw [List.append_assoc] at left
      obtain ⟨t, written, shape, -⟩ := exists_targetRest dotted left
      have shown : trimStart (gap ++ [c]) ≠ [] := by
        rw [trimStart_of_blanks blanks, trimStart_cons_of_not_blank visible]
        exact List.cons_ne_nil c []
      refine not_targetRest_of_opensClause ?_ t written shape
      rw [opensClause_append shown, ← opensClause_append shown rest]
      simpa [whole] using opens

end

end SwiftDraft.Script
