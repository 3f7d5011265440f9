import SwiftDraft.Proofs.Comments
import SwiftDraft.Proofs.HeaderLines
import SwiftDraft.Proofs.Imports

/-!
# Headers and their ends

A header ends in a colon, behind which a comment may stand (`headerEnd`). Its clause is read up to
the first colon that looks like this end. That is never the colon of the comment, but it is a colon
inside the clause if a `#` follows it, also in a string literal (`upToHeaderEnd_append`,
`readClause_eq_self_iff`).
-/

namespace SwiftDraft.Script

open Text

variable {s k e : Text}

/-- The end of a header: a colon, blanks and perhaps a comment. -/
def headerEnd (gap : Text) (comment : Option Text) : Text :=
  ':' :: (gap ++ (comment.map ('#' :: ·)).getD [])

theorem endsHeader_headerEnd {gap : Text} (blanks : ∀ c ∈ gap, isBlank c) (comment : Option Text) :
    endsHeader (headerEnd gap comment) := by
  rw [endsHeader, headerEnd, trimStart_cons_of_not_blank (by decide)]
  change Option.all _ (trimStart (gap ++ _)).head? = true
  rw [trimStart_of_blanks blanks]
  cases comment <;> rfl

/-- Whether a colon stands first, but for blanks, and a `#` behind it, but for blanks. -/
def opensComment (s : Text) : Bool :=
  match trimStart s with
  | ':' :: r => (trimStart r).head? == some '#'
  | _ => false

theorem exists_of_endsHeader (ends : endsHeader k) : ∃ r, trimStart k = ':' :: r := by
  unfold endsHeader at ends
  split at ends
  · next r start => exact ⟨r, start⟩
  · cases ends

theorem trimStart_ne_nil (visible : ∀ c ∈ s.getLast?, isBlank c = false) (filled : s ≠ []) :
    trimStart s ≠ [] := by
  intro blank
  have last := visible _ (List.getLast?_eq_some_getLast filled)
  rw [trimStart_eq_nil_iff.1 blank _ (List.getLast_mem filled)] at last
  cases last

/-- In front of the end of a header nothing ends one but a colon with a `#` behind it. -/
theorem endsHeader_append (visible : ∀ c ∈ s.getLast?, isBlank c = false) (filled : s ≠ [])
    (ends : endsHeader k) : endsHeader (s ++ k) = opensComment s := by
  have shown := trimStart_ne_nil visible filled
  rw [endsHeader, opensComment, trimStart_append shown]
  cases start : trimStart s with
  | nil => exact absurd start shown
  | cons c r =>
    by_cases colon : c = ':'
    · subst colon
      change (trimStart (r ++ k)).head?.all (· == '#') = ((trimStart r).head? == some '#')
      cases next : trimStart r with
      | nil =>
        -- Behind a last colon comes the end itself, which starts with one.
        obtain ⟨t, colon⟩ := exists_of_endsHeader ends
        rw [trimStart_of_blanks (trimStart_eq_nil_iff.1 next), colon]
        rfl
      | cons d t =>
        rw [trimStart_append (by simp [next]), next]
        rfl
    · rw [List.cons_append]
      split
      · next r' same => exact absurd (List.cons.inj same).1 colon
      · split
        · next r' same => exact absurd (List.cons.inj same).1 colon
        · rfl

/-- What is read of a clause: the text in front of the first colon that opens a comment. -/
def readClause : Text → Text
  | [] => []
  | c :: r => if opensComment r then [c] else c :: readClause r

/-- A clause is read up to the end of the header, or to an earlier colon that opens a comment. -/
theorem upToHeaderEnd_append (visible : ∀ c ∈ e.getLast?, isBlank c = false) (filled : e ≠ [])
    (ends : endsHeader k) : upToHeaderEnd (e ++ k) = some (readClause e) := by
  induction e with
  | nil => exact absurd rfl filled
  | cons c r ih =>
    rw [List.cons_append, upToHeaderEnd, readClause]
    cases r with
    | nil => rw [List.nil_append, if_pos ends]; rfl
    | cons d r =>
      have last : ∀ c ∈ (d :: r).getLast?, isBlank c = false := visible
      rw [endsHeader_append last (List.cons_ne_nil d r) ends, ih last (List.cons_ne_nil d r)]
      split <;> rfl

theorem prefix_readClause (e : Text) : readClause e <+: e := by
  induction e with
  | nil => exact List.prefix_rfl
  | cons c r ih =>
    rw [readClause]
    split
    · exact ⟨r, rfl⟩
    · exact List.prefix_cons_inj c |>.2 ih

/-- A `#` follows a colon in the text, with nothing but blanks between them, and the colon does not
stand first. -/
def CommentInside (e : Text) : Prop :=
  ∃ a gap r, e = a ++ ':' :: (gap ++ '#' :: r) ∧ a ≠ [] ∧ ∀ c ∈ gap, isBlank c

theorem opensComment_iff : opensComment s ↔
    ∃ i gap r, s = i ++ ':' :: (gap ++ '#' :: r) ∧ (∀ c ∈ i, isBlank c) ∧ ∀ c ∈ gap, isBlank c := by
  constructor
  · intro opens
    unfold opensComment at opens
    split at opens
    · next t start =>
      obtain ⟨r, hash⟩ := List.head?_eq_some_iff.1 (eq_of_beq opens)
      obtain ⟨i, whole, front⟩ := exists_append_trimStart s
      obtain ⟨gap, behind, blanks⟩ := exists_append_trimStart t
      exact ⟨i, gap, r, by rw [← hash, ← behind, ← start, ← whole], front, blanks⟩
    · cases opens
  · rintro ⟨i, gap, r, rfl, front, blanks⟩
    rw [opensComment, trimStart_of_blanks front, trimStart_cons_of_not_blank (by decide)]
    change ((trimStart (gap ++ '#' :: r)).head? == some '#') = true
    rw [trimStart_of_blanks blanks, trimStart_cons_of_not_blank (by decide)]
    rfl

theorem commentInside_cons {c : Char} {r : Text} :
    CommentInside (c :: r) ↔ opensComment r ∨ CommentInside r := by
  constructor
  · rintro ⟨a, gap, t, whole, filled, blanks⟩
    cases a with
    | nil => exact absurd rfl filled
    | cons d a =>
      obtain ⟨rfl, rest⟩ := List.cons.inj whole
      cases a with
      | nil => exact Or.inl (opensComment_iff.2 ⟨[], gap, t, rest, by simp, blanks⟩)
      | cons d a => exact Or.inr ⟨d :: a, gap, t, rest, List.cons_ne_nil d a, blanks⟩
  · rintro (opens | ⟨a, gap, t, rfl, -, blanks⟩)
    · obtain ⟨i, gap, t, rfl, -, blanks⟩ := opensComment_iff.1 opens
      exact ⟨c :: i, gap, t, rfl, List.cons_ne_nil c i, blanks⟩
    · exact ⟨c :: a, gap, t, rfl, List.cons_ne_nil c a, blanks⟩

theorem not_commentInside_nil : ¬CommentInside [] := by
  rintro ⟨a, gap, r, whole, filled, -⟩
  exact filled (List.append_eq_nil_iff.1 whole.symm).1

/-- A clause is read as a whole unless a colon in it opens a comment. -/
theorem readClause_eq_self_iff : readClause e = e ↔ ¬CommentInside e := by
  induction e with
  | nil => exact iff_of_true rfl not_commentInside_nil
  | cons c r ih =>
    rw [readClause, commentInside_cons, not_or]
    split
    · next opens =>
      have more : r ≠ [] := by
        rintro rfl
        cases opens
      simp [opens, Ne.symm more]
    · next goesOn => simp [goesOn, ih]

theorem comment_of_hash {p : Place} (inCode : s.foldl Place.next p = .code) (r : Text) :
    (splitCommentFrom p (s ++ '#' :: r)).2 ≠ [] := by
  induction s generalizing p with
  | nil =>
    have here : p = .code := inCode
    rw [List.nil_append, splitCommentFrom, if_pos ⟨here, rfl⟩]
    exact List.cons_ne_nil _ _
  | cons c s ih =>
    rw [List.cons_append, splitCommentFrom]
    split
    · exact List.cons_ne_nil _ _
    · exact ih inCode

theorem foldl_next_of_blanks {gap : Text} (blanks : ∀ c ∈ gap, isBlank c) :
    gap.foldl Place.next .code = .code := by
  induction gap with
  | nil => rfl
  | cons c gap ih =>
    have noQuote := (plain_of_isBlank (blanks c List.mem_cons_self)).2.1
    rw [List.foldl_cons, Place.next, if_neg (by simp [noQuote])]
    exact ih fun d mem => blanks d (List.mem_cons_of_mem c mem)

/-- In a text that holds no comment, a colon with a `#` behind it stands in a string literal. -/
theorem inLiteral_of_colon {a gap r : Text} (code : comment (a ++ ':' :: (gap ++ '#' :: r)) = [])
    (blanks : ∀ c ∈ gap, isBlank c) : a.foldl Place.next .code ≠ .code := by
  intro inCode
  have behind : (a ++ ':' :: gap).foldl Place.next .code = .code := by
    rw [List.foldl_append, inCode]
    change gap.foldl Place.next .code = .code
    exact foldl_next_of_blanks blanks
  refine comment_of_hash behind r ?_
  rw [List.append_assoc]
  exact code

/-- A text that can be a clause: there is something in it, and no blanks at its ends. -/
structure IsClause (e : Text) : Prop where
  filled : e ≠ []
  trimmed : trim e = e

namespace IsClause

theorem last (clause : IsClause e) : ∀ c ∈ e.getLast?, isBlank c = false := fun _ mem =>
  not_isBlank_of_getLast?_trim (clause.trimmed.symm ▸ mem)

theorem first_append (clause : IsClause e) (k : Text) :
    ∀ c ∈ (e ++ k).head?, isBlank c = false := by
  rw [List.head?_append_of_ne_nil _ clause.filled]
  exact fun _ mem => not_isBlank_of_head?_trim (clause.trimmed.symm ▸ mem)

end IsClause

theorem span_blank (first : ∀ c ∈ s.head?, isBlank c = false) :
    (' ' :: s).takeWhile isBlank = [' '] ∧ (' ' :: s).dropWhile isBlank = s := by
  have blank : isBlank ' ' := by decide
  rw [List.takeWhile_cons_of_pos blank, List.dropWhile_cons_of_pos blank]
  cases s with
  | nil => exact ⟨rfl, rfl⟩
  | cons c s =>
    have visible : ¬isBlank c := Bool.eq_false_iff.1 (first c rfl)
    rw [List.takeWhile_cons_of_neg visible, List.dropWhile_cons_of_neg visible]
    exact ⟨rfl, rfl⟩

/-- A clause behind a blank and in front of the end of a header. -/
theorem clauseAfter_append (clause : IsClause e) (ends : endsHeader k) :
    clauseAfter 1 (' ' :: (e ++ k)) = some (readClause e) := by
  obtain ⟨gap, rest⟩ := span_blank (clause.first_append k)
  simp only [clauseAfter, gap, rest, upToHeaderEnd_append clause.last clause.filled ends]
  rfl

theorem afterKeyword?_of_head (p : String) (first : ∀ c ∈ s.head?, isBlank c = false) :
    afterKeyword? p (p.toList ++ ' ' :: s) = some s := by
  have behind : after? p (p.toList ++ ' ' :: s) = some (' ' :: s) := after?_eq_some_iff.2 rfl
  have blank : Option.any isBlank (' ' :: s).head? := show isBlank ' ' by decide
  rw [afterKeyword?, behind, Option.bind_some, afterGap?, if_pos blank]
  exact congrArg some (span_blank first).2

/-- A name behind a keyword and a blank. -/
theorem keyword_identifier? (p : String) {name r : Text} (identifier : IsIdentifier name)
    (ends : atWordEnd r) :
    (afterKeyword? p (p.toList ++ ' ' :: (name ++ r))).bind identifier? = some (name, r) := by
  have first : ∀ c ∈ (name ++ r).head?, isBlank c = false := by
    obtain ⟨c, t, rfl, starts, -⟩ := identifier
    rintro d ⟨⟩
    exact isBlank_of_startsName starts
  rw [afterKeyword?_of_head p first, Option.bind_some, identifier?_append identifier ends]

theorem atWordEnd_of_endsHeader (ends : endsHeader k) : atWordEnd k := by
  obtain ⟨r, colon⟩ := exists_of_endsHeader ends
  obtain ⟨i, whole, blanks⟩ := exists_append_trimStart k
  rw [whole, colon]
  cases i with
  | nil =>
    change (!isWord ':') = true
    decide
  | cons c i =>
    rw [List.cons_append, atWordEnd, isWord_of_isBlank (blanks c List.mem_cons_self)]
    rfl

section

variable {p : String} {r : Text}

theorem afterKeyword?_eq_none {q : String} (apart : Apart p q) (h : after? p s = some r) :
    afterKeyword? q s = none := by
  rw [afterKeyword?, after?_eq_none apart h, Option.bind_none]

theorem isImport_eq_false (notImport : Apart p "import") (notFrom : Apart p "from")
    (h : after? p s = some r) : isImport s = false := by
  rw [isImport, afterKeyword?_eq_none notImport h, afterKeyword?_eq_none notFrom h]
  rfl

theorem skipAsync_eq_self (notAsync : Apart p "async") (h : after? p s = some r) :
    skipAsync s = s := by
  rw [skipAsync, afterKeyword?_eq_none notAsync h, Option.getD_none]

theorem functionHeader?_eq_none (notAsync : Apart p "async") (notDef : Apart p "def")
    (h : after? p s = some r) : functionHeader? s = none := by
  rw [functionHeader?, skipAsync_eq_self notAsync h, afterKeyword?_eq_none notDef h]
  rfl

theorem classHeader?_eq_none (notClass : Apart p "class") (h : after? p s = some r) :
    classHeader? s = none := by
  rw [classHeader?, afterKeyword?_eq_none notClass h]
  rfl

theorem loopHeader?_eq_none (notAsync : Apart p "async") (notFor : Apart p "for")
    (h : after? p s = some r) : loopHeader? s = none := by
  rw [loopHeader?, skipAsync_eq_self notAsync h, after?_eq_none notFor h]
  rfl

theorem recognise_of_header? {h : Header} (notImport : isImport s = false)
    (found : header? s = some h) : recognise s = .header h := by
  rw [recognise, notImport, found]
  rfl

theorem recognise_ifTest (h : after? "if" s = some r) (clause : clauseAfter 1 r = some e) :
    recognise s = .header (.ifTest e) := by
  refine recognise_of_header? (isImport_eq_false (by decide) (by decide) h) ?_
  rw [header?, functionHeader?_eq_none (by decide) (by decide) h,
    classHeader?_eq_none (by decide) h, h, Option.bind_some, clause]
  rfl

theorem recognise_elseIf (h : after? "elif" s = some r) (clause : clauseAfter 1 r = some e) :
    recognise s = .header (.elseIf e) := by
  refine recognise_of_header? (isImport_eq_false (by decide) (by decide) h) ?_
  rw [header?, functionHeader?_eq_none (by decide) (by decide) h,
    classHeader?_eq_none (by decide) h, after?_eq_none (by decide : Apart "elif" "if") h, h,
    Option.bind_some, clause]
  rfl

theorem recognise_otherwise (h : after? "else" s = some r) (ends : endsHeader r) :
    recognise s = .header .otherwise := by
  refine recognise_of_header? (isImport_eq_false (by decide) (by decide) h) ?_
  rw [header?, functionHeader?_eq_none (by decide) (by decide) h,
    classHeader?_eq_none (by decide) h, after?_eq_none (by decide : Apart "else" "if") h,
    after?_eq_none (by decide : Apart "else" "elif") h, h, Option.any_some, if_pos ends]
  rfl

theorem recognise_loop {target items : Text} (h : after? "for" s = some r)
    (loop : loopHeader? s = some (.loop target items)) :
    recognise s = .header (.loop target items) := by
  refine recognise_of_header? (isImport_eq_false (by decide) (by decide) h) ?_
  rw [header?, functionHeader?_eq_none (by decide) (by decide) h,
    classHeader?_eq_none (by decide) h, after?_eq_none (by decide : Apart "for" "if") h,
    after?_eq_none (by decide : Apart "for" "elif") h,
    after?_eq_none (by decide : Apart "for" "else") h, loop]
  rfl

theorem recognise_whileTest (h : after? "while" s = some r) (clause : clauseAfter 1 r = some e) :
    recognise s = .header (.whileTest e) := by
  refine recognise_of_header? (isImport_eq_false (by decide) (by decide) h) ?_
  rw [header?, functionHeader?_eq_none (by decide) (by decide) h,
    classHeader?_eq_none (by decide) h, after?_eq_none (by decide : Apart "while" "if") h,
    after?_eq_none (by decide : Apart "while" "elif") h,
    after?_eq_none (by decide : Apart "while" "else") h,
    loopHeader?_eq_none (by decide) (by decide) h, h, Option.bind_some, clause]
  rfl

theorem recognise_classType {name : Text} (h : after? "class" s = some r)
    (header : classHeader? s = some (.classType name)) :
    recognise s = .header (.classType name) := by
  refine recognise_of_header? (isImport_eq_false (by decide) (by decide) h) ?_
  rw [header?, functionHeader?_eq_none (by decide) (by decide) h, header]
  rfl

end

/-- A word stands in a text, and no word character touches it. -/
def HasWord (w t : Text) : Prop :=
  ∃ a b, t = a ++ w ++ b ∧ (∀ c ∈ a.getLast?, isWord c = false) ∧ atWordEnd b

theorem head?_of_clauseAfter (h : clauseAfter 1 s = some e) : s.head?.any isBlank := by
  refine head?_of_takeWhile fun none => ?_
  simp [clauseAfter, none] at h

/-- The word `in` in front of a blank ends where a text ends that a blank follows, or before. -/
theorem exists_of_word {w x : Text} (filled : s ≠ []) (word : s ++ ' ' :: x = "in".toList ++ w)
    (gap : w.head?.any isBlank) : ∃ b, s = "in".toList ++ b ∧ atWordEnd b := by
  change s ++ ' ' :: x = 'i' :: 'n' :: w at word
  match s, filled with
  | [c], _ => exact absurd (List.cons.inj (List.cons.inj word).2).1 (by decide)
  | c :: d :: b, _ =>
    obtain ⟨rfl, behind⟩ := List.cons.inj word
    obtain ⟨rfl, rfl⟩ := List.cons.inj behind
    refine ⟨b, rfl, ?_⟩
    cases b with
    | nil => rfl
    | cons c b =>
      have blank : isBlank c := gap
      rw [atWordEnd, isWord_of_isBlank blank]
      rfl

/-- No `in` clause starts inside a target that has no word `in`. -/
theorem inClause?_eq_none {a b : Text} (target : IsClause (a ++ b)) (filled : b ≠ [])
    (noWord : ¬HasWord "in".toList (a ++ b)) (x : Text) : inClause? (b ++ ' ' :: x) = none := by
  cases found : inClause? (b ++ ' ' :: x) with
  | none => rfl
  | some clause =>
    exfalso
    obtain ⟨w, behind, read⟩ := Option.bind_eq_some_iff.1 found
    obtain ⟨v, gap, behind⟩ := Option.bind_eq_some_iff.1 behind
    rw [afterGap?, Option.ite_none_right_eq_some] at gap
    obtain ⟨blank, rest⟩ := gap
    cases rest
    have last : ∀ c ∈ b.getLast?, isBlank c = false := by
      rw [← List.getLast?_append_of_ne_nil a filled]
      exact target.last
    have shown := trimStart_ne_nil last filled
    rw [trimStart_append shown, after?_eq_some_iff] at behind
    obtain ⟨b', word, ends⟩ := exists_of_word shown behind (head?_of_clauseAfter read)
    obtain ⟨i, whole, blanks⟩ := exists_append_trimStart b
    have gap : i ≠ [] := by
      rintro rfl
      rw [whole, List.nil_append, word] at blank
      exact absurd (show isBlank 'i' from blank) (by decide)
    have front : ∀ c ∈ (a ++ i).getLast?, isWord c = false := by
      rw [List.getLast?_append_of_ne_nil a gap]
      exact fun c mem => isWord_of_isBlank (blanks c (List.mem_of_getLast? mem))
    have parts : a ++ b = (a ++ i) ++ "in".toList ++ b' := by
      rw [List.append_assoc (a ++ i), ← word, List.append_assoc, ← whole]
    exact noWord ⟨a ++ i, b', parts, front, ends⟩

/-- The target of a loop reaches to the first `in` clause. -/
theorem loopParts?_append {t u items : Text} (filled : t ≠ [])
    (first : ∀ a b, t = a ++ b → b ≠ [] → inClause? (b ++ u) = none)
    (clause : inClause? u = some items) : loopParts? (t ++ u) = some (t, items) := by
  induction t with
  | nil => exact absurd rfl filled
  | cons c r ih =>
    rw [List.cons_append, loopParts?]
    by_cases more : r = []
    · subst more
      rw [List.nil_append, clause]
    · have later : ∀ a b, r = a ++ b → b ≠ [] → inClause? (b ++ u) = none :=
        fun a b split => first (c :: a) b (congrArg (c :: ·) split)
      rw [first [c] r rfl more, ih more later]
      rfl

theorem loopHeader?_append {t : Text} (target : IsClause t) (noWord : ¬HasWord "in".toList t)
    (clause : IsClause e) (ends : endsHeader k) :
    loopHeader? ("for ".toList ++ t ++ " in ".toList ++ e ++ k) =
      some (.loop t (readClause e)) := by
  have whole : "for ".toList ++ t ++ " in ".toList ++ e ++ k =
      "for".toList ++ ' ' :: (t ++ ' ' :: ("in".toList ++ ' ' :: (e ++ k))) := by simp
  have keyword := after?_eq_some_iff.2 whole
  obtain ⟨gap, rest⟩ :=
    span_blank (target.first_append (' ' :: ("in".toList ++ ' ' :: (e ++ k))))
  have items : inClause? (' ' :: ("in".toList ++ ' ' :: (e ++ k))) = some (readClause e) := by
    change (clauseAfter 1 (' ' :: (e ++ k))) = _
    exact clauseAfter_append clause ends
  have first : ∀ a b, t = a ++ b → b ≠ [] →
      inClause? (b ++ ' ' :: ("in".toList ++ ' ' :: (e ++ k))) = none := by
    rintro a b rfl filled
    exact inClause?_eq_none target filled noWord _
  rw [loopHeader?, skipAsync_eq_self (by decide : Apart "for" "async") keyword, keyword]
  simp only [Option.bind_eq_bind, Option.bind_some, gap, rest,
    loopParts?_append target.filled first items]
  rfl

/-- The text up to the last `)` that the rest may follow: the one given, or a later one. -/
theorem upToLastClosing_append {α : Type} (tail : Text → Option α) {rest : Text} {a : α}
    (found : tail rest = some a) (s : Text) :
    upToLastClosing tail (s ++ ')' :: rest) =
      some (match upToLastClosing tail rest with
        | some (more, b) => (s ++ ')' :: more, b)
        | none => (s, a)) := by
  induction s with
  | nil =>
    rw [List.nil_append, upToLastClosing]
    cases upToLastClosing tail rest with
    | none => rw [if_pos rfl, found]; rfl
    | some later => rfl
  | cons c s ih =>
    rw [List.cons_append, upToLastClosing, ih]
    cases upToLastClosing tail rest <;> rfl

theorem classHeader?_append {name : Text} (identifier : IsIdentifier name) (ends : endsHeader k) :
    classHeader? ("class ".toList ++ name ++ k) = some (.classType name) ∧
    ∀ bases, classHeader? ("class ".toList ++ name ++ '(' :: bases ++ ')' :: k) =
      some (.classType name) := by
  have named {r : Text} (wordEnd : atWordEnd r) :=
    keyword_identifier? "class" identifier wordEnd
  constructor
  · have noList : after? "(" (trimStart k) = none := by
      obtain ⟨r, colon⟩ := exists_of_endsHeader ends
      rw [colon]
      rfl
    have whole : "class ".toList ++ name ++ k = "class".toList ++ ' ' :: (name ++ k) := by simp
    rw [whole, classHeader?, named (atWordEnd_of_endsHeader ends)]
    simp only [Option.bind_eq_bind, Option.bind_some, noList, ends, if_true]
  · intro bases
    have opened := after?_parenthesis (bases ++ ')' :: k)
    have whole : "class ".toList ++ name ++ '(' :: bases ++ ')' :: k =
        "class".toList ++ ' ' :: (name ++ '(' :: (bases ++ ')' :: k)) := by simp
    have closed := upToLastClosing_append (fun t => if endsHeader t then some () else none)
      (if_pos ends) bases
    rw [whole, classHeader?, named (atWordEnd_parenthesis _)]
    simp only [Option.bind_eq_bind, Option.bind_some, opened, closed, Option.isSome_some, if_true]

/-- The headers of blocks other than functions, with or without a comment behind the colon: it makes
no difference. A condition, or what a loop goes through, is read up to the first colon that opens a
comment, so it is read as a whole exactly if there is no such colon in it. If there is one in a text
without a comment, it stands in a string literal. -/
theorem headers_recognised {gap : Text} (blanks : ∀ c ∈ gap, isBlank c) (comment : Option Text) :
    let k := headerEnd gap comment
    (∀ e, IsClause e →
      recognise ("if ".toList ++ e ++ k) = .header (.ifTest (readClause e)) ∧
      recognise ("elif ".toList ++ e ++ k) = .header (.elseIf (readClause e)) ∧
      recognise ("while ".toList ++ e ++ k) = .header (.whileTest (readClause e)) ∧
      (∀ t, IsClause t → ¬HasWord "in".toList t →
        recognise ("for ".toList ++ t ++ " in ".toList ++ e ++ k) =
          .header (.loop t (readClause e))) ∧
      readClause e <+: e ∧ (readClause e = e ↔ ¬CommentInside e) ∧
      (Text.comment e = [] → ∀ a inner r, e = a ++ ':' :: (inner ++ '#' :: r) →
        (∀ c ∈ inner, isBlank c) → a.foldl Place.next .code ≠ .code)) ∧
    recognise ("else".toList ++ k) = .header .otherwise ∧
    ∀ name, IsIdentifier name →
      recognise ("class ".toList ++ name ++ k) = .header (.classType name) ∧
      ∀ bases, recognise ("class ".toList ++ name ++ '(' :: bases ++ ')' :: k) =
        .header (.classType name) := by
  intro k
  have ends : endsHeader k := endsHeader_headerEnd blanks comment
  have clauses : ∀ e, IsClause e → clauseAfter 1 (' ' :: (e ++ k)) = some (readClause e) :=
    fun e clause => clauseAfter_append clause ends
  have keyword : ∀ (p : String) (r : Text), after? p (p.toList ++ ' ' :: r) = some (' ' :: r) :=
    fun p r => after?_eq_some_iff.2 rfl
  refine ⟨fun e clause => ⟨?_, ?_, ?_, fun t target noWord => ?_, prefix_readClause e,
    readClause_eq_self_iff, ?_⟩, ?_, fun name identifier => ⟨?_, fun bases => ?_⟩⟩
  · rw [List.append_assoc]
    exact recognise_ifTest (keyword "if" _) (clauses e clause)
  · rw [List.append_assoc]
    exact recognise_elseIf (keyword "elif" _) (clauses e clause)
  · rw [List.append_assoc]
    exact recognise_whileTest (keyword "while" _) (clauses e clause)
  · refine recognise_loop (keyword "for" (t ++ " in ".toList ++ e ++ k)) ?_
    exact loopHeader?_append target noWord clause ends
  · rintro code a inner r rfl
    exact inLiteral_of_colon code
  · exact recognise_otherwise (after?_eq_some_iff.2 rfl) ends
  · exact recognise_classType (keyword "class" (name ++ k)) (classHeader?_append identifier ends).1
  · exact recognise_classType (keyword "class" (name ++ '(' :: bases ++ ')' :: k))
      ((classHeader?_append identifier ends).2 bases)

/-- The parts of a header with a comment that looks like one. -/
theorem headers_recognised_of_comment :
    (∀ c ∈ "  ".toList, isBlank c) ∧
    recognise "while xs[1:]:  # if x:".toList = .header (.whileTest "xs[1:]".toList) := by
  have blanks : ∀ c ∈ "  ".toList, isBlank c := List.all_eq_true.1 (by decide)
  have clause : IsClause "xs[1:]".toList := ⟨by decide, by decide⟩
  exact ⟨blanks, ((headers_recognised blanks (some " if x:".toList)).1 _ clause).2.2.1⟩

/-- A condition that compares with a string literal, in which a `#` stands behind a colon. -/
theorem quoted_colon_cuts_condition :
    ∃ e, IsClause e ∧ comment e = [] ∧ e.foldl Place.next .code = .code ∧
      recognise ("if ".toList ++ e ++ ":".toList) = .header (.ifTest "s == \"".toList) ∧
      recognise ("if ".toList ++ e ++ ":".toList) ≠ .header (.ifTest e) :=
  ⟨"s == \":#\"".toList, ⟨by decide, by decide⟩, by decide, by decide, by decide, by decide⟩

end SwiftDraft.Script
