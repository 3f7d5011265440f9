import SwiftDraft.Proofs.Comments
import SwiftDraft.Proofs.Folding
import SwiftDraft.Proofs.Pieces
import SwiftDraft.Proofs.Preorder

/-!
# Comments and continued statements

A statement of code is gathered from its lines with their comments, though brackets are counted
without them. So a comment can keep a statement going, or end up in the middle of its text.
-/

namespace SwiftDraft.Script

open Text

def Statement.isDocstring : Statement → Bool
  | .simple (.docstring _) => true
  | _ => false

/-- A statement that is neither a comment nor a docstring. -/
def LogicalLine.IsCode (item : LogicalLine) : Prop :=
  item.indent ≠ none ∧ item.statement.isDocstring = false

instance (item : LogicalLine) : Decidable item.IsCode := inferInstanceAs (Decidable (_ ∧ _))

/-- The physical lines of a logical line. -/
def LogicalLine.own (item : LogicalLine) (source : Text) : List Text :=
  ((lines source).drop (item.line - 1)).take item.count

/-- What is read of a statement with some lines. -/
def gather : List Text → Gathered
  | [] => ⟨[], 0⟩
  | l :: ls => ls.foldl Gathered.absorb (.start l)

/-- The lines make up a statement of code, as far as it is read. -/
def Gathers (ls : List Text) : Prop :=
  ∃ l own, ls = l :: own ∧ IsCode l ∧ Absorbs (.start l) own (gather ls)

section

variable {pre post : List Text} {x x' y : Text}

theorem gather_concat (pre : List Text) (x : Text) (filled : pre ≠ []) :
    gather (pre ++ [x]) = (gather pre).absorb x := by
  obtain ⟨l, ls, rfl⟩ := List.exists_cons_of_ne_nil filled
  exact List.foldl_append

theorem gather_append (pre more : List Text) (filled : pre ≠ []) :
    gather (pre ++ more) = more.foldl Gathered.absorb (gather pre) := by
  obtain ⟨l, ls, rfl⟩ := List.exists_cons_of_ne_nil filled
  exact List.foldl_append

theorem gather_line (pre : List Text) (x : Text) (post : List Text) :
    gather (pre ++ x :: post) = post.foldl Gathered.absorb (gather (pre ++ [x])) := by
  rw [← gather_append _ post (by simp), List.append_assoc, List.singleton_append]

theorem depth_gather (pre : List Text) (x : Text) :
    (gather (pre ++ [x])).depth = (gather pre).depth + bracketDelta (trim x) := by
  cases pre with
  | nil => exact (Int.zero_add _).symm
  | cons l ls => rw [gather_concat _ _ (List.cons_ne_nil l ls)]; rfl

/-- The text read so far ends in a backslash if its last line does. -/
theorem backslash_gather (pre : List Text) (x : Text) :
    (gather (pre ++ [x])).text.getLast? = some '\\' ↔ (trim x).getLast? = some '\\' := by
  cases pre with
  | nil => rfl
  | cons l ls =>
    rw [gather_concat _ _ (List.cons_ne_nil l ls), Gathered.absorb,
      List.getLast?_append_of_ne_nil _ (List.cons_ne_nil _ _)]
    cases trim x with
    | nil => decide
    | cons c r => rw [List.getLast?_cons_cons]

theorem gather_congr (pre post : List Text) (same : trim x' = trim x) :
    gather (pre ++ x' :: post) = gather (pre ++ x :: post) := by
  rw [gather_line, gather_line pre x]
  congr 1
  cases pre with
  | nil => simp [gather, Gathered.start, same]
  | cons l ls =>
    rw [gather_concat _ _ (List.cons_ne_nil l ls), gather_concat _ _ (List.cons_ne_nil l ls)]
    simp only [Gathered.absorb, same]

theorem gathers_iff (pre : List Text) (x : Text) (post : List Text) :
    Gathers (pre ++ x :: post) ↔
      (pre = [] → IsCode x) ∧ (pre ≠ [] → Gathers pre ∧ (gather pre).GoesOn) ∧
        Absorbs (gather (pre ++ [x])) post (gather (pre ++ x :: post)) := by
  cases pre with
  | nil =>
    constructor
    · rintro ⟨l, own, whole, code, taken⟩
      cases whole
      exact ⟨fun _ => code, fun h => absurd rfl h, taken⟩
    · rintro ⟨code, -, taken⟩
      exact ⟨x, post, rfl, code rfl, taken⟩
  | cons l ls =>
    have first := gather_concat (l :: ls) x (List.cons_ne_nil l ls)
    constructor
    · rintro ⟨l', own, whole, code, taken⟩
      cases whole
      obtain ⟨front, back⟩ := absorbs_append_iff.1 taken
      obtain _ | ⟨on, back⟩ := back
      refine ⟨nofun, fun _ => ⟨⟨l, ls, rfl, code, front⟩, on⟩, ?_⟩
      rw [first]
      exact back
    · rintro ⟨-, front, back⟩
      obtain ⟨⟨l', own, whole, code, taken⟩, on⟩ := front (List.cons_ne_nil l ls)
      cases whole
      rw [first] at back
      exact ⟨l, ls ++ x :: post, rfl, code, absorbs_append_iff.2 ⟨taken, .cons on back⟩⟩

/-- Gathering goes on behind a line in the same way from two texts that are both not over and have
the same open brackets: the next line decides how they end. -/
theorem absorbs_of_depth {g h g' : Gathered} (depth : h.depth = g.depth) (on : h.GoesOn)
    (taken : Absorbs g (y :: post) g') :
    ∃ h', Absorbs h (y :: post) h' ∧ (h'.GoesOn ↔ g'.GoesOn) := by
  have next {g h : Gathered} (depth : h.depth = g.depth) (z : Text) :
      (h.absorb z).depth = (g.absorb z).depth ∧
        (h.absorb z).text.getLast? = (g.absorb z).text.getLast? := by
    refine ⟨congrArg (· + bracketDelta (trim z)) depth, ?_⟩
    have filled : ' ' :: trim z ≠ [] := List.cons_ne_nil _ _
    rw [Gathered.absorb, Gathered.absorb, List.getLast?_append_of_ne_nil _ filled,
      List.getLast?_append_of_ne_nil _ filled]
  have alike {g h g' : Gathered} (depth : h.depth = g.depth)
      (last : h.text.getLast? = g.text.getLast?) {ls : List Text} (taken : Absorbs g ls g') :
      ∃ h', Absorbs h ls h' ∧ (h'.GoesOn ↔ g'.GoesOn) := by
    induction taken generalizing h with
    | nil g => exact ⟨h, .nil h, by unfold Gathered.GoesOn; rw [depth, last]⟩
    | @cons g g' l ls on _ ih =>
      obtain ⟨h', taken', same⟩ := ih (next depth l).1 (next depth l).2
      refine ⟨h', .cons ?_ taken', same⟩
      unfold Gathered.GoesOn at on ⊢
      rwa [depth, last]
  obtain _ | ⟨-, rest⟩ := taken
  obtain ⟨h', taken', same⟩ := alike (next depth y).1 (next depth y).2 rest
  exact ⟨h', .cons on taken', same⟩

/-- A line in the middle of a statement can be exchanged for one with the same brackets behind which
the statement still goes on. -/
theorem gathers_exchange (owned : Gathers (pre ++ x :: y :: post)) (code : pre = [] → IsCode x')
    (brackets : bracketDelta (trim x') = bracketDelta (trim x))
    (on : (gather (pre ++ [x'])).GoesOn) :
    Gathers (pre ++ x' :: y :: post) ∧
      ((gather (pre ++ x' :: y :: post)).GoesOn ↔ (gather (pre ++ x :: y :: post)).GoesOn) := by
  obtain ⟨-, front, taken⟩ := (gathers_iff pre x _).1 owned
  have depth : (gather (pre ++ [x'])).depth = (gather (pre ++ [x])).depth := by
    rw [depth_gather, depth_gather, brackets]
  obtain ⟨h', taken', same⟩ := absorbs_of_depth depth on taken
  have all : h' = gather (pre ++ x' :: y :: post) := by
    rw [taken'.eq_foldl]
    exact (gather_line pre x' _).symm
  subst all
  exact ⟨(gathers_iff pre x' _).2 ⟨code, front, taken'⟩, same⟩

theorem gathers_cut (owned : Gathers (pre ++ x :: post)) (code : pre = [] → IsCode x') :
    Gathers (pre ++ [x']) := by
  obtain ⟨-, front, -⟩ := (gathers_iff pre x _).1 owned
  exact (gathers_iff pre x' []).2 ⟨code, front, .nil _⟩

end

section

variable {unit number : Nat} {owned behind : List Text}

/-- The logical line of gathered lines. -/
def gathered (unit number : Nat) (owned : List Text) : LogicalLine :=
  ⟨number, owned.length, some (columns unit (owned.headD [])), recognise (gather owned).text⟩

theorem logicalLinesFrom_gathers (gathers : Gathers owned)
    (stops : behind = [] ∨ ¬ (gather owned).GoesOn) :
    logicalLinesFrom unit number (owned ++ behind) =
      gathered unit number owned :: logicalLinesFrom unit (number + owned.length) behind := by
  obtain ⟨l, own, rfl, code, taken⟩ := gathers
  have first : logicalLine unit number l (own ++ behind) = gathered unit number (l :: own) := by
    have all := continued_of_absorbs taken stops
    simp only [Gathered.start] at all
    rw [logicalLine_code unit number _ code, all]
    rfl
  rw [List.cons_append, logicalLinesFrom_cons (by rw [first]; rfl), first]
  rfl

/-- Where a line in the middle of a statement is exchanged and the statement goes on, it is read from
its new text. -/
theorem logicalLinesFrom_exchange {pre post : List Text} {x x' y : Text}
    (gathers : Gathers (pre ++ x :: y :: post))
    (stops : behind = [] ∨ ¬ (gather (pre ++ x :: y :: post)).GoesOn)
    (code : pre = [] → IsCode x' ∧ ∀ unit, columns unit x' = columns unit x)
    (brackets : bracketDelta (trim x') = bracketDelta (trim x))
    (on : (gather (pre ++ [x'])).GoesOn) :
    logicalLinesFrom unit number (pre ++ x' :: y :: post ++ behind) =
      { gathered unit number (pre ++ x :: y :: post) with
        statement := recognise (gather (pre ++ x' :: y :: post)).text } ::
          logicalLinesFrom unit (number + (pre ++ x :: y :: post).length) behind := by
  obtain ⟨gathers', goesOn⟩ := gathers_exchange gathers (fun h => (code h).1) brackets on
  have width : columns unit ((pre ++ x' :: y :: post).headD []) =
      columns unit ((pre ++ x :: y :: post).headD []) := by
    cases pre with
    | nil => exact (code rfl).2 unit
    | cons l ls => rfl
  have size : (pre ++ x' :: y :: post).length = (pre ++ x :: y :: post).length := by
    simp only [List.length_append, List.length_cons]
  rw [logicalLinesFrom_gathers gathers' (stops.imp_right (mt goesOn.1)), gathered, width, size]
  rfl

/-- Where the statement ends with the new line, the line behind starts another one. -/
theorem logicalLinesFrom_cut {pre post : List Text} {x x' y : Text} (unit number : Nat)
    (gathers : Gathers (pre ++ x :: y :: post)) (code : pre = [] → IsCode x')
    (ends : ¬ (gather (pre ++ [x'])).GoesOn) (behind : List Text) :
    ∃ item next rest, logicalLinesFrom unit number (pre ++ x' :: y :: post ++ behind) =
      item :: next :: rest ∧ next.line = number + (pre.length + 1) := by
  have split : pre ++ x' :: y :: post ++ behind = (pre ++ [x']) ++ (y :: (post ++ behind)) := by
    simp
  rw [split, logicalLinesFrom_gathers (gathers_cut gathers code) (Or.inr ends), logicalLinesFrom]
  refine ⟨_, _, _, rfl, ?_⟩
  rw [line_logicalLine, List.length_append, List.length_singleton]

theorem gathers_of_isCode {l : Text} {own : List Text}
    (code : (logicalLine unit number l (own ++ behind)).IsCode)
    (count : (logicalLine unit number l (own ++ behind)).count = own.length + 1) :
    Gathers (l :: own) ∧ (behind = [] ∨ ¬ (gather (l :: own)).GoesOn) := by
  rcases line_cases l with blank | ⟨text, comment⟩ | ⟨quotes, first, starts⟩ | plain
  · rw [logicalLine_blank unit number _ blank] at code
    exact absurd rfl code.1
  · rw [logicalLine_comment unit number _ comment] at code
    exact absurd rfl code.1
  · rw [logicalLine_docstring unit number _ starts] at code
    cases code.2
  · rw [logicalLine_code unit number _ plain] at count
    obtain ⟨taken, rest, g', split, absorbs, stops⟩ := exists_absorbs (.start l) (own ++ behind)
    have all := continued_of_absorbs absorbs stops
    rw [← split] at all
    simp only [Gathered.start] at all
    rw [all] at count
    obtain ⟨rfl, rfl⟩ := List.append_inj split (Nat.succ.inj count).symm
    have whole := absorbs.eq_foldl
    subst whole
    exact ⟨⟨l, own, rfl, plain, absorbs⟩, stops⟩

/-- Where a statement of code stands in a script, and how it is read. -/
theorem exists_gathers {unit : Nat} {source : Text} {item : LogicalLine}
    (mem : item ∈ logicalLines unit source) (code : item.IsCode) :
    ∃ front behind before, lines source = front ++ (item.own source ++ behind) ∧
      item.line = 1 + front.length ∧ item = gathered unit item.line (item.own source) ∧
      Gathers (item.own source) ∧ (behind = [] ∨ ¬ (gather (item.own source)).GoesOn) ∧
      ∀ more, logicalLinesFrom unit 1 (front ++ more) =
        before ++ logicalLinesFrom unit item.line more := by
  obtain ⟨front, l, own, behind, before, whole, here, count, same⟩ := split_of_mem mem
  have first : item.line = 1 + front.length := by
    rw [here, line_logicalLine]
  have lines_own : item.own source = l :: own := by
    rw [LogicalLine.own, whole, first, Nat.add_sub_cancel_left, List.drop_left, count,
      List.take_succ_cons, List.take_left]
  have read := here
  rw [here] at code count
  obtain ⟨gathers, stops⟩ := gathers_of_isCode code count
  rw [lines_own, first]
  refine ⟨front, behind, before, whole, rfl, ?_, gathers, stops, same⟩
  have item_eq : logicalLinesFrom unit (1 + front.length) (l :: own ++ behind) = _ :=
    logicalLinesFrom_gathers gathers stops
  rw [List.cons_append, logicalLinesFrom_cons count] at item_eq
  rw [read]
  exact (List.cons.inj item_eq).1

end

theorem prefix_of_after? {p : String} {s r : Text} (h : after? p s = some r) : p.toList <+: s :=
  ⟨r, (after?_eq_some_iff.1 h).symm⟩

/-- Quotes that start a text without its trailing blanks start every text it is cut from. -/
theorem docstringStart?_of_cut {s t : Text} (front : s <+: t)
    (h : docstringStart? (trimEnd t) = none) : docstringStart? (trimEnd s) = none := by
  have lift {p : String} (visible : p.toList.any isBlank = false)
      (absent : after? p (trimEnd t) = none) : after? p (trimEnd s) = none := by
    cases found : after? p (trimEnd s) with
    | none => rfl
    | some r =>
      have inT := ((prefix_of_after? found).trans (trimEnd_prefix_self s)).trans front
      obtain ⟨rest, whole⟩ := prefix_trimEnd (fun c mem => by
        simpa using List.any_eq_false.1 visible c mem) inT
      rw [after?_eq_some_iff.2 whole.symm] at absent
      cases absent
  unfold docstringStart? at h ⊢
  split at h
  · cases h
  · next noDouble =>
    rw [lift (by decide) noDouble]
    exact Option.map_eq_none_iff.2 (lift (by decide) (Option.map_eq_none_iff.1 h))

/-- The first line of a statement stays one without its comment, at the same columns. -/
theorem isCode_withoutComment {line : Text} (code : IsCode (chomp line)) :
    IsCode (chomp (withoutComment line)) ∧
      ∀ unit, columns unit (chomp (withoutComment line)) = columns unit (chomp line) := by
  obtain ⟨filled, noComment, noDocstring⟩ := code
  obtain ⟨i, c, r, whole, blanks, visible⟩ := exists_blanks_cons filled
  obtain ⟨t, start⟩ := trimEnd_cons_of_not_blank visible r
  rw [whole, trim_blanks_cons blanks visible] at noComment noDocstring
  have other : c ≠ '#' := by
    rintro rfl
    rw [start] at noComment
    exact noComment rfl
  -- The line and its code start with the same blanks and the same character.
  obtain ⟨r', cut⟩ : ∃ r', chomp (withoutComment line) = i ++ c :: r' := by
    obtain ⟨m, uncut⟩ : ∃ m, line = i ++ c :: m := by
      rcases chomp_cases line with same | ends
      · exact ⟨r, same.symm.trans whole⟩
      · refine ⟨r ++ ['\r'], ?_⟩
        rw [ends, whole, List.append_assoc, List.cons_append]
    rw [uncut, withoutComment_blanks_append blanks, withoutComment_cons other]
    exact exists_chomp_cons visible i _
  have front : c :: (splitCommentFrom (Place.code.next c) r).1 <+: c :: r := by
    have all := withoutComment_append_comment (c :: r)
    rw [withoutComment_cons other] at all
    exact ⟨_, all⟩
  have code : trim (chomp (withoutComment line)) =
      trimEnd (c :: (splitCommentFrom (Place.code.next c) r).1) := by
    rw [trim_chomp_withoutComment, whole, withoutComment_blanks_append blanks,
      withoutComment_cons other, trim_blanks_cons blanks visible]
  obtain ⟨t', start'⟩ :=
    trimEnd_cons_of_not_blank visible (splitCommentFrom (Place.code.next c) r).1
  refine ⟨⟨?_, ?_, ?_⟩, fun unit => ?_⟩
  · rw [code, start']
    exact List.cons_ne_nil c t'
  · rw [code, start']
    simpa using other
  · rw [code]
    exact docstringStart?_of_cut front noDocstring
  · rw [columns, columns, cut, whole, exactColumns_blanks_cons unit blanks visible r' r]

theorem nest_eq_of_logicalLines {unit : Nat} {s t : Text}
    (same : logicalLines unit s = logicalLines unit t) : nest unit s = nest unit t := by
  unfold nest
  rw [same]

theorem lines_around {a line : Text} (whole : EndsLine a) (plain : '\n' ∉ line) (b : Text) :
    lines (a ++ line ++ '\n' :: b) = lines a ++ chomp line :: lines b := by
  rw [List.append_assoc, lines_append whole, lines_line_append plain]

theorem newline_not_mem_withoutComment {line : Text} (plain : '\n' ∉ line) :
    '\n' ∉ withoutComment line := by
  rw [← withoutComment_append_comment line] at plain
  exact fun inside => plain (List.mem_append_left _ inside)

/-- Two scripts whose logical lines start alike and whose trees are the same list the same logical
lines further on. -/
theorem places_eq_of_nodes {unit : Nat} {s t : Text} {before these those : List LogicalLine}
    (hs : logicalLines unit s = before ++ these) (ht : logicalLines unit t = before ++ those)
    (nodes : (nest unit s).nodes = (nest unit t).nodes) :
    these.map (fun l => (l.line, l.statement)) = those.map fun l => (l.line, l.statement) := by
  have order := congrArg preorder nodes
  rw [preorder_nest, preorder_nest, hs, ht, List.map_append, List.map_append] at order
  exact List.append_cancel_left order

/-- Deleting the comment of a line that is not the last one of its statement. -/
theorem nest_withoutComment_iff {unit : Nat} {a line b : Text} {item : LogicalLine}
    {pre post : List Text} (whole : EndsLine a) (plain : '\n' ∉ line)
    (mem : item ∈ logicalLines unit (a ++ line ++ '\n' :: b)) (code : item.IsCode)
    (own : item.own (a ++ line ++ '\n' :: b) = pre ++ chomp line :: post)
    (here : item.line + pre.length = (lines a).length + 1) (further : post ≠ []) :
    (nest unit (a ++ withoutComment line ++ '\n' :: b)).nodes =
        (nest unit (a ++ line ++ '\n' :: b)).nodes ↔
      (gather (pre ++ [withoutComment (chomp line)])).GoesOn ∧
        recognise (gather (pre ++ withoutComment (chomp line) :: post)).text = item.statement := by
  obtain ⟨front, behind, before, split, first, read, gathers, stops, same⟩ :=
    exists_gathers mem code
  obtain ⟨y, post, rfl⟩ := List.exists_cons_of_ne_nil further
  rw [own] at split read gathers stops
  have parts : lines a = front ++ pre ∧
      chomp line :: lines b = chomp line :: (y :: post) ++ behind := by
    refine List.append_inj ?_ ?_
    · rw [← lines_around whole plain, split]
      simp only [List.append_assoc, List.cons_append]
    · rw [List.length_append]
      omega
  -- The logical lines of both texts.
  have newLines : logicalLines unit (a ++ withoutComment line ++ '\n' :: b) =
      before ++ logicalLinesFrom unit item.line
        ((pre ++ chomp (withoutComment line) :: y :: post) ++ behind) := by
    rw [logicalLines, lines_around whole (newline_not_mem_withoutComment plain), parts.1,
      (List.cons.inj parts.2).2, ← same]
    simp only [List.append_assoc, List.cons_append]
    rfl
  have oldLines : logicalLines unit (a ++ line ++ '\n' :: b) =
      before ++ item :: logicalLinesFrom unit
        (item.line + (pre ++ chomp line :: y :: post).length) behind := by
    rw [logicalLines, split, same, logicalLinesFrom_gathers gathers stops, ← read]
  have atStart : pre = [] → IsCode (chomp (withoutComment line)) ∧
      ∀ unit, columns unit (chomp (withoutComment line)) = columns unit (chomp line) :=
    fun h => isCode_withoutComment (((gathers_iff pre _ _).1 gathers).1 h)
  have sameCode := trim_chomp_withoutComment line
  rw [← gather_congr pre [] sameCode, ← gather_congr pre (y :: post) sameCode]
  by_cases on : (gather (pre ++ [chomp (withoutComment line)])).GoesOn
  · have brackets : bracketDelta (trim (chomp (withoutComment line))) =
        bracketDelta (trim (chomp line)) := by
      rw [sameCode, bracketDelta_withoutComment]
    rw [logicalLinesFrom_exchange gathers stops atStart brackets on, ← read] at newLines
    constructor
    · intro nodes
      have item_eq := (List.cons.inj (places_eq_of_nodes newLines oldLines nodes)).1
      exact ⟨on, congrArg Prod.snd item_eq⟩
    · rintro ⟨-, statement⟩
      rw [statement] at newLines
      exact congrArg Reading.nodes (nest_eq_of_logicalLines (newLines.trans oldLines.symm))
  · refine ⟨fun nodes => ?_, fun h => absurd h.1 on⟩
    -- The line behind starts a statement now, which it did not before.
    obtain ⟨_, next, rest, cut, line_next⟩ :=
      logicalLinesFrom_cut unit item.line gathers (fun h => (atStart h).1) on behind
    rw [cut] at newLines
    have tail := (List.cons.inj (places_eq_of_nodes newLines oldLines nodes)).2
    have inBehind : (next.line, next.statement) ∈ (logicalLinesFrom unit
        (item.line + (pre ++ chomp line :: y :: post).length) behind).map
          fun l => (l.line, l.statement) := by
      rw [← tail]
      exact List.mem_cons_self
    obtain ⟨m, inItems, line_m⟩ := List.mem_map.1 inBehind
    have low := ((tiles_logicalLinesFrom unit _ behind).within inItems).1
    have line_eq : m.line = next.line := congrArg Prod.fst line_m
    simp only [List.length_append, List.length_cons] at low
    omega

/-- A line at which the code of a statement could end. -/
theorem further_iff {unit : Nat} {source : Text} {item : LogicalLine} {pre post : List Text}
    {x : Text} (mem : item ∈ logicalLines unit source) (code : item.IsCode)
    (own : item.own source = pre ++ x :: post) (closed : (gather (pre ++ [x])).depth ≤ 0)
    (ended : (trimEnd (withoutComment x)).getLast? ≠ some '\\') :
    post ≠ [] ↔ item.line + pre.length < (lines source).length ∧
      (trimEnd (comment x)).getLast? = some '\\' := by
  obtain ⟨front, behind, before, split, first, read, gathers, stops, -⟩ := exists_gathers mem code
  rw [own] at split gathers stops
  have last : (gather (pre ++ [x])).text.getLast? = some '\\' ↔
      (trimEnd (comment x)).getLast? = some '\\' := by
    rw [backslash_gather]
    by_cases none : comment x = []
    · rw [withoutComment_eq_self none] at ended
      rw [none]
      exact iff_of_false (fun h => ended (getLast?_trimEnd_of_trim h)) (by decide)
    · rw [getLast?_trim_of_comment none]
  have on : (gather (pre ++ [x])).GoesOn ↔ (trimEnd (comment x)).getLast? = some '\\' := by
    unfold Gathered.GoesOn
    rw [last]
    exact or_iff_right (Int.not_lt.2 closed)
  have size : (lines source).length =
      front.length + (pre.length + 1 + post.length) + behind.length := by
    rw [split]
    simp only [List.length_append, List.length_cons]
    omega
  rw [← on]
  constructor
  · intro filled
    obtain ⟨y, post, rfl⟩ := List.exists_cons_of_ne_nil filled
    obtain ⟨-, -, taken⟩ := (gathers_iff pre x _).1 gathers
    obtain _ | ⟨goesOn, -⟩ := taken
    refine ⟨?_, goesOn⟩
    rw [size, first, List.length_cons]
    omega
  · rintro ⟨more, goesOn⟩ rfl
    have all := stops.resolve_right (not_not_intro goesOn)
    rw [size, first, all, List.length_nil] at more
    omega

/-- What the comment of a line does to a statement of code. Deleting it from a line that is not the
statement's last leaves the tree as it is exactly when the statement still goes on behind the line
and is recognised as the same one; and where the code of the statement is complete, the next line is
taken in exactly when there is one and the comment ends in a backslash. -/
theorem comment_effects {unit : Nat} {source : Text} {item : LogicalLine} {pre post : List Text}
    {x : Text} (mem : item ∈ logicalLines unit source) (code : item.IsCode)
    (own : item.own source = pre ++ x :: post) :
    (∀ a line b, source = a ++ line ++ '\n' :: b → EndsLine a → '\n' ∉ line →
      (lines a).length + 1 = item.line + pre.length → post ≠ [] →
      ((nest unit (a ++ withoutComment line ++ '\n' :: b)).nodes = (nest unit source).nodes ↔
        (gather (pre ++ [withoutComment x])).GoesOn ∧
          recognise (gather (pre ++ withoutComment x :: post)).text = item.statement)) ∧
    ((gather (pre ++ [x])).depth ≤ 0 → (trimEnd (withoutComment x)).getLast? ≠ some '\\' →
      (post ≠ [] ↔ item.line + pre.length < (lines source).length ∧
        (trimEnd (comment x)).getLast? = some '\\')) := by
  refine ⟨?_, further_iff mem code own⟩
  rintro a line b rfl whole plain here further
  obtain rfl : x = chomp line := by
    obtain ⟨front, behind, -, split, first, -⟩ := exists_gathers mem code
    rw [own, lines_around whole plain] at split
    have at_line : lines a ++ chomp line :: lines b =
        (front ++ pre) ++ x :: (post ++ behind) := by
      rw [split]
      simp only [List.append_assoc, List.cons_append]
    have size : (lines a).length = (front ++ pre).length := by
      rw [List.length_append]
      omega
    exact (List.cons.inj (List.append_inj at_line size).2).1.symm
  exact nest_withoutComment_iff whole plain mem code own here.symm further

theorem first_mem_logicalLines (unit : Nat) {source l : Text} {ls : List Text}
    (split : lines source = l :: ls) : logicalLine unit 1 l ls ∈ logicalLines unit source := by
  rw [logicalLines, split, logicalLinesFrom]
  exact List.mem_cons_self

theorem head_preorder_nest (unit : Nat) {source l : Text} {ls : List Text}
    (split : lines source = l :: ls) :
    (preorder (nest unit source).nodes).head? = some (1, (logicalLine unit 1 l ls).statement) := by
  rw [preorder_nest, logicalLines, split, logicalLinesFrom, List.map_cons, List.head?_cons,
    line_logicalLine]

/-- A class does not keep its bases, so their comments do not matter. -/
theorem comment_effects_base :
    (nest 4 "class A(B,  \n        C):\n    pass\n".toList).nodes =
      (nest 4 "class A(B,  # base\n        C):\n    pass\n".toList).nodes := by
  have split : lines "class A(B,  # base\n        C):\n    pass\n".toList =
      ["class A(B,  # base".toList, "        C):".toList, "    pass".toList] := by decide
  have own : (logicalLine 4 1 "class A(B,  # base".toList ["        C):".toList,
      "    pass".toList]).own "class A(B,  # base\n        C):\n    pass\n".toList =
        [] ++ "class A(B,  # base".toList :: ["        C):".toList] := by decide
  have effects := comment_effects (first_mem_logicalLines 4 split) (by decide) own
  have deleted := effects.1 [] "class A(B,  # base".toList "        C):\n    pass\n".toList
    (by decide) (Or.inl rfl) (by decide) (by decide) (by decide)
  exact deleted.2 (by decide)

/-- A line with a comment that hides the parameter on the next line. -/
def commentedLine : Text := "def f(a,  # first".toList

/-- What follows it. -/
def secondParameter : Text := "      b):\n    pass\n".toList

/-- The comment of a parameter becomes part of the next parameter, and a comment that ends in a
backslash takes in the next statement though the code in front of it is complete. -/
theorem comment_hides_parameter :
    (logicalLine 4 1 commentedLine ["      b):".toList, "    pass".toList] ∈
        logicalLines 4 (commentedLine ++ '\n' :: secondParameter) ∧
      (logicalLine 4 1 commentedLine ["      b):".toList, "    pass".toList]).own
        (commentedLine ++ '\n' :: secondParameter) = [commentedLine, "      b):".toList] ∧
      (nest 4 (withoutComment commentedLine ++ '\n' :: secondParameter)).nodes ≠
        (nest 4 (commentedLine ++ '\n' :: secondParameter)).nodes) ∧
    (logicalLine 4 1 "x = 1  # C:\\".toList ["y = 2".toList] ∈
        logicalLines 4 "x = 1  # C:\\\ny = 2\n".toList ∧
      (logicalLine 4 1 "x = 1  # C:\\".toList ["y = 2".toList]).count = 2 ∧
      (gather ["x = 1  # C:\\".toList]).depth = 0 ∧
      withoutComment "x = 1  # C:\\".toList = "x = 1  ".toList) := by
  have split : lines (commentedLine ++ '\n' :: secondParameter) =
      [commentedLine, "      b):".toList, "    pass".toList] := by decide
  have split' : lines (withoutComment commentedLine ++ '\n' :: secondParameter) =
      ["def f(a,  ".toList, "      b):".toList, "    pass".toList] := by decide
  have code : lines "x = 1  # C:\\\ny = 2\n".toList = ["x = 1  # C:\\".toList, "y = 2".toList] := by
    decide
  refine ⟨⟨first_mem_logicalLines 4 split, by decide, fun same => ?_⟩,
    first_mem_logicalLines 4 code, by decide, by decide, by decide⟩
  have heads := congrArg (fun nodes => (preorder nodes).head?) same
  simp only [head_preorder_nest 4 split, head_preorder_nest 4 split'] at heads
  exact absurd heads (by decide)

end SwiftDraft.Script
