import SwiftDraft.Proofs.LiteralScans

/-!
# Balanced brackets

A text is read with the list of the closing brackets that are awaited, the innermost first: an
opening bracket adds its partner, and a closing one has to be the next that is awaited. A text is
balanced if nothing is awaited behind it. What is awaited from further out does not matter to a text
that does not close it (`awaited_frame`, `awaited_unframe`). In script code the brackets in literals
do not count; texts that have the same ones outside of literals can stand for each other (`Alike`).
-/

namespace SwiftDraft.Text

/-- The brackets of code, each with the one that closes it. -/
def codeBrackets : List (Char × Char) := [('(', ')'), ('[', ']'), ('{', '}')]

/-- What is awaited behind one more character. -/
def awaitedNext (table : List (Char × Char)) (waiting : Text) (c : Char) : Option Text :=
  match table.lookup c with
  | some closer => some (closer :: waiting)
  | none =>
    if table.any (·.2 == c) then
      match waiting with
      | d :: further => if c = d then some further else none
      | [] => none
    else some waiting

/-- What is awaited behind a text, unless it closes a bracket that is not awaited. -/
def awaited (table : List (Char × Char)) (waiting : Text) : Text → Option Text
  | [] => some waiting
  | c :: r => (awaitedNext table waiting c).bind fun further => awaited table further r

def IsBalanced (table : List (Char × Char)) (s : Text) : Prop := awaited table [] s = some []

instance (table : List (Char × Char)) (s : Text) : Decidable (IsBalanced table s) :=
  inferInstanceAs (Decidable (_ = _))

section

variable {table : List (Char × Char)} {w w' v s t : Text} {c : Char}

theorem awaited_append (w s t : Text) :
    awaited table w (s ++ t) = (awaited table w s).bind fun further => awaited table further t := by
  induction s generalizing w with
  | nil => rfl
  | cons c s ih =>
    rw [List.cons_append, awaited, awaited, Option.bind_assoc]
    exact congrArg _ (funext ih)

theorem awaitedNext_frame (h : awaitedNext table w c = some w') (v : Text) :
    awaitedNext table (w ++ v) c = some (w' ++ v) := by
  unfold awaitedNext at h ⊢
  split at h
  · cases h
    rfl
  · split at h
    · next closes =>
      rw [if_pos closes]
      split at h
      · next d further =>
        rw [Option.ite_none_right_eq_some] at h
        rw [← Option.some.inj h.2]
        exact if_pos h.1
      · cases h
    · next plain =>
      rw [if_neg plain, ← Option.some.inj h]

/-- What is awaited from further out stays behind what a text awaits. -/
theorem awaited_frame (h : awaited table w s = some w') (v : Text) :
    awaited table (w ++ v) s = some (w' ++ v) := by
  induction s generalizing w with
  | nil =>
    rw [← Option.some.inj h]
    rfl
  | cons c s ih =>
    obtain ⟨further, next, rest⟩ := Option.bind_eq_some_iff.1 h
    rw [awaited, awaitedNext_frame next v, Option.bind_some, ih rest]

/-- The brackets of a table. -/
def isBracket (table : List (Char × Char)) (c : Char) : Bool :=
  table.any fun e => e.1 == c || e.2 == c

theorem awaitedNext_of_plain (plain : isBracket table c = false) (w : Text) :
    awaitedNext table w c = some w := by
  have other : ∀ e ∈ table, e.1 ≠ c ∧ e.2 ≠ c := fun e mem => by
    simpa using List.any_eq_false.1 plain e mem
  have noOpening : table.lookup c = none :=
    List.lookup_eq_none_iff.2 fun e mem => by simpa using Ne.symm (other e mem).1
  have noClosing : ¬table.any (·.2 == c) := by
    simpa using fun a mem => (other (a, c) mem).2 rfl
  simp only [awaitedNext, noOpening, if_neg noClosing]

/-- Characters that are no brackets do not matter. -/
theorem awaited_filter (w s : Text) :
    awaited table w (s.filter (isBracket table)) = awaited table w s := by
  induction s generalizing w with
  | nil => rfl
  | cons c s ih =>
    cases plain : isBracket table c with
    | false =>
      rw [List.filter_cons_of_neg (by simp [plain]), ih, awaited, awaitedNext_of_plain plain,
        Option.bind_some]
    | true =>
      rw [List.filter_cons_of_pos plain, awaited, awaited]
      exact congrArg _ (funext ih)

end

section

variable {w w' v s : Text} {c : Char}

theorem awaitedNext_opening (opens : isOpening c) :
    ∃ d, ∀ w, awaitedNext codeBrackets w c = some (d :: w) := by
  simp only [isOpening, Bool.or_eq_true, beq_iff_eq] at opens
  rcases opens with (rfl | rfl) | rfl
  · exact ⟨')', fun _ => rfl⟩
  · exact ⟨']', fun _ => rfl⟩
  · exact ⟨'\x7d', fun _ => rfl⟩

theorem awaitedNext_closing (closes : isClosing c) :
    awaitedNext codeBrackets w c = some w' ↔ w = c :: w' := by
  have noOpening : codeBrackets.lookup c = none ∧ codeBrackets.any (·.2 == c) := by
    simp only [isClosing, Bool.or_eq_true, beq_iff_eq] at closes
    rcases closes with (rfl | rfl) | rfl <;> decide
  simp only [awaitedNext, noOpening.1, if_pos noOpening.2]
  cases w with
  | nil => simp
  | cons d further => simp [eq_comm (a := c)]

theorem not_isOpening_of_isClosing (closes : isClosing c) : isOpening c = false := by
  simp only [isClosing, Bool.or_eq_true, beq_iff_eq] at closes
  rcases closes with (rfl | rfl) | rfl <;> rfl

theorem isBracket_codeBrackets (c : Char) :
    isBracket codeBrackets c = (isOpening c || isClosing c) := by
  simp only [isBracket, codeBrackets, List.any_cons, List.any_nil, isOpening, isClosing]
  grind

theorem awaitedNext_other (noOpening : ¬isOpening c) (noClosing : ¬isClosing c) (w : Text) :
    awaitedNext codeBrackets w c = some w := by
  apply awaitedNext_of_plain
  rw [isBracket_codeBrackets]
  simp [noOpening, noClosing]

/-- What is awaited is counted by the brackets that are open. -/
theorem length_awaited (h : awaited codeBrackets w s = some w') :
    w'.length + s.countP isClosing = w.length + s.countP isOpening := by
  induction s generalizing w with
  | nil => rw [← Option.some.inj h]; rfl
  | cons c s ih =>
    obtain ⟨further, next, rest⟩ := Option.bind_eq_some_iff.1 h
    have counted := ih rest
    by_cases closes : isClosing c
    · have opened := (awaitedNext_closing closes).1 next
      rw [List.countP_cons_of_pos closes,
        List.countP_cons_of_neg (by simp [not_isOpening_of_isClosing closes]), opened,
        List.length_cons]
      omega
    · rw [List.countP_cons_of_neg closes]
      by_cases opens : isOpening c
      · obtain ⟨d, found⟩ := awaitedNext_opening opens
        rw [found, Option.some.injEq] at next
        rw [List.countP_cons_of_pos opens]
        rw [← next, List.length_cons] at counted
        omega
      · rw [awaitedNext_other opens closes, Option.some.injEq] at next
        rw [List.countP_cons_of_neg opens, next, counted]

namespace IsBalanced

variable {t : Text}

/-- At any point of a balanced text at least as many brackets were opened as were closed. -/
theorem countP_le (balanced : IsBalanced codeBrackets s) (starts : t <+: s) :
    t.countP isClosing ≤ t.countP isOpening := by
  obtain ⟨r, rfl⟩ := starts
  rw [IsBalanced, awaited_append] at balanced
  obtain ⟨further, front, -⟩ := Option.bind_eq_some_iff.1 balanced
  have counted := length_awaited front
  rw [List.length_nil] at counted
  omega

theorem countP_eq (balanced : IsBalanced codeBrackets s) :
    s.countP isClosing = s.countP isOpening := by
  have counted := length_awaited balanced
  rw [List.length_nil] at counted
  omega

end IsBalanced

/-- A text in which no prefix closes more brackets than it opens, but for those in `w`, does not
touch what is awaited from further out. -/
theorem awaited_unframe (h : awaited codeBrackets (w ++ v) s = some w')
    (inside : ∀ t, t <+: s → t.countP isClosing ≤ w.length + t.countP isOpening) :
    ∃ further, w' = further ++ v ∧ awaited codeBrackets w s = some further := by
  induction s generalizing w with
  | nil => exact ⟨w, (Option.some.inj h).symm, rfl⟩
  | cons c s ih =>
    obtain ⟨next, step, rest⟩ := Option.bind_eq_some_iff.1 h
    have first : ∃ x, next = x ++ v ∧ awaitedNext codeBrackets w c = some x := by
      by_cases closes : isClosing c
      · have one := inside [c] (List.cons_prefix_cons.2 ⟨rfl, List.nil_prefix⟩)
        rw [List.countP_singleton, List.countP_singleton, if_pos closes,
          if_neg (by simp [not_isOpening_of_isClosing closes])] at one
        have awaits := (awaitedNext_closing closes).1 step
        cases w with
        | nil => simp at one
        | cons d w =>
          cases awaits
          exact ⟨w, rfl, (awaitedNext_closing closes).2 rfl⟩
      · by_cases opens : isOpening c
        · obtain ⟨d, found⟩ := awaitedNext_opening opens
          rw [found, Option.some.injEq] at step
          exact ⟨d :: w, step.symm, found w⟩
        · rw [awaitedNext_other opens closes, Option.some.injEq] at step
          exact ⟨w, step.symm, awaitedNext_other opens closes w⟩
    obtain ⟨x, rfl, own⟩ := first
    have single : awaited codeBrackets w [c] = some x := by
      rw [awaited, own]
      rfl
    have counted := length_awaited single
    obtain ⟨further, whole, found⟩ := ih rest fun t starts => by
      have behind := inside (c :: t) (List.cons_prefix_cons.2 ⟨rfl, starts⟩)
      rw [← List.singleton_append, List.countP_append, List.countP_append] at behind
      omega
    exact ⟨further, whole, by rw [awaited, own, Option.bind_some, found]⟩

end

/-- The characters of script code that stand outside its literals. -/
def outside (p : Place) (s : Text) : Text := ((scriptMarks p s).filter Prod.snd).map Prod.fst

/-- The brackets outside literals. -/
def brackets (p : Place) (s : Text) : Text := (outside p s).filter (isBracket codeBrackets)

/-- The place behind an inert character: what was escaped is over. -/
def Place.past : Place → Place
  | escape q => literal q
  | p => p

/-- A character that neither quotes nor escapes and is no bracket. -/
def isInert (c : Char) : Bool := !isStructural c && c != '\\'

/-- Two texts that have the same brackets outside literals and end in the same place, wherever they
stand. -/
def Alike (s t : Text) : Prop :=
  ∀ p : Place, p.Proper → brackets p s = brackets p t ∧ s.foldl Place.next p = t.foldl Place.next p

section

variable {p : Place} {c : Char} {s t u v : Text}

theorem outside_cons (p : Place) (c : Char) (s : Text) :
    outside p (c :: s) =
      if p.quote.isNone then c :: outside (p.next c) s else outside (p.next c) s := by
  unfold outside
  rw [scriptMarks]
  cases p.quote <;> rfl

theorem outside_append (p : Place) (s t : Text) :
    outside p (s ++ t) = outside p s ++ outside (s.foldl Place.next p) t := by
  induction s generalizing p with
  | nil => rfl
  | cons c s ih =>
    rw [List.cons_append, outside_cons, outside_cons, ih, List.foldl_cons]
    split
    · rw [List.cons_append]
    · rfl

theorem brackets_append (p : Place) (s t : Text) :
    brackets p (s ++ t) = brackets p s ++ brackets (s.foldl Place.next p) t := by
  rw [brackets, outside_append, List.filter_append]
  rfl

theorem proper_foldl (proper : p.Proper) (s : Text) : (s.foldl Place.next p).Proper := by
  induction s generalizing p with
  | nil => exact proper
  | cons c s ih => exact ih (proper.next c)

theorem isBalanced_iff_brackets (s : Text) :
    IsBalanced codeBrackets (outside .code s) ↔
      awaited codeBrackets [] (brackets .code s) = some [] := by
  rw [IsBalanced, brackets, awaited_filter]

namespace Alike

theorem refl (s : Text) : Alike s s := fun _ _ => ⟨rfl, rfl⟩

theorem append (hs : Alike s t) (hu : Alike u v) : Alike (s ++ u) (t ++ v) := by
  intro p proper
  obtain ⟨front, place⟩ := hs p proper
  obtain ⟨back, rest⟩ := hu _ (proper_foldl proper s)
  constructor
  · rw [brackets_append, brackets_append, front, back, place]
  · rw [List.foldl_append, List.foldl_append, rest, place]

end Alike

theorem next_of_isInert (proper : p.Proper) (inert : isInert c) : p.next c = p.past := by
  simp only [isInert, isStructural, Bool.and_eq_true, Bool.not_eq_true', Bool.or_eq_false_iff,
    bne_iff_ne] at inert
  obtain ⟨⟨⟨noQuote, -⟩, -⟩, noBackslash⟩ := inert
  cases p with
  | code => rw [Place.next, if_neg (by simp [noQuote])]; rfl
  | literal q =>
    have other : c ≠ q := by
      rintro rfl
      rw [proper c rfl] at noQuote
      cases noQuote
    rw [Place.next, if_neg noBackslash, if_neg other]
    rfl
  | escape q => rfl

theorem outside_subset (p : Place) (s : Text) : outside p s ⊆ s := by
  intro c mem
  obtain ⟨m, kept, rfl⟩ := List.mem_map.1 mem
  rw [← map_fst_scriptMarks p s]
  exact List.mem_map_of_mem (List.mem_of_mem_filter kept)

theorem brackets_of_isInert (inert : ∀ c ∈ s, isInert c) (p : Place) : brackets p s = [] := by
  refine List.filter_eq_nil_iff.2 fun c mem => ?_
  have plain := inert c (outside_subset p s mem)
  simp only [isInert, isStructural, Bool.and_eq_true, Bool.not_eq_true',
    Bool.or_eq_false_iff] at plain
  simp [isBracket_codeBrackets, plain.1.1.2, plain.1.2]

theorem foldl_of_isInert (proper : p.Proper) (inert : ∀ c ∈ s, isInert c) (filled : s ≠ []) :
    s.foldl Place.next p = p.past := by
  have stays : ∀ s : Text, (∀ c ∈ s, isInert c) → s.foldl Place.next p.past = p.past := by
    intro s inert
    have past : p.past.Proper ∧ p.past.past = p.past := by
      cases p with
      | code => exact ⟨proper, rfl⟩
      | literal q => exact ⟨proper, rfl⟩
      | escape q => exact ⟨proper, rfl⟩
    induction s with
    | nil => rfl
    | cons c s ih =>
      obtain ⟨first, rest⟩ := List.forall_mem_cons.1 inert
      rw [List.foldl_cons, next_of_isInert past.1 first, past.2, ih rest]
  obtain ⟨c, s, rfl⟩ := List.exists_cons_of_ne_nil filled
  obtain ⟨first, rest⟩ := List.forall_mem_cons.1 inert
  rw [List.foldl_cons, next_of_isInert proper first, stays s rest]

/-- Any two inert texts are alike, if there is something in them. -/
theorem alike_of_isInert (hs : ∀ c ∈ s, isInert c) (ht : ∀ c ∈ t, isInert c) (filled : s ≠ [])
    (filled' : t ≠ []) : Alike s t := by
  intro p proper
  rw [brackets_of_isInert hs, brackets_of_isInert ht, foldl_of_isInert proper hs filled,
    foldl_of_isInert proper ht filled']
  exact ⟨rfl, rfl⟩

/-- Inert texts around code do not change its brackets. -/
theorem brackets_around (hu : ∀ c ∈ u, isInert c) (hv : ∀ c ∈ v, isInert c) (s : Text) :
    brackets .code (u ++ s ++ v) = brackets .code s := by
  have code : u.foldl Place.next .code = .code := by
    by_cases filled : u = []
    · rw [filled, List.foldl_nil]
    · exact foldl_of_isInert Place.proper_code hu filled
  rw [brackets_append, brackets_append, brackets_of_isInert hu, brackets_of_isInert hv, code,
    List.nil_append, List.append_nil]

end

end SwiftDraft.Text
