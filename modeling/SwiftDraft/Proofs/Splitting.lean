import SwiftDraft.Proofs.Quiet
import SwiftDraft.Proofs.Trimmed

/-!
# The items of a list

A list written with commas is cut at the commas outside brackets and quotes. A text is uncut at a
depth of brackets if the splitter passes it without a cut and goes on behind it as in front of it;
joined by commas, texts that are uncut at depth 0 are found again (`splitTopLevel_join`).
-/

namespace SwiftDraft.Text

/-- Puts a text in front of the first piece. -/
def prependPiece (t : Text) : List Text → List Text
  | [] => [t]
  | p :: ps => (t ++ p) :: ps

theorem consPiece_eq (c : Char) (ps : List Text) : consPiece c ps = prependPiece [c] ps := by
  cases ps <;> rfl

theorem prependPiece_append (s t : Text) (ps : List Text) :
    prependPiece (s ++ t) ps = prependPiece s (prependPiece t ps) := by
  cases ps with
  | nil => rfl
  | cons p ps => simp [prependPiece]

theorem commaPieces_ne_nil (depth : Int) (quote : Option Char) (s : Text) :
    commaPieces depth quote s ≠ [] := by
  have filled (c : Char) (ps : List Text) : consPiece c ps ≠ [] := by
    cases ps <;> simp [consPiece]
  cases s with
  | nil => simp [commaPieces]
  | cons c r =>
    unfold commaPieces
    split
    · exact filled c _
    · split
      · exact filled c _
      · split
        · exact filled c _
        · split
          · exact filled c _
          · split
            · exact List.cons_ne_nil _ _
            · exact filled c _

/-- The splitter passes a text without a cut, and stands behind it as in front of it. -/
def Uncut (depth : Int) (t : Text) : Prop :=
  ∀ rest, commaPieces depth none (t ++ rest) = prependPiece t (commaPieces depth none rest)

namespace Uncut

variable {depth : Int} {t u : Text} {c : Char}

theorem nil (depth : Int) : Uncut depth [] := by
  intro rest
  obtain ⟨p, ps, shape⟩ := List.exists_cons_of_ne_nil (commaPieces_ne_nil depth none rest)
  rw [List.nil_append, shape]
  rfl

theorem append (ht : Uncut depth t) (hu : Uncut depth u) : Uncut depth (t ++ u) := by
  intro rest
  rw [List.append_assoc, ht, hu, prependPiece_append]

theorem singleton (plain : isStructural c = false) (inside : c = ',' → depth ≠ 0) :
    Uncut depth [c] := by
  intro rest
  simp only [isStructural, Bool.or_eq_false_iff] at plain
  obtain ⟨⟨noQuote, noOpening⟩, noClosing⟩ := plain
  have noCut : ¬ (c = ',' ∧ depth = 0) := fun h => inside h.1 h.2
  rw [List.singleton_append, commaPieces]
  simp [noQuote, noOpening, noClosing, noCut, consPiece_eq]

theorem of_plain (plain : ∀ c ∈ t, isStructural c = false)
    (inside : ∀ c ∈ t, c = ',' → depth ≠ 0) : Uncut depth t := by
  induction t with
  | nil => exact nil depth
  | cons c t ih =>
    obtain ⟨first, rest⟩ := List.forall_mem_cons.1 plain
    obtain ⟨here, behind⟩ := List.forall_mem_cons.1 inside
    exact (singleton first here).append (ih rest behind)

theorem bracketed (h : Uncut (depth + 1) t) {opens closes : Char} (opening : isOpening opens)
    (closing : isClosing closes) (noQuote : isQuote opens = false ∧ isQuote closes = false)
    (other : isOpening closes = false) : Uncut depth (opens :: t ++ [closes]) := by
  intro rest
  have opened (s : Text) : commaPieces depth none (opens :: s) =
      prependPiece [opens] (commaPieces (depth + 1) none s) := by
    rw [commaPieces, ← consPiece_eq]
    simp [noQuote.1, opening]
  have closed : commaPieces (depth + 1) none (closes :: rest) =
      prependPiece [closes] (commaPieces depth none rest) := by
    rw [commaPieces, ← consPiece_eq]
    simp [noQuote.2, other, closing]
  have split : opens :: t ++ [closes] ++ rest = opens :: (t ++ closes :: rest) := by simp
  rw [split, opened, h, closed, ← prependPiece_append, ← prependPiece_append]
  rfl

/-- A literal that holds no quote of its kind. -/
theorem quoted {q : Char} (quote : isQuote q) (absent : q ∉ t) :
    Uncut depth (q :: t ++ [q]) := by
  intro rest
  have literal : commaPieces depth (some q) (t ++ q :: rest) =
      prependPiece (t ++ [q]) (commaPieces depth none rest) := by
    induction t with
    | nil =>
      rw [List.nil_append, commaPieces, List.nil_append, ← consPiece_eq]
      simp
    | cons c t ih =>
      obtain ⟨other, further⟩ := not_or.1 (mt List.mem_cons.2 absent)
      rw [List.cons_append, commaPieces]
      simp only [if_neg (Ne.symm other)]
      rw [ih further, consPiece_eq, ← prependPiece_append]
      rfl
  have split : q :: t ++ [q] ++ rest = q :: (t ++ q :: rest) := by simp
  rw [split, commaPieces]
  simp only [if_pos quote]
  rw [literal, consPiece_eq, ← prependPiece_append]
  rfl

theorem join {sep : String} {parts : List Text} (between : Uncut depth sep.toList)
    (h : ∀ part ∈ parts, Uncut depth part) : Uncut depth (Text.join sep parts) :=
  join_induction (nil depth) (fun _ _ => append) between h

end Uncut

theorem commaPieces_join {parts : List Text} (filled : parts ≠ [])
    (uncut : ∀ part ∈ parts, Uncut 0 part) : commaPieces 0 none (join "," parts) = parts := by
  unfold join
  induction parts with
  | nil => exact absurd rfl filled
  | cons first parts ih =>
    obtain ⟨here, behind⟩ := List.forall_mem_cons.1 uncut
    cases parts with
    | nil =>
      have alone := here []
      rw [List.append_nil] at alone
      rw [List.intercalate_singleton, alone]
      simp [commaPieces, prependPiece]
    | cons second parts =>
      have cut (rest : Text) :
          commaPieces 0 none (",".toList ++ rest) = [] :: commaPieces 0 none rest := by
        rw [show ",".toList = [','] from rfl, List.singleton_append, commaPieces]
        simp [isQuote, isOpening, isClosing]
      have further := ih (List.cons_ne_nil _ _) behind
      rw [List.intercalate_cons_cons, List.append_assoc, here, cut, further]
      simp [prependPiece]

/-- The items of a list are those that were joined by commas, if each of them is uncut and not
blank. -/
theorem splitTopLevel_join {parts : List Text} (uncut : ∀ part ∈ parts, Uncut 0 part)
    (shown : ∀ part ∈ parts, trim part ≠ []) : splitTopLevel (join "," parts) = parts.map trim := by
  by_cases filled : parts = []
  · subst filled
    rfl
  · have kept : (parts.map trim).getLast? ≠ some [] := by
      intro last
      obtain ⟨part, mem, blank⟩ := List.mem_map.1 (List.mem_of_getLast? last)
      exact shown part mem blank
    simp only [splitTopLevel, commaPieces_join filled uncut, if_neg kept]

/-- A list that is written with a blank behind each comma. -/
theorem splitTopLevel_join_spaced {parts : List Text} (uncut : ∀ part ∈ parts, Uncut 0 part)
    (shown : ∀ part ∈ parts, trim part ≠ []) : splitTopLevel (join ", " parts) = parts.map trim := by
  have spaced (first : Text) (parts : List Text) :
      join ", " (first :: parts) = join "," (first :: parts.map (' ' :: ·)) := by
    unfold join
    induction parts generalizing first with
    | nil => rfl
    | cons second parts ih =>
      rw [List.intercalate_cons_cons, ih, List.map_cons, List.intercalate_cons_cons]
      cases parts <;> simp
  have blank (s : Text) : trim (' ' :: s) = trim s :=
    trim_of_blanks (i := [' ']) (List.forall_mem_singleton.2 (by decide)) s
  cases parts with
  | nil => rfl
  | cons first parts =>
    obtain ⟨here, behind⟩ := List.forall_mem_cons.1 uncut
    obtain ⟨filled, others⟩ := List.forall_mem_cons.1 shown
    rw [spaced, splitTopLevel_join, List.map_cons, List.map_map, List.map_cons]
    · exact congrArg _ (List.map_congr_left fun part _ => blank part)
    · refine List.forall_mem_cons.2 ⟨here, List.forall_mem_map.2 fun part mem => ?_⟩
      exact (Uncut.singleton (by decide) (by decide)).append (behind part mem)
    · refine List.forall_mem_cons.2 ⟨filled, List.forall_mem_map.2 fun part mem => ?_⟩
      rw [blank]
      exact others part mem

end SwiftDraft.Text

namespace SwiftDraft.Draft

open Text

/-- A type has no comma outside its brackets. -/
theorem uncut_text (t : SwiftType) {depth : Int} (inside : 0 ≤ depth) : Uncut depth t.text := by
  have plain {s : Text} (depth : Int) (h : s.any isStructural = false) (comma : ',' ∉ s) :
      Uncut depth s :=
    .of_plain (by simpa using h) fun c mem same => absurd (same ▸ mem) comma
  induction t using SwiftType.induction generalizing depth with
  | plain t mem =>
    simp only [List.mem_cons, List.not_mem_nil, or_false] at mem
    rcases mem with rfl | rfl | rfl | rfl | rfl | rfl | rfl | rfl <;>
      exact plain depth (by decide) (by decide)
  | array t ih =>
    rw [SwiftType.text_array]
    exact (ih (by omega)).bracketed rfl rfl ⟨rfl, rfl⟩ rfl
  | set t ih =>
    rw [SwiftType.text_set]
    exact ((plain depth (by decide) (by decide)).append (ih inside)).append
      (plain depth (by decide) (by decide))
  | dictionary k v ihKey ihValue =>
    have between : Uncut (depth + 1) ": ".toList := plain _ (by decide) (by decide)
    have whole : Uncut depth ('[' :: (k.text ++ ": ".toList ++ v.text) ++ [']']) :=
      (((ihKey (by omega)).append between).append (ihValue (by omega))).bracketed rfl rfl
        ⟨rfl, rfl⟩ rfl
    rw [SwiftType.text_dictionary]
    simpa using whole
  | optional t ih =>
    rw [SwiftType.text_optional]
    exact (ih inside).append (plain depth (by decide) (by decide))
  | tuple ts ih =>
    have plainComma : ", ".toList.any isStructural = false := by decide
    have comma : Uncut (depth + 1) ", ".toList :=
      .of_plain (by simpa using plainComma) fun _ _ _ => by omega
    rw [SwiftType.text_tuple]
    refine Uncut.bracketed (.join comma fun part mem => ?_) rfl rfl ⟨rfl, rfl⟩ rfl
    obtain ⟨t, inTs, rfl⟩ := List.mem_map.1 mem
    exact ih t inTs (by omega)

end SwiftDraft.Draft
