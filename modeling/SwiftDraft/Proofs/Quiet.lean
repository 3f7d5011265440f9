import SwiftDraft.Draft.Printer
import SwiftDraft.Draft.Declarations
import SwiftDraft.Proofs.Comments
import SwiftDraft.Proofs.Pieces
import SwiftDraft.Proofs.Rewriting

/-!
# Quiet texts

The scan for the end of a parameter list goes by the brackets and the quotes of a text alone
(`behind_filter`). A text is quiet if the scan leaves it as it came; a list of quiet parameters is
read up to its own `)`.
-/

namespace SwiftDraft

namespace Text

/-- Where the scan for the end of a list stands: the brackets open in the list, and the quote it is
inside of. -/
structure Scan where
  depth : Nat
  quote : Option Char
  deriving DecidableEq, Repr

namespace Scan

/-- The scan behind one more character, unless that ends the list. -/
def next (s : Scan) (c : Char) : Option Scan :=
  match s.quote with
  | some q => some ⟨s.depth, if c = q then none else some q⟩
  | none =>
    if isQuote c then some ⟨s.depth, some c⟩
    else if isOpening c then some ⟨s.depth + 1, none⟩
    else if c = ')' ∧ s.depth = 0 then none
    else if isClosing c then some ⟨s.depth - 1, none⟩
    else some s

/-- The scan behind a text, unless the list ends in it. -/
def behind (s : Scan) : Text → Option Scan
  | [] => some s
  | c :: r => (s.next c).bind fun s' => s'.behind r

variable {s s' : Scan} {c : Char} {t u : Text}

theorem behind_append (s : Scan) (t u : Text) :
    s.behind (t ++ u) = (s.behind t).bind (·.behind u) := by
  induction t generalizing s with
  | nil => rfl
  | cons c t ih =>
    rw [List.cons_append, behind, behind, Option.bind_assoc]
    exact congrArg _ (funext fun s' => ih s')

end Scan

open Scan

theorem cutClosing_cons (s : Scan) (c : Char) (r : Text) :
    cutClosing s.depth s.quote (c :: r) =
      match s.next c with
      | none => some ([], r)
      | some s' => (cutClosing s'.depth s'.quote r).map fun (l, rest) => (c :: l, rest) := by
  obtain ⟨depth, quote⟩ := s
  cases quote with
  | some q => rfl
  | none =>
    simp only [cutClosing, next]
    by_cases quotes : isQuote c
    · simp only [if_pos quotes]
    · by_cases opens : isOpening c
      · simp only [if_neg quotes, if_pos opens]
      · by_cases ends : c = ')' ∧ depth = 0
        · simp only [if_neg quotes, if_neg opens, if_pos ends]
        · by_cases closes : isClosing c
          · simp only [if_neg quotes, if_neg opens, if_neg ends, if_pos closes]
          · simp only [if_neg quotes, if_neg opens, if_neg ends, if_neg closes]

/-- Where the scan passes a text, the list ends behind it. -/
theorem cutClosing_append {s s' : Scan} {t : Text} (passed : s.behind t = some s') (u : Text) :
    cutClosing s.depth s.quote (t ++ u) =
      (cutClosing s'.depth s'.quote u).map fun (l, rest) => (t ++ l, rest) := by
  induction t generalizing s with
  | nil =>
    cases passed
    exact Option.map_id'.symm
  | cons c t ih =>
    obtain ⟨m, step, passed⟩ := Option.bind_eq_some_iff.1 passed
    rw [List.cons_append, cutClosing_cons, step]
    simp only
    rw [ih passed, Option.map_map]
    rfl

/-- The characters that a scan looks at. -/
def isStructural (c : Char) : Bool := isQuote c || isOpening c || isClosing c

/-- A scan that is inside a quote, if inside anything. -/
def Scan.Quoted (s : Scan) : Prop := ∀ q ∈ s.quote, isQuote q

theorem Scan.Quoted.next {s s' : Scan} {c : Char} (quoted : s.Quoted) (step : s.next c = some s') :
    s'.Quoted := by
  obtain ⟨depth, quote⟩ := s
  cases quote with
  | some q =>
    cases step
    intro q' mem
    split at mem
    · cases mem
    · exact quoted q' mem
  | none =>
    simp only [Scan.next] at step
    split at step
    · next quotes =>
      cases step
      rintro q ⟨⟩
      exact quotes
    · split at step
      · cases step
        exact nofun
      · split at step
        · cases step
        · split at step <;> cases step <;> exact nofun

theorem Scan.next_of_not_structural {s : Scan} {c : Char} (quoted : s.Quoted)
    (plain : isStructural c = false) : s.next c = some s := by
  simp only [isStructural, Bool.or_eq_false_iff] at plain
  obtain ⟨⟨noQuote, noOpening⟩, noClosing⟩ := plain
  obtain ⟨depth, quote⟩ := s
  cases quote with
  | some q =>
    have other : c ≠ q := by
      rintro rfl
      rw [quoted c rfl] at noQuote
      cases noQuote
    simp only [Scan.next, if_neg other]
  | none =>
    have noEnd : ¬ (c = ')' ∧ depth = 0) := by
      rintro ⟨rfl, -⟩
      cases noClosing
    simp [Scan.next, noQuote, noOpening, noClosing, noEnd]

/-- Characters that are neither brackets nor quotes do not matter to a scan. -/
theorem Scan.behind_filter {s : Scan} (quoted : s.Quoted) (t : Text) :
    s.behind (t.filter isStructural) = s.behind t := by
  induction t generalizing s with
  | nil => rfl
  | cons c t ih =>
    cases plain : isStructural c with
    | false =>
      rw [List.filter_cons_of_neg (by simp [plain]), ih quoted, behind,
        next_of_not_structural quoted plain]
      rfl
    | true =>
      rw [List.filter_cons_of_pos plain, behind, behind]
      cases step : s.next c with
      | none => rfl
      | some s' => exact ih (quoted.next step)

/-- A text that a list goes on behind as in front of it, at some depth of brackets. -/
def Quiet (depth : Nat) (t : Text) : Prop := Scan.behind ⟨depth, none⟩ t = some ⟨depth, none⟩

instance (depth : Nat) (t : Text) : Decidable (Quiet depth t) := inferInstanceAs (Decidable (_ = _))

namespace Quiet

variable {t u : Text} {depth : Nat}

theorem congr (h : Quiet depth t) (same : u.filter isStructural = t.filter isStructural) :
    Quiet depth u := by
  have quoted : Scan.Quoted ⟨depth, none⟩ := nofun
  unfold Quiet at h ⊢
  rw [← behind_filter quoted, same, behind_filter quoted, h]

theorem append (ht : Quiet depth t) (hu : Quiet depth u) : Quiet depth (t ++ u) := by
  unfold Quiet at ht ⊢
  rw [behind_append, ht]
  exact hu

theorem of_plain (depth : Nat) (h : t.any isStructural = false) : Quiet depth t := by
  have nothing : t.filter isStructural = [] := List.filter_eq_nil_iff.2 (List.any_eq_false.1 h)
  exact congr (t := []) rfl (nothing.trans rfl)

theorem bracketed (h : Quiet (depth + 1) t) {opens closes : Char} (opening : isOpening opens)
    (closing : isClosing closes) (noQuote : isQuote opens = false ∧ isQuote closes = false)
    (other : isOpening closes = false) : Quiet depth (opens :: t ++ [closes]) := by
  have first : Scan.next ⟨depth, none⟩ opens = some ⟨depth + 1, none⟩ := by
    simp [Scan.next, noQuote.1, opening]
  have last : Scan.next ⟨depth + 1, none⟩ closes = some ⟨depth, none⟩ := by
    simp [Scan.next, noQuote.2, other, closing]
  unfold Quiet at h ⊢
  rw [List.cons_append, behind, first, Option.bind_some, behind_append, h, Option.bind_some, behind, last]
  rfl

theorem join {sep : String} {parts : List Text} (between : Quiet depth sep.toList)
    (h : ∀ part ∈ parts, Quiet depth part) : Quiet depth (Text.join sep parts) :=
  join_induction rfl (fun _ _ => append) between h

/-- A list that starts with a quiet text and its `)` is that text. -/
theorem cutClosing_eq (h : Quiet 0 t) (rest : Text) :
    cutClosing 0 none (t ++ ')' :: rest) = some (t, rest) := by
  rw [cutClosing_append h]
  simp [cutClosing, isQuote, isOpening]

end Quiet

end Text

namespace Draft

open Text

/-- A type closes the brackets it opens. -/
theorem quiet_text (t : SwiftType) (depth : Nat) : Quiet depth t.text := by
  have plain {s : Text} (depth : Nat) (h : s.any isStructural = false) : Quiet depth s :=
    .of_plain depth h
  induction t using SwiftType.induction generalizing depth with
  | plain t mem =>
    simp only [List.mem_cons, List.not_mem_nil, or_false] at mem
    rcases mem with rfl | rfl | rfl | rfl | rfl | rfl | rfl | rfl <;> exact plain depth (by decide)
  | array t ih =>
    rw [SwiftType.text_array]
    exact (ih (depth + 1)).bracketed rfl rfl ⟨rfl, rfl⟩ rfl
  | set t ih =>
    rw [SwiftType.text_set]
    exact ((plain depth (by decide)).append (ih depth)).append (plain depth (by decide))
  | dictionary k v ihKey ihValue =>
    have between : Quiet (depth + 1) ": ".toList := plain _ (by decide)
    have inside := ((ihKey (depth + 1)).append between).append (ihValue (depth + 1))
    rw [SwiftType.text_dictionary]
    have whole : Quiet depth ('[' :: (k.text ++ ": ".toList ++ v.text) ++ [']']) :=
      inside.bracketed rfl rfl ⟨rfl, rfl⟩ rfl
    simpa using whole
  | optional t ih =>
    rw [SwiftType.text_optional]
    exact (ih depth).append (plain depth (by decide))
  | tuple ts ih =>
    rw [SwiftType.text_tuple]
    refine Quiet.bracketed (.join (plain _ (by decide)) fun part mem => ?_) rfl rfl ⟨rfl, rfl⟩ rfl
    obtain ⟨t, inTs, rfl⟩ := List.mem_map.1 mem
    exact ih t inTs (depth + 1)

theorem quiet_expression {e : Text} {depth : Nat} (h : Quiet depth e) :
    Quiet depth (expression e) := by
  refine h.congr (filter_expression ⟨by decide, fun c _ blank => ?_⟩)
  obtain ⟨-, noQuote, noOpening, noClosing⟩ := plain_of_isBlank blank
  simp [isStructural, noQuote, noOpening, noClosing]

/-- A parameter whose name and default value are quiet is printed as a quiet text. -/
theorem quiet_parameter {p : Script.Parameter} (name : Quiet 0 p.name)
    (default : ∀ d ∈ p.default, Quiet 0 d) : Quiet 0 (parameter p) := by
  have plain {s : Text} (h : s.any isStructural = false) : Quiet 0 s := .of_plain 0 h
  have starred {stars : String} {rest : Text} (found : after? stars p.name = some rest)
      (h : stars.toList.any isStructural = false) : Quiet 0 rest := by
    have nothing : stars.toList.filter isStructural = [] :=
      List.filter_eq_nil_iff.2 (List.any_eq_false.1 h)
    refine name.congr ?_
    rw [after?_eq_some_iff.1 found, List.filter_append, nothing, List.nil_append]
  unfold parameter
  split
  · next rest found =>
    exact (starred found (by decide)).append (by decide)
  · split
    · next rest found =>
      exact ((plain (by decide)).append (starred found (by decide))).append (plain (by decide))
    · refine (name.append ?_).append ?_
      · split
        · exact (plain (by decide)).append (quiet_text _ 0)
        · rfl
      · split
        · next d given => exact (plain (by decide)).append (quiet_expression (default d given))
        · rfl

end Draft

end SwiftDraft
