import SwiftDraft.Proofs.WrittenHints
import SwiftDraft.Skeleton.Sample

/-!
# Sample values

The literal for a type is chosen by the ends of the type as it is written, and by a colon that
stands in no brackets. Of written types this is enough: a colon of a type always stands in brackets
(`passed_text`), so the literal tells what kind of type was written (`fits_sample`). No two types
are written in the same way (`text_injective`).
-/

namespace SwiftDraft.Skeleton

open Text
open Draft (SwiftType hintType uncut_text tight_text)

/-- The search for a colon passes a text at this depth, and goes on behind it at the same depth. -/
def Passed (depth : Int) (t : Text) : Prop :=
  ∀ rest, hasTopColon depth (t ++ rest) = hasTopColon depth rest

/-- The characters that matter to the search. -/
def isColonSign (c : Char) : Bool := "[(<])>:".toList.contains c

namespace Passed

variable {depth : Int} {t u : Text}

theorem nil (depth : Int) : Passed depth [] := fun _ => rfl

theorem append (ht : Passed depth t) (hu : Passed depth u) : Passed depth (t ++ u) := by
  intro rest
  rw [List.append_assoc, ht, hu]

theorem of_plain (depth : Int) (plain : t.any isColonSign = false) : Passed depth t := by
  intro rest
  induction t with
  | nil => rfl
  | cons c t ih =>
    obtain ⟨here, behind⟩ := Bool.or_eq_false_iff.1 plain
    have other : (c ≠ '[' ∧ c ≠ '(' ∧ c ≠ '<') ∧ (c ≠ ']' ∧ c ≠ ')' ∧ c ≠ '>') ∧ c ≠ ':' := by
      refine ⟨⟨?_, ?_, ?_⟩, ⟨?_, ?_, ?_⟩, ?_⟩ <;> rintro rfl <;> exact absurd here (by decide)
    simpa [hasTopColon, other] using ih behind

/-- A colon in brackets is passed. -/
theorem colon (inside : depth ≠ 0) : Passed depth [':'] := by
  intro rest
  simp [hasTopColon, inside]

theorem bracketed {o c : Char} (inner : Passed (depth + 1) t) (opens : o = '[' ∨ o = '(' ∨ o = '<')
    (closes : c = ']' ∨ c = ')' ∨ c = '>') : Passed depth (o :: t ++ [c]) := by
  intro rest
  have closed : hasTopColon (depth + 1) (c :: rest) = hasTopColon depth rest := by
    have noOpening : ¬(c = '[' ∨ c = '(' ∨ c = '<') := by
      rcases closes with rfl | rfl | rfl <;> decide
    rw [hasTopColon, if_neg noOpening, if_pos closes, Int.add_sub_cancel]
  have split : o :: t ++ [c] ++ rest = o :: (t ++ c :: rest) := by simp
  rw [split, hasTopColon, if_pos opens, inner, closed]

theorem join {sep : String} {parts : List Text} (between : Passed depth sep.toList)
    (h : ∀ part ∈ parts, Passed depth part) : Passed depth (Text.join sep parts) :=
  join_induction (nil depth) (fun _ _ => append) between h

end Passed

/-- The search passes every type: its colons stand in brackets, and its brackets are closed. -/
theorem passed_text (t : SwiftType) {depth : Int} (inside : 0 ≤ depth) : Passed depth t.text := by
  have square (t : Text) (depth : Int) (inner : Passed (depth + 1) t) :
      Passed depth ('[' :: t ++ [']']) := inner.bracketed (by decide) (by decide)
  induction t using SwiftType.induction generalizing depth with
  | plain t mem =>
    simp only [List.mem_cons, List.not_mem_nil, or_false] at mem
    rcases mem with rfl | rfl | rfl | rfl | rfl | rfl | rfl | rfl
    case inr.inr.inr.inr.inr.inr.inr =>
      have name : Passed (depth + 1) "AnyHashable".toList := .of_plain _ (by decide)
      exact (Passed.of_plain depth (t := "Set".toList) (by decide)).append
        (name.bracketed (o := '<') (c := '>') (by decide) (by decide))
    all_goals exact .of_plain depth (by decide)
  | array t ih =>
    rw [SwiftType.text_array]
    exact square t.text depth (ih (by omega))
  | set t ih =>
    have inner : Passed depth ('<' :: t.text ++ ['>']) :=
      (ih (Int.le_add_one inside)).bracketed (by decide) (by decide)
    rw [SwiftType.text_set]
    exact (Passed.of_plain depth (t := "Set".toList) (by decide)).append inner
  | dictionary k v ihKey ihValue =>
    have between : Passed (depth + 1) ": ".toList :=
      (Passed.colon (by omega)).append (.of_plain _ (t := [' ']) (by decide))
    have whole := square (k.text ++ ": ".toList ++ v.text) depth
      (((ihKey (by omega)).append between).append (ihValue (by omega)))
    rw [SwiftType.text_dictionary]
    simpa using whole
  | optional t ih =>
    rw [SwiftType.text_optional]
    exact (ih inside).append (.of_plain depth (by decide))
  | tuple ts ih =>
    have parts : ∀ part ∈ ts.map SwiftType.text, Passed (depth + 1) part :=
      List.forall_mem_map.2 fun t mem => ih t mem (by omega)
    rw [SwiftType.text_tuple]
    exact (Passed.join (.of_plain _ (by decide)) parts).bracketed (by decide) (by decide)

theorem hasTopColon_text (t : SwiftType) : hasTopColon 0 t.text = false := by
  have passed := passed_text t (Int.le_refl 0) []
  rwa [List.append_nil] at passed

theorem hasTopColon_key (k : SwiftType) (v : Text) :
    hasTopColon 0 (k.text ++ ": ".toList ++ v) = true := by
  rw [List.append_assoc, passed_text k (Int.le_refl 0)]
  rfl

end SwiftDraft.Skeleton

namespace SwiftDraft.Draft.SwiftType

open Text
open Skeleton (passed_text hasTopColon_text hasTopColon_key)

/-- The last character of a type as it is written. -/
def lastSign : SwiftType → Char
  | int => 't'
  | double => 'e'
  | string => 'g'
  | bool => 'l'
  | data => 'a'
  | any => 'y'
  | void => 'd'
  | anySet | set _ => '>'
  | array _ | dictionary _ _ => ']'
  | optional _ => '?'
  | tuple _ => ')'

theorem getLast?_text (t : SwiftType) : t.text.getLast? = some t.lastSign := by
  cases t with
  | tuple ts =>
    rw [text_tuple]
    exact List.getLast?_concat
  | array t | set t | dictionary k v | optional t => exact List.getLast?_concat
  | _ => decide

/-- A key is followed by the first colon that stands in no brackets. -/
theorem key_unique {k k' : SwiftType} {v v' : Text}
    (same : k.text ++ ':' :: v = k'.text ++ ':' :: v') : k.text = k'.text ∧ v = v' := by
  -- A key that goes on behind the other one would have that colon in it.
  have equal {k k' : SwiftType} {x v v' : Text} (longer : k'.text = k.text ++ x)
      (behind : ':' :: v = x ++ ':' :: v') : x = [] := by
    cases x with
    | nil => rfl
    | cons c x =>
      have first : c = ':' := (List.cons.inj behind).1.symm
      have colon := passed_text k (Int.le_refl 0) (c :: x)
      rw [← longer, hasTopColon_text, first] at colon
      cases colon
  rcases List.append_eq_append_iff.1 same with ⟨x, longer, behind⟩ | ⟨x, longer, behind⟩
  · obtain rfl := equal longer behind
    exact ⟨by rw [longer, List.append_nil], (List.cons.inj behind).2⟩
  · obtain rfl := equal longer behind
    exact ⟨by rw [longer, List.append_nil], (List.cons.inj behind).2.symm⟩

theorem array_ne_dictionary (t k v : SwiftType) : (array t).text ≠ (dictionary k v).text := by
  intro same
  rw [text_array, text_dictionary, List.append_left_inj, List.cons_append, List.cons_append,
    List.cons.injEq] at same
  have colon := hasTopColon_text t
  rw [same.2, hasTopColon_key] at colon
  cases colon

theorem set_ne_anySet (t : SwiftType) : (set t).text ≠ anySet.text := by
  intro same
  have inner : t.text = "AnyHashable".toList := by
    have whole : anySet.text = "Set<".toList ++ "AnyHashable".toList ++ ['>'] := rfl
    rw [text_set, whole, List.append_left_inj, List.append_right_inj] at same
    exact same
  have last := getLast?_text t
  rw [inner] at last
  cases t with
  | double => exact absurd inner (by decide)
  | _ => simp [lastSign] at last

theorem lastSign_congr {s t : SwiftType} (same : s.text = t.text) : s.lastSign = t.lastSign := by
  have ends := getLast?_text s
  rw [same, getLast?_text] at ends
  exact (Option.some.inj ends).symm

/-- The parts of a tuple are found again. -/
theorem splitTopLevel_texts (ts : List SwiftType) :
    splitTopLevel (join ", " (ts.map text)) = ts.map text := by
  have uncut : ∀ part ∈ ts.map text, Uncut 0 part :=
    List.forall_mem_map.2 fun t _ => uncut_text t (Int.le_refl 0)
  have trimmed : ∀ part ∈ ts.map text, trim part = part :=
    List.forall_mem_map.2 fun t _ => (tight_text t).trim_eq
  have shown : ∀ part ∈ ts.map text, trim part ≠ [] := by
    intro part mem
    obtain ⟨t, -, rfl⟩ := List.mem_map.1 mem
    rw [(tight_text t).trim_eq]
    exact (tight_text t).1
  rw [splitTopLevel_join_spaced uncut shown, List.map_congr_left trimmed, List.map_id']

theorem eq_of_map_text {ss ts : List SwiftType}
    (parts : ∀ s ∈ ss, ∀ t : SwiftType, s.text = t.text → s = t)
    (same : ss.map text = ts.map text) : ss = ts := by
  induction ss generalizing ts with
  | nil => exact (List.map_eq_nil_iff.1 same.symm).symm
  | cons s ss ih =>
    obtain ⟨here, behind⟩ := List.forall_mem_cons.1 parts
    obtain ⟨t, ts, rfl, first, rest⟩ := List.map_eq_cons_iff.1 same.symm
    rw [here t first.symm, ih behind rest.symm]

/-- What a type is, its text tells. -/
theorem text_injective : Function.Injective text := by
  intro s t same
  have last := lastSign_congr same
  induction s using SwiftType.induction generalizing t with
  | plain s mem =>
    simp only [List.mem_cons, List.not_mem_nil, or_false] at mem
    rcases mem with rfl | rfl | rfl | rfl | rfl | rfl | rfl | rfl
    case inr.inr.inr.inr.inr.inr.inr =>
      cases t with
      | anySet => rfl
      | set t => exact absurd same.symm (set_ne_anySet t)
      | _ => simp [lastSign] at last
    all_goals cases t <;> first | rfl | simp [lastSign] at last
  | array s ih =>
    cases t with
    | array t =>
      rw [text_array, text_array, List.append_left_inj, List.cons.injEq] at same
      rw [ih same.2 (lastSign_congr same.2)]
    | dictionary k v => exact absurd same (array_ne_dictionary s k v)
    | _ => simp [lastSign] at last
  | set s ih =>
    cases t with
    | set t =>
      rw [text_set, text_set, List.append_left_inj, List.append_right_inj] at same
      rw [ih same (lastSign_congr same)]
    | anySet => exact absurd same (set_ne_anySet s)
    | _ => simp [lastSign] at last
  | dictionary k v ihKey ihValue =>
    cases t with
    | dictionary k' v' =>
      rw [text_dictionary, text_dictionary, List.append_left_inj] at same
      have keys : k.text ++ ':' :: ' ' :: v.text = k'.text ++ ':' :: ' ' :: v'.text := by
        simpa using same
      obtain ⟨sameKey, behind⟩ := key_unique keys
      have sameValue : v.text = v'.text := (List.cons.inj behind).2
      rw [ihKey sameKey (lastSign_congr sameKey), ihValue sameValue (lastSign_congr sameValue)]
    | array t => exact absurd same.symm (array_ne_dictionary t k v)
    | _ => simp [lastSign] at last
  | optional s ih =>
    cases t with
    | optional t =>
      rw [text_optional, text_optional, List.append_left_inj] at same
      rw [ih same (lastSign_congr same)]
    | _ => simp [lastSign] at last
  | tuple ss ih =>
    cases t with
    | tuple ts =>
      rw [text_tuple, text_tuple, List.append_left_inj, List.cons.injEq] at same
      have parts := congrArg splitTopLevel same.2
      rw [splitTopLevel_texts, splitTopLevel_texts] at parts
      rw [eq_of_map_text (fun s mem t here => ih s mem here (lastSign_congr here)) parts]
    | _ => simp [lastSign] at last

/-- Whether a type is a set or optionals around one. -/
def holdsSet : SwiftType → Bool
  | anySet | set _ => true
  | optional t => t.holdsSet
  | _ => false

/-- The sample of a type. -/
def literal : SwiftType → Text
  | int => "42".toList
  | double => "3.14".toList
  | string => "\"test\"".toList
  | bool => "true".toList
  | array _ | anySet | set _ => "[]".toList
  | dictionary _ _ => "[:]".toList
  | optional t => if t.holdsSet then "[]".toList else "nil".toList
  | data | any | void | tuple _ => "nil".toList

theorem literal_optional (t : SwiftType) :
    (optional t).literal = if t.holdsSet then "[]".toList else "nil".toList := rfl

/-- The literals of a type; of collections the empty ones. An optional takes those of what it
wraps. -/
inductive LiteralOf : SwiftType → Text → Prop
  | int {digits : Text} (filled : digits ≠ []) (all : ∀ c ∈ digits, c.isDigit) :
      LiteralOf int digits
  | double {whole fraction : Text} (filled : whole ≠ [] ∧ fraction ≠ [])
      (all : ∀ c ∈ whole ++ fraction, c.isDigit) : LiteralOf double (whole ++ '.' :: fraction)
  | string {inside : Text} (plain : ∀ c ∈ inside, c ≠ '"' ∧ c ≠ '\\' ∧ c ≠ '\n') :
      LiteralOf string ('"' :: inside ++ ['"'])
  | true : LiteralOf bool "true".toList
  | false : LiteralOf bool "false".toList
  | array (t : SwiftType) : LiteralOf (array t) "[]".toList
  | anySet : LiteralOf anySet "[]".toList
  | set (t : SwiftType) : LiteralOf (set t) "[]".toList
  | dictionary (k v : SwiftType) : LiteralOf (dictionary k v) "[:]".toList
  | none (t : SwiftType) : LiteralOf (optional t) "nil".toList
  | some {t : SwiftType} {l : Text} (wrapped : LiteralOf t l) : LiteralOf (optional t) l

/-- What a value tells of the type that it was chosen for. -/
structure Fits (t : SwiftType) (value : Text) : Prop where
  int : value = "42".toList ↔ t = int
  double : value = "3.14".toList ↔ t = double
  string : value = "\"test\"".toList ↔ t = string
  bool : value = "true".toList ↔ t = bool
  dictionary : value = "[:]".toList ↔ ∃ k v, t = dictionary k v
  list : value = "[]".toList ↔ (∃ e, t = array e) ∨ t.holdsSet
  missing : value = "nil".toList ↔ t ∉ [.int, .double, .string, .bool] ∧
    (∀ k v, t ≠ .dictionary k v) ∧ (∀ e, t ≠ .array e) ∧ t.holdsSet = false
  /-- It is a literal of the type, if the type has any. -/
  literal : LiteralOf t value ∨ value = "nil".toList ∧ ∀ l, ¬LiteralOf t l

theorem literal_cases (t : SwiftType) : LiteralOf t t.literal ∨
    t.literal = "nil".toList ∧ ∀ l, ¬LiteralOf t l := by
  have wrapped {t : SwiftType} (holds : t.holdsSet) : LiteralOf t "[]".toList := by
    induction t using SwiftType.induction with
    | plain t mem =>
      simp only [List.mem_cons, List.not_mem_nil, or_false] at mem
      rcases mem with rfl | rfl | rfl | rfl | rfl | rfl | rfl | rfl
      case inr.inr.inr.inr.inr.inr.inr => exact .anySet
      all_goals cases holds
    | set t ih => exact .set t
    | optional t ih => exact .some (ih holds)
    | _ => cases holds
  cases t with
  | int => exact .inl (.int (by decide) (List.all_eq_true.1 rfl))
  | double => exact .inl (@LiteralOf.double ['3'] ['1', '4'] (by decide) (List.all_eq_true.1 rfl))
  | string => exact .inl (@LiteralOf.string ['t', 'e', 's', 't'] (by simp))
  | bool => exact .inl .true
  | array t => exact .inl (.array t)
  | anySet => exact .inl .anySet
  | set t => exact .inl (.set t)
  | dictionary k v => exact .inl (.dictionary k v)
  | optional t =>
    rw [literal_optional]
    split
    case isTrue holds => exact .inl (wrapped holds)
    case isFalse => exact .inl (.none t)
  | _ => exact .inr ⟨rfl, fun l is => by cases is⟩

theorem fits_literal (t : SwiftType) : Fits t t.literal := by
  have literal := literal_cases t
  cases t with
  | optional t =>
    rw [literal_optional] at literal ⊢
    cases holds : t.holdsSet <;> simp only [holds] at literal <;>
      refine ⟨?_, ?_, ?_, ?_, ?_, ?_, ?_, literal⟩ <;> simp [holdsSet, holds]
  | _ =>
    unfold SwiftType.literal at literal ⊢
    refine ⟨?_, ?_, ?_, ?_, ?_, ?_, ?_, literal⟩ <;> simp [holdsSet]

end SwiftDraft.Draft.SwiftType

namespace SwiftDraft.Skeleton

open Text
open Draft (SwiftType hintType tight_text)

/-- The names of the types that have values of their own. -/
def valueNames : List String :=
  ["Int", "Int8", "Int16", "Int32", "Int64", "UInt", "Double", "Float", "CGFloat", "String",
    "Substring", "Bool"]

theorem sampleOf_of_unnamed {type : Text} (unnamed : ∀ n ∈ valueNames, type ≠ n.toList) :
    sampleOf type =
      if type.head? = some '[' ∧ type.getLast? = some ']' then
        if hasTopColon 0 type.tail.dropLast then "[:]".toList else "[]".toList
      else if startsWith type "Set<" then "[]".toList
      else "nil".toList := by
  simp only [valueNames, List.forall_mem_cons] at unnamed
  simp only [sampleOf, List.any_cons, List.any_nil, beq_eq_decide, unnamed, decide_false,
    Bool.or_self, Bool.false_eq_true, if_false]

/-- A composed type is written with a sign at its end. -/
theorem unnamed_of_lastSign {t : SwiftType} (sign : t.lastSign ∈ "])>?".toList) :
    ∀ n ∈ valueNames, t.text ≠ n.toList := by
  intro n mem same
  have noSign : ∀ n ∈ valueNames, n.toList.getLast?.any ("])>?".toList.contains ·) = false := by
    decide
  have other := noSign n mem
  rw [← same, t.getLast?_text, Option.any_some, List.contains_eq_mem,
    decide_eq_false_iff_not] at other
  exact other sign

theorem startsWith_text (t : SwiftType) : startsWith t.text "Set<" = t.holdsSet := by
  induction t using SwiftType.induction with
  | plain t mem =>
    simp only [List.mem_cons, List.not_mem_nil, or_false] at mem
    rcases mem with rfl | rfl | rfl | rfl | rfl | rfl | rfl | rfl <;> decide
  | set t ih => rfl
  | optional t ih =>
    have other : "Set<".toList ≠ t.text ++ ['?'] := by
      intro same
      have last := congrArg List.getLast? same
      rw [List.getLast?_concat] at last
      exact absurd last (by decide)
    have same : startsWith (t.text ++ ['?']) "Set<" = startsWith t.text "Set<" := by
      rw [Bool.eq_iff_iff]
      simp only [startsWith, List.isPrefixOf_iff_prefix, List.prefix_concat_iff, other, false_or]
    rw [SwiftType.text_optional, same, ih, SwiftType.holdsSet]
  | _ => rfl

/-- The sample of a type that is written with a sign at its end, by the signs at its ends. -/
theorem sample_of_lastSign {t : SwiftType} (sign : t.lastSign ∈ "])>?".toList) :
    sample (some t.text) =
      if t.text.head? = some '[' ∧ t.lastSign = ']' then
        if hasTopColon 0 t.text.tail.dropLast then "[:]".toList else "[]".toList
      else if t.holdsSet then "[]".toList
      else "nil".toList := by
  rw [sample, (tight_text t).trim_eq, sampleOf_of_unnamed (unnamed_of_lastSign sign),
    t.getLast?_text, startsWith_text]
  simp only [Option.some.injEq]

theorem sample_text (t : SwiftType) : sample (some t.text) = t.literal := by
  cases t with
  | array t =>
    have inner : (SwiftType.array t).text.tail.dropLast = t.text := List.dropLast_concat
    rw [sample_of_lastSign (by simp [SwiftType.lastSign]), if_pos ⟨rfl, rfl⟩, inner,
      hasTopColon_text]
    rfl
  | dictionary k v =>
    have inner : (SwiftType.dictionary k v).text.tail.dropLast = k.text ++ ": ".toList ++ v.text :=
      List.dropLast_concat
    rw [sample_of_lastSign (by simp [SwiftType.lastSign]), if_pos ⟨rfl, rfl⟩, inner,
      hasTopColon_key]
    rfl
  | anySet | set t | optional t | tuple ts =>
    rw [sample_of_lastSign (by simp [SwiftType.lastSign]), if_neg (by simp [SwiftType.lastSign])]
    rfl
  | _ => decide

/-- The sample of a hint's type tells what kind of type it is, and it is a literal of that type if
the type has any. The text of the type leaves no doubt which type that is. -/
theorem sample_tells_type (hint : Text) :
    (∀ t : SwiftType, t.text = (hintType hint).text → t = hintType hint) ∧
      (hintType hint).Fits (sample (some (hintType hint).text)) := by
  refine ⟨fun t same => SwiftType.text_injective same, ?_⟩
  rw [sample_text]
  exact SwiftType.fits_literal (hintType hint)

end SwiftDraft.Skeleton
