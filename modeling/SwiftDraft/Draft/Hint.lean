import SwiftDraft.Draft.SwiftType
import SwiftDraft.Text.Literal

/-!
# Type hints

The Swift type of a Python hint, by a table of names and of generic types. What the table does
not know is `Any`.
-/

namespace SwiftDraft.Draft

open Text

/-- The type of a name without arguments. -/
def plainType (name : Text) : SwiftType :=
  if name = "int".toList then .int
  else if name = "float".toList then .double
  else if name = "str".toList then .string
  else if name = "bool".toList then .bool
  else if name = "bytes".toList then .data
  else if name = "list".toList ∨ name = "List".toList then .array .any
  else if name = "dict".toList ∨ name = "Dict".toList then .dictionary .string .any
  else if name = "tuple".toList ∨ name = "Tuple".toList then .tuple [.any, .any]
  else if name = "set".toList ∨ name = "Set".toList then .anySet
  else if name = "None".toList then .void
  else .any

/-- The type of a generic name with the types of its arguments. -/
def genericType (name : Text) (arguments : List SwiftType) : SwiftType :=
  let named (names : List String) : Bool := names.any fun n => name == n.toList
  match arguments with
  | [t] =>
    if named ["List", "list", "Sequence", "Iterable"] then .array t
    else if named ["Set", "set"] then .set t
    else if named ["Optional"] then .optional t
    else if named ["Tuple", "tuple"] then .tuple [t]
    else .any
  | [k, v] =>
    if named ["Dict", "dict", "Mapping"] then .dictionary k v
    else if named ["Tuple", "tuple"] then .tuple [k, v]
    else .any
  | [] => .any
  | ts => if named ["Tuple", "tuple"] then .tuple ts else .any

/-- The last segment of a dotted name. -/
def lastSegment (name : Text) : Text := (name.reverse.takeWhile (· ≠ '.')).reverse

/-- The name before the first `[`, and what stands between it and a `]` that ends the text. -/
def genericParts? (hint : Text) : Option (Text × Text) :=
  match splitOnce? '[' hint with
  | none => none
  | some (base, rest) =>
    if rest.getLast? = some ']' then some (lastSegment (trim base), rest.dropLast) else none

/-- A hint without the blanks and then the quotes around it. -/
def unquoted (hint : Text) : Text := trimWhere isQuote (trim hint)

theorem length_trimEndWhere_le (p : Char → Bool) (s : Text) :
    (trimEndWhere p s).length ≤ s.length := by
  have := (List.dropWhile_suffix p (l := s.reverse)).length_le
  simpa [trimEndWhere] using this

theorem length_trim_le (s : Text) : (trim s).length ≤ s.length := by
  have end_le : (trimEnd (trimStart s)).length ≤ (trimStart s).length :=
    length_trimEndWhere_le isBlank _
  have start_le : (trimStart s).length ≤ s.length := (List.dropWhile_suffix isBlank).length_le
  exact Nat.le_trans end_le start_le

theorem length_unquoted_le (s : Text) : (unquoted s).length ≤ s.length := by
  have end_le := length_trimEndWhere_le isQuote ((trim s).dropWhile isQuote)
  have start_le : ((trim s).dropWhile isQuote).length ≤ (trim s).length :=
    (List.dropWhile_suffix isQuote).length_le
  exact Nat.le_trans end_le (Nat.le_trans start_le (length_trim_le s))

theorem mem_consPiece {c : Char} {ps : List Text} {n : Nat} (h : ∀ p ∈ ps, p.length ≤ n) :
    ∀ p ∈ consPiece c ps, p.length ≤ n + 1 := by
  cases ps with
  | nil => simp [consPiece]
  | cons q qs =>
    intro p hp
    simp only [consPiece, List.mem_cons] at hp
    rcases hp with rfl | hp
    · simpa using h q (by simp)
    · exact Nat.le_succ_of_le (h p (by simp [hp]))

theorem length_le_of_mem_commaPieces (s : Text) (depth : Int) (quote : Option Char) :
    ∀ p ∈ commaPieces depth quote s, p.length ≤ s.length := by
  induction s generalizing depth quote with
  | nil => simp [commaPieces]
  | cons c r ih =>
    unfold commaPieces
    split
    · exact mem_consPiece (ih _ _)
    · split
      · exact mem_consPiece (ih _ _)
      · split
        · exact mem_consPiece (ih _ _)
        · split
          · exact mem_consPiece (ih _ _)
          · split
            · intro p hp
              simp only [List.mem_cons] at hp
              rcases hp with rfl | hp
              · simp
              · exact Nat.le_succ_of_le (ih _ _ p hp)
            · exact mem_consPiece (ih _ _)

theorem length_le_of_mem_splitTopLevel {s p : Text} (h : p ∈ splitTopLevel s) :
    p.length ≤ s.length := by
  have mem : p ∈ (commaPieces 0 none s).map trim := by
    simp only [splitTopLevel] at h
    split at h
    · exact List.dropLast_subset _ h
    · exact h
  obtain ⟨q, hq, rfl⟩ := List.mem_map.1 mem
  exact Nat.le_trans (length_trim_le q) (length_le_of_mem_commaPieces s 0 none q hq)

theorem length_lt_of_genericParts {a base inner : Text} (h : genericParts? a = some (base, inner)) :
    inner.length < a.length := by
  unfold genericParts? splitOnce? at h
  split at h
  · simp at h
  · next b rest hs =>
    split at hs
    · simp at hs
    · next c tail hd =>
      simp only [Option.some.injEq, Prod.mk.injEq] at hs
      split at h
      · next hl =>
        simp only [Option.some.injEq, Prod.mk.injEq] at h
        have le : (a.dropWhile (· ≠ '[')).length ≤ a.length :=
          (List.dropWhile_suffix _).length_le
        rw [hd] at le
        obtain ⟨_, rfl⟩ := h
        obtain ⟨_, rfl⟩ := hs
        simp only [List.length_cons, List.length_dropLast] at le ⊢
        omega
      · simp at h

theorem argument_length_lt {a base inner p : Text}
    (h : genericParts? (unquoted a) = some (base, inner)) (hp : p ∈ splitTopLevel inner) :
    p.length < a.length :=
  Nat.lt_of_le_of_lt (length_le_of_mem_splitTopLevel hp)
    (Nat.lt_of_lt_of_le (length_lt_of_genericParts h) (length_unquoted_le a))

/-- The Swift type of a hint. -/
def hintType (hint : Text) : SwiftType :=
  match h : genericParts? (unquoted hint) with
  | some (base, inner) =>
    genericType base ((splitTopLevel inner).attach.map fun ⟨a, ha⟩ =>
      have := argument_length_lt h ha
      hintType a)
  | none => plainType (unquoted hint)
  termination_by hint.length

theorem hintType_generic {a base inner : Text}
    (h : genericParts? (unquoted a) = some (base, inner)) :
    hintType a = genericType base ((splitTopLevel inner).map hintType) := by
  rw [hintType]
  split
  · next b i h' =>
    rw [h] at h'
    obtain ⟨rfl, rfl⟩ := Prod.mk.inj (Option.some.inj h')
    simp
  · next h' => rw [h] at h'; cases h'

theorem hintType_plain {a : Text} (h : genericParts? (unquoted a) = none) :
    hintType a = plainType (unquoted a) := by
  rw [hintType]
  split
  · next h' => rw [h] at h'; cases h'
  · rfl

end SwiftDraft.Draft
