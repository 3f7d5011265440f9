/-!
# Texts

A text is a list of characters. Blanks are the characters with the Unicode property `White_Space`;
`trim` takes them off both ends and `words` splits at their runs.
-/

namespace SwiftDraft

/-- Scripts, drafts and everything cut out of them. -/
abbrev Text := List Char

namespace Text

/-- The Unicode property `White_Space`. -/
def isBlank (c : Char) : Bool :=
  let n := c.toNat
  (9 ≤ n && n ≤ 13) || n == 0x20 || n == 0x85 || n == 0xA0 || n == 0x1680 ||
  (0x2000 ≤ n && n ≤ 0x200A) || n == 0x2028 || n == 0x2029 || n == 0x202F || n == 0x205F ||
  n == 0x3000

theorem isBlank_of_isWhitespace {c : Char} (h : c.isWhitespace) : isBlank c := by
  simp only [Char.isWhitespace, Bool.or_eq_true, decide_eq_true_eq] at h
  rcases h with ((rfl | rfl) | rfl) | rfl <;> decide

def trimStart (s : Text) : Text := s.dropWhile isBlank

def trimEnd (s : Text) : Text := (s.reverse.dropWhile isBlank).reverse

/-- The text without the blanks at its ends. -/
def trim (s : Text) : Text := trimEnd (trimStart s)

/-- The text without the characters at its ends that satisfy `p`. -/
def trimWhere (p : Char → Bool) (s : Text) : Text :=
  ((s.dropWhile p).reverse.dropWhile p).reverse

def trimEndWhere (p : Char → Bool) (s : Text) : Text := (s.reverse.dropWhile p).reverse

/-- What follows `p` in a text that starts with it. -/
def after? (p : String) (s : Text) : Option Text := p.toList.isPrefixOf? s

/-- What follows the blanks at the start, of which there is at least one. -/
def afterGap? (s : Text) : Option Text :=
  if s.head?.any isBlank then some (trimStart s) else none

def startsWith (s : Text) (p : String) : Bool := p.toList.isPrefixOf s

def endsWith (s : Text) (p : String) : Bool := p.toList.isSuffixOf s

/-- The maximal runs of characters that are not blank, in order. -/
def words (s : Text) : List Text := (s.splitOnP isBlank).filter (· ≠ [])

/-- The first word, if there is one. -/
def firstWord? (s : Text) : Option Text := (words s).head?

/-- The two sides of the first `sep`. -/
def splitOnce? (sep : Char) (s : Text) : Option (Text × Text) :=
  match s.dropWhile (· ≠ sep) with
  | [] => none
  | _ :: rest => some (s.takeWhile (· ≠ sep), rest)

/-- The two sides of the first place where `sep` stands. -/
def cutAt? (sep : Text) : Text → Option (Text × Text)
  | [] => if sep.isEmpty then some ([], []) else none
  | c :: r =>
    match sep.isPrefixOf? (c :: r) with
    | some rest => some ([], rest)
    | none => (cutAt? sep r).map fun (l, rest) => (c :: l, rest)

/-- The decimal digits of a number. -/
def ofNat (n : Nat) : Text := n.repr.toList

/-- The number of values that a machine word of 64 bits has. -/
def wordSize : Nat := 0x10000000000000000

def join (sep : String) (parts : List Text) : Text := List.intercalate sep.toList parts

/-- What holds of the separator and of each part, and of two texts together if it holds of both,
holds of the joined text. -/
theorem join_induction {motive : Text → Prop} {sep : String} {parts : List Text} (nil : motive [])
    (append : ∀ s t, motive s → motive t → motive (s ++ t)) (between : motive sep.toList)
    (part : ∀ p ∈ parts, motive p) : motive (join sep parts) := by
  unfold join
  induction parts with
  | nil => exact nil
  | cons first parts ih =>
    obtain ⟨here, behind⟩ := List.forall_mem_cons.1 part
    cases parts with
    | nil =>
      rw [List.intercalate_singleton]
      exact here
    | cons second parts =>
      rw [List.intercalate_cons_cons]
      exact append _ _ (append _ _ here between) (ih behind)

end Text

end SwiftDraft
