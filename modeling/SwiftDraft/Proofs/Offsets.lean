import SwiftDraft.Proofs.Signs
import SwiftDraft.Text.Utf8

/-!
# The offset of an assignment

The sign of an assignment is found in the bytes of a line as well (`assignmentOffset`). All
characters that the scan looks for are ASCII, and no byte of another character is one of them
(`SameAscii`), so that the byte scan goes through the places of the scan of characters
(`offsetFrom_encodeUtf8`). Its offset never lies inside a character, and the slices there are the
two sides of the line.
-/

namespace SwiftDraft.Text

/-- Where a scan over bytes stands: in a literal with this quote, and behind a backslash there. -/
structure ByteScan where
  quote : Option UInt8
  escaped : Bool

def ByteScan.next (scan : ByteScan) (b : UInt8) : ByteScan :=
  match scan.quote with
  | some q =>
    if scan.escaped then ⟨some q, false⟩
    else if b = '\\'.toUInt8 then ⟨some q, true⟩
    else if b = q then ⟨none, false⟩
    else ⟨some q, false⟩
  | none => if b = '"'.toUInt8 ∨ b = '\''.toUInt8 then ⟨some b, scan.escaped⟩ else scan

/-- Whether a byte `=` after `prev` and before `rest` assigns. -/
def assignsByte (prev : UInt8) (rest : Bytes) : Bool :=
  rest.head? != some '='.toUInt8 &&
    !(prev == '='.toUInt8 || prev == '!'.toUInt8 || prev == '<'.toUInt8 || prev == '>'.toUInt8)

/-- The scan from offset `i` on, behind the byte `prev`. -/
def offsetFrom (scan : ByteScan) (i : Nat) (prev : UInt8) : Bytes → Option Nat
  | [] => none
  | b :: bs =>
    if scan.quote = none ∧ b = '#'.toUInt8 then none
    else if scan.quote = none ∧ b = '='.toUInt8 ∧ assignsByte prev bs then some i
    else offsetFrom (scan.next b) (i + 1) b bs

/-- The offset of the first `=` of a line that assigns. -/
def assignmentOffset (line : Bytes) : Option Nat := offsetFrom ⟨none, false⟩ 0 ' '.toUInt8 line

/-- A text cut at a byte offset, which must not lie inside a character or behind the end. -/
def sliceAt? : Text → Nat → Option (Text × Text)
  | s, 0 => some ([], s)
  | [], _ + 1 => none
  | c :: s, n + 1 =>
    if c.utf8Size ≤ n + 1 then (sliceAt? s (n + 1 - c.utf8Size)).map fun (l, r) => (c :: l, r)
    else none

/-- The two sides of an assignment, trimmed, as slices at its offset. The failure is the offset of a
slice that there is not. -/
def sliceAssignment (line : Text) : Except Nat (Option (Text × Text)) :=
  match assignmentOffset (encodeUtf8 line) with
  | none => .ok none
  | some n => do
    let (left, _) ← (sliceAt? line n).elim (.error n) .ok
    let (_, right) ← (sliceAt? line (n + 1)).elim (.error (n + 1)) .ok
    return some (trim left, trim right)

/-- The byte and the character are the same ASCII character, or neither is one. -/
def SameAscii (b : UInt8) (c : Char) : Prop := ∀ d : Char, d.toNat < 128 → (b = d.toUInt8 ↔ c = d)

section

variable {p : Place} {c d : Char} {b prev : UInt8} {s line left right : Text}

theorem toNat_toUInt8 (ascii : c.toNat < 128) : c.toUInt8.toNat = c.toNat :=
  Nat.mod_eq_of_lt (Nat.lt_trans ascii (by decide))

theorem utf8EncodeChar_of_ascii (ascii : c.toNat < 128) :
    String.utf8EncodeChar c = [c.toUInt8] :=
  String.utf8EncodeChar_eq_singleton
    (Char.utf8Size_eq_one_iff.2 (UInt32.le_iff_toNat_le.2 (Nat.le_of_lt_succ ascii)))

/-- Beyond ASCII each byte of a character is high. -/
theorem high_of_mem (beyond : 128 ≤ c.toNat) (mem : b ∈ String.utf8EncodeChar c) :
    128 ≤ b.toNat := by
  have more : ¬c.val.toNat ≤ 127 := Nat.not_le_of_lt beyond
  unfold String.utf8EncodeChar at mem
  simp only [if_neg more] at mem
  split at mem
  · simp only [List.mem_cons, List.not_mem_nil, or_false] at mem
    rcases mem with rfl | rfl <;> simp only [UInt8.toNat_ofNat'] <;> omega
  · split at mem
    · simp only [List.mem_cons, List.not_mem_nil, or_false] at mem
      rcases mem with rfl | rfl | rfl <;> simp only [UInt8.toNat_ofNat'] <;> omega
    · simp only [List.mem_cons, List.not_mem_nil, or_false] at mem
      rcases mem with rfl | rfl | rfl | rfl <;> simp only [UInt8.toNat_ofNat'] <;> omega

theorem sameAscii_toUInt8 (ascii : c.toNat < 128) : SameAscii c.toUInt8 c := by
  intro d known
  refine ⟨fun same => ?_, congrArg Char.toUInt8⟩
  have values := congrArg UInt8.toNat same
  rw [toNat_toUInt8 ascii, toNat_toUInt8 known] at values
  exact Char.toNat_inj.1 values

theorem sameAscii_of_mem (mem : b ∈ String.utf8EncodeChar c) : SameAscii b c := by
  rcases Nat.lt_or_ge c.toNat 128 with ascii | beyond
  · rw [utf8EncodeChar_of_ascii ascii, List.mem_singleton] at mem
    rw [mem]
    exact sameAscii_toUInt8 ascii
  · have high := high_of_mem beyond mem
    intro d known
    refine iff_of_false ?_ ?_
    · rintro rfl
      rw [toNat_toUInt8 known] at high
      omega
    · rintro rfl
      omega

theorem ascii_of_isQuote (quote : isQuote c) : c.toNat < 128 := by
  simp only [isQuote, Bool.or_eq_true, beq_iff_eq] at quote
  rcases quote with rfl | rfl <;> decide

theorem length_encodeUtf8_cons (c : Char) (s : Text) :
    (encodeUtf8 (c :: s)).length = c.utf8Size + (encodeUtf8 s).length := by
  rw [encodeUtf8, List.flatMap_cons, List.length_append, String.length_utf8EncodeChar]
  rfl

theorem encodeUtf8_append (s t : Text) : encodeUtf8 (s ++ t) = encodeUtf8 s ++ encodeUtf8 t :=
  List.flatMap_append

/-- The scan over bytes at a place. -/
def Place.scan : Place → ByteScan
  | code => ⟨none, false⟩
  | literal q => ⟨some q.toUInt8, false⟩
  | escape q => ⟨some q.toUInt8, true⟩

theorem quote_scan_eq_none : p.scan.quote = none ↔ p = .code := by
  cases p <;> simp [Place.scan]

/-- A byte moves the scan as its character does. -/
theorem scan_next (proper : p.Proper) (alike : SameAscii b c) :
    p.scan.next b = (p.next c).scan := by
  cases p with
  | code =>
    have quotes : b = '"'.toUInt8 ∨ b = '\''.toUInt8 ↔ isQuote c := by
      rw [alike '"' (by decide), alike '\'' (by decide)]
      simp [isQuote]
    rw [Place.next]
    by_cases quote : isQuote c
    · have same : b = c.toUInt8 := (alike c (ascii_of_isQuote quote)).2 rfl
      rw [if_pos quote, Place.scan, Place.scan, ByteScan.next]
      simp only [if_pos (quotes.2 quote)]
      rw [same]
    · rw [if_neg quote, Place.scan, ByteScan.next]
      simp only [if_neg (mt quotes.1 quote)]
  | literal q =>
    have backslash := alike '\\' (by decide)
    have ends := alike q (ascii_of_isQuote (proper q rfl))
    rw [Place.next, Place.scan, ByteScan.next]
    simp only [Bool.false_eq_true, if_false, backslash, ends]
    split
    · rfl
    · split <;> rfl
  | escape q => rfl

theorem assignsByte_eq {rest : Bytes} (alike : SameAscii prev d)
    (behind : rest.head? = some '='.toUInt8 ↔ s.head? = some '=') :
    assignsByte prev rest = assigns d s := by
  rw [Bool.eq_iff_iff]
  simp only [assignsByte, assigns, Bool.and_eq_true, bne_iff_ne, Bool.not_eq_true',
    Bool.or_eq_false_iff, beq_eq_false_iff_ne, ne_eq, behind, alike '=' (by decide),
    alike '!' (by decide), alike '<' (by decide), alike '>' (by decide)]

/-- The next byte is a sign exactly if the next character is one. -/
theorem head?_encodeUtf8 (s : Text) :
    (encodeUtf8 s).head? = some '='.toUInt8 ↔ s.head? = some '=' := by
  cases s with
  | nil => exact iff_of_false nofun nofun
  | cons c s =>
    cases bytes : String.utf8EncodeChar c with
    | nil => exact absurd bytes String.utf8EncodeChar_ne_nil
    | cons b bs =>
      have alike : SameAscii b c := sameAscii_of_mem (by rw [bytes]; exact List.mem_cons_self)
      rw [encodeUtf8, List.flatMap_cons, bytes]
      simpa using alike '=' (by decide)

/-- A byte is looked at as its character is. -/
theorem offsetFrom_cons (proper : p.Proper) (here : SameAscii b c) {bs : Bytes}
    (near : assignsByte prev bs = assigns d s) (i : Nat) : offsetFrom p.scan i prev (b :: bs) =
      if p = .code ∧ c = '#' then none
      else if p = .code ∧ c = '=' ∧ assigns d s then some i
      else offsetFrom (p.next c).scan (i + 1) b bs := by
  simp only [offsetFrom, quote_scan_eq_none, here '#' (by decide), here '=' (by decide), near,
    scan_next proper here]

/-- A character beyond ASCII ends no literal, so that its later bytes change nothing any more. -/
theorem next_next_of_beyond (beyond : 128 ≤ c.toNat) (proper : p.Proper) :
    (p.next c).next c = p.next c := by
  have noQuote (quote : isQuote c) : False :=
    Nat.not_lt_of_le beyond (ascii_of_isQuote quote)
  have noBackslash : c ≠ '\\' := by
    rintro rfl
    exact absurd beyond (by decide)
  cases p with
  | code =>
    have plain : Place.code.next c = .code := if_neg noQuote
    rw [plain, plain]
  | literal q | escape q =>
    have noEnd : c ≠ q := by
      rintro rfl
      exact noQuote (proper c rfl)
    simp [Place.next, noBackslash, noEnd]

/-- The bytes of a character beyond ASCII are passed, and the last of them stands in front of the
next character. -/
theorem offsetFrom_beyond (beyond : 128 ≤ c.toNat) (rest : Bytes) {bytes : Bytes}
    (filled : bytes ≠ []) (alike : ∀ b ∈ bytes, SameAscii b c) (proper : p.Proper) (i : Nat)
    (prev : UInt8) :
    ∃ last, SameAscii last c ∧ offsetFrom p.scan i prev (bytes ++ rest) =
      offsetFrom (p.next c).scan (i + bytes.length) last rest := by
  induction bytes generalizing p i prev with
  | nil => exact absurd rfl filled
  | cons b bytes ih =>
    have here := alike b List.mem_cons_self
    have other (d : Char) (known : d.toNat < 128) : b ≠ d.toUInt8 := by
      rw [ne_eq, here d known]
      rintro rfl
      omega
    have step : offsetFrom p.scan i prev (b :: bytes ++ rest) =
        offsetFrom (p.next c).scan (i + 1) b (bytes ++ rest) := by
      rw [List.cons_append, offsetFrom, if_neg fun hash => other '#' (by decide) hash.2,
        if_neg fun equals => other '=' (by decide) equals.2.1, scan_next proper here]
    cases bytes with
    | nil => exact ⟨b, here, step⟩
    | cons b' bytes =>
      obtain ⟨last, same, further⟩ := ih (List.cons_ne_nil b' bytes)
        (fun b mem => alike b (List.mem_cons_of_mem _ mem)) (proper.next c) (i + 1) b
      refine ⟨last, same, ?_⟩
      rw [step, further, next_next_of_beyond beyond proper, Nat.add_right_comm]
      rfl

/-- The scan over bytes finds the end of the left side. -/
theorem offsetFrom_encodeUtf8 (proper : p.Proper) (alike : SameAscii prev d) (i : Nat) (s : Text) :
    offsetFrom p.scan i prev (encodeUtf8 s) =
      (cutAssignmentFrom p d s).map fun (l, _) => i + (encodeUtf8 l).length := by
  induction s generalizing p prev d i with
  | nil => rfl
  | cons c s ih =>
    have bytes : encodeUtf8 (c :: s) = String.utf8EncodeChar c ++ encodeUtf8 s := rfl
    have shifted (cut : Option (Text × Text)) :
        (cut.map fun (l, r) => (c :: l, r)).map (fun (l, _) => i + (encodeUtf8 l).length) =
          cut.map fun (l, _) => i + c.utf8Size + (encodeUtf8 l).length := by
      cases cut with
      | none => rfl
      | some pair =>
        change some (i + (encodeUtf8 (c :: pair.1)).length) = _
        rw [length_encodeUtf8_cons, ← Nat.add_assoc]
        rfl
    -- an ASCII character is one byte that both scans look at, any other is passed by both
    rcases Nat.lt_or_ge c.toNat 128 with ascii | beyond
    · have single := utf8EncodeChar_of_ascii ascii
      have here := sameAscii_toUInt8 ascii
      have size : c.utf8Size = 1 := by
        rw [← String.length_utf8EncodeChar, single, List.length_singleton]
      rw [bytes, single, List.singleton_append,
        offsetFrom_cons proper here (assignsByte_eq alike (head?_encodeUtf8 s)),
        ih (proper.next c) here]
      by_cases comment : p = .code ∧ c = '#'
      · rw [if_pos comment, cutAssignmentFrom, if_pos comment.1, if_pos comment.2]
        rfl
      by_cases sign : p = .code ∧ c = '=' ∧ assigns d s
      · rw [if_neg comment, if_pos sign]
        simp [cutAssignmentFrom, sign, encodeUtf8]
      · rw [if_neg comment, if_neg sign, cutAssignmentFrom_further comment sign, shifted, size]
    · have filled : String.utf8EncodeChar c ≠ [] := String.utf8EncodeChar_ne_nil
      obtain ⟨last, same, passed⟩ := offsetFrom_beyond beyond (encodeUtf8 s) filled
        (fun b => sameAscii_of_mem) proper i prev
      have other {e : Char} (known : e.toNat < 128) : c ≠ e := by
        rintro rfl
        omega
      rw [bytes, passed, String.length_utf8EncodeChar, ih (proper.next c) same,
        cutAssignmentFrom_further (fun hash => other (by decide) hash.2)
          (fun equals => other (by decide) equals.2.1), shifted]

theorem assignmentOffset_encodeUtf8 (line : Text) : assignmentOffset (encodeUtf8 line) =
    (cutAssignment line).map fun (l, _) => (encodeUtf8 l).length := by
  have blank : SameAscii ' '.toUInt8 ' ' := sameAscii_toUInt8 (by decide)
  have whole := offsetFrom_encodeUtf8 Place.proper_code blank 0 line
  simp only [Nat.zero_add] at whole
  exact whole

theorem sliceAt?_append (s t : Text) : sliceAt? (s ++ t) (encodeUtf8 s).length = some (s, t) := by
  induction s with
  | nil => cases t <;> rfl
  | cons c s ih =>
    obtain ⟨n, size⟩ := Nat.exists_eq_succ_of_ne_zero (Nat.ne_of_gt c.utf8Size_pos)
    have room : (encodeUtf8 (c :: s)).length = n + (encodeUtf8 s).length + 1 := by
      rw [length_encodeUtf8_cons, size]
      omega
    rw [room, List.cons_append, sliceAt?, if_pos (by omega), size,
      show n + (encodeUtf8 s).length + 1 - n.succ = (encodeUtf8 s).length by omega, ih]
    rfl

/-- The slices at the offset of an assignment never fail. -/
theorem sliceAssignment_eq (line : Text) : sliceAssignment line = .ok (splitAssignment line) := by
  rw [sliceAssignment, assignmentOffset_encodeUtf8, splitAssignment]
  cases cut : cutAssignment line with
  | none => rfl
  | some pair =>
    obtain ⟨left, right⟩ := pair
    have shape := (cutAssignment_eq_some_iff.1 cut).1.run.whole
    have front : sliceAt? line (encodeUtf8 left).length = some (left, '=' :: right) := by
      rw [shape]
      exact sliceAt?_append left _
    have back : sliceAt? line ((encodeUtf8 left).length + 1) = some (left ++ ['='], right) := by
      have width : (encodeUtf8 (left ++ ['='])).length = (encodeUtf8 left).length + 1 := by
        rw [encodeUtf8_append, List.length_append]
        rfl
      rw [← width, shape, ← List.append_assoc]
      exact sliceAt?_append (left ++ ['=']) right
    simp only [Option.map_some, front, back]
    rfl

/-- The scan over the bytes of a line gives the offset of its first sign, and nothing exactly if it
has no sign. A line is never sliced inside a character, and the left side holds no sign. -/
theorem assignment_offset_of_first_sign (line : Text) :
    (∀ n, assignmentOffset (encodeUtf8 line) = some n ↔
      ∃ left right, IsFirstSign line left right ∧ n = (encodeUtf8 left).length) ∧
    (assignmentOffset (encodeUtf8 line) = none ↔ ∀ left right, ¬IsSign line left right) ∧
    sliceAssignment line = .ok (splitAssignment line) ∧
    ∀ left right, splitAssignment line = some (left, right) → ∀ l r, ¬IsSign left l r := by
  refine ⟨fun n => ?_, ?_, sliceAssignment_eq line, fun left right split => ?_⟩
  · rw [assignmentOffset_encodeUtf8, Option.map_eq_some_iff]
    constructor
    · rintro ⟨⟨left, right⟩, cut, rfl⟩
      exact ⟨left, right, cutAssignment_eq_some_iff.1 cut, rfl⟩
    · rintro ⟨left, right, first, rfl⟩
      exact ⟨(left, right), cutAssignment_eq_some_iff.2 first, rfl⟩
  · rw [assignmentOffset_encodeUtf8, Option.map_eq_none_iff, cutAssignment_eq_none_iff]
  · rw [splitAssignment, Option.map_eq_some_iff] at split
    obtain ⟨⟨front, back⟩, cut, sides⟩ := split
    rw [← (Prod.mk.inj sides).1]
    exact (cutAssignment_eq_some_iff.1 cut).not_isSign_trim

/-- A literal with an escaped quote and a `=` in it, and a comparison behind the sign. -/
theorem assignment_offset_of_first_sign_literal :
    assignmentOffset (encodeUtf8 "ü[\"\\\"=\"] = a == b".toList) = some 10 ∧
      (∃ left right, IsFirstSign "ü[\"\\\"=\"] = a == b".toList left right ∧
        10 = (encodeUtf8 left).length) ∧
      splitAssignment "ü[\"\\\"=\"] = a == b".toList =
        some ("ü[\"\\\"=\"]".toList, "a == b".toList) ∧
      ∀ l r, ¬IsSign "ü[\"\\\"=\"]".toList l r := by
  obtain ⟨offset, -, -, left⟩ := assignment_offset_of_first_sign "ü[\"\\\"=\"] = a == b".toList
  have found : assignmentOffset (encodeUtf8 "ü[\"\\\"=\"] = a == b".toList) = some 10 := by decide
  have sides : splitAssignment "ü[\"\\\"=\"] = a == b".toList =
      some ("ü[\"\\\"=\"]".toList, "a == b".toList) := by decide
  exact ⟨found, (offset 10).1 found, sides, left _ _ sides⟩

end

end SwiftDraft.Text
