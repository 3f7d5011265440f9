import SwiftDraft.Text.Quoted
import SwiftDraft.Text.Literal

/-!
# Quoted text

What a text is written as between double quotes (`Quoted.body_flatMap_escape`): no control character
and no quote of it is left as it stands, and it is read back as it was.
-/

namespace SwiftDraft.Text.Quoted

/-- What stands between the two quotes of a literal, and the text it stands for. -/
structure Body (body content : Text) : Prop where
  visible : ∀ c ∈ body, 0x20 ≤ c.toNat
  /-- A backslash takes every quote out of play. -/
  escaped : ∀ l r, body = l ++ '"' :: r → l.foldl Place.next (.literal '"') = .escape '"'
  /-- The quote behind it is in play. -/
  inside : body.foldl Place.next (.literal '"') = .literal '"'
  read : ∀ rest, decode (body ++ '"' :: rest) = some (content, rest)

theorem hexValue?_hexDigit : ∀ n < 16, hexValue? (hexDigit n) = some n := by decide

theorem hexDigit_not_special : ∀ n < 16,
    0x20 ≤ (hexDigit n).toNat ∧ hexDigit n ≠ '"' ∧ hexDigit n ≠ '\\' := by decide

/-- A character is written with a letter behind a backslash, with two digits, or as it stands. -/
theorem escape_cases (c : Char) :
    (∃ e, escape c = ['\\', e] ∧ simpleEscape? e = some c ∧ e ≠ 'u' ∧ 0x20 ≤ e.toNat) ∨
      (∃ i < 2, ∃ j < 16, escape c = ['\\', 'u', '0', '0', hexDigit i, hexDigit j] ∧
        c.toNat = i * 16 + j) ∨
      escape c = [c] ∧ 0x20 ≤ c.toNat ∧ c ≠ '"' ∧ c ≠ '\\' := by
  by_cases short : c ∈ ['"', '\\', '\n', '\r', '\t', Char.ofNat 8, Char.ofNat 12]
  · simp only [List.mem_cons, List.not_mem_nil, or_false] at short
    left
    rcases short with rfl | rfl | rfl | rfl | rfl | rfl | rfl
    all_goals exact ⟨_, rfl, rfl, by decide, by decide⟩
  · have code {n : Nat} (other : c ≠ Char.ofNat n) : c.toNat ≠ n := by
      rintro rfl
      exact other (Char.ofNat_toNat c).symm
    simp only [List.mem_cons, List.not_mem_nil, or_false, not_or] at short
    obtain ⟨quote, backslash, newline, ret, tab, backspace, feed⟩ := short
    right
    by_cases control : c.toNat < 0x20
    · have written : escape c =
          ['\\', 'u', '0', '0', hexDigit (c.toNat / 16), hexDigit (c.toNat % 16)] := by
        simp only [escape, quote, backslash, newline, ret, tab, code backspace, code feed, control,
          if_true, if_false]
      exact Or.inl ⟨c.toNat / 16, by omega, c.toNat % 16, by omega, written, by omega⟩
    · have written : escape c = [c] := by
        simp only [escape, quote, backslash, newline, ret, tab, code backspace, code feed, control,
          if_false]
      exact Or.inr ⟨written, by omega, quote, backslash⟩

theorem visible_of_mem_escape {c d : Char} (mem : d ∈ escape c) : 0x20 ≤ d.toNat := by
  rcases escape_cases c with
    ⟨e, written, -, -, visible⟩ | ⟨i, hi, j, hj, written, -⟩ | ⟨written, visible, -, -⟩
  · rw [written] at mem
    simp only [List.mem_cons, List.not_mem_nil, or_false] at mem
    rcases mem with rfl | rfl
    · decide
    · exact visible
  · rw [written] at mem
    simp only [List.mem_cons, List.not_mem_nil, or_false] at mem
    rcases mem with rfl | rfl | rfl | rfl | rfl | rfl
    · decide
    · decide
    · decide
    · decide
    · exact (hexDigit_not_special i (by omega)).1
    · exact (hexDigit_not_special j hj).1
  · rw [written, List.mem_singleton] at mem
    rw [mem]
    exact visible

/-- Inside a literal a character that is neither a quote nor a backslash changes nothing. -/
theorem next_literal {c : Char} (quote : c ≠ '"') (backslash : c ≠ '\\') :
    Place.next (.literal '"') c = .literal '"' := by
  simp only [Place.next, quote, backslash, if_false]

theorem foldl_escape (c : Char) :
    (escape c).foldl Place.next (.literal '"') = .literal '"' := by
  rcases escape_cases c with
    ⟨e, written, -, -, -⟩ | ⟨i, hi, j, hj, written, -⟩ | ⟨written, -, quote, backslash⟩
  · rw [written]
    rfl
  · have first := hexDigit_not_special i (by omega)
    have second := hexDigit_not_special j hj
    rw [written]
    change Place.next (Place.next (.literal '"') (hexDigit i)) (hexDigit j) = _
    rw [next_literal first.2.1 first.2.2, next_literal second.2.1 second.2.2]
  · rw [written]
    exact next_literal quote backslash

theorem escaped_escape {c : Char} {l r : Text} (split : escape c = l ++ '"' :: r) :
    l.foldl Place.next (.literal '"') = .escape '"' := by
  rcases escape_cases c with
    ⟨e, written, -, -, -⟩ | ⟨i, hi, j, hj, written, -⟩ | ⟨written, -, quote, -⟩
  · rw [written] at split
    rcases l with _ | ⟨a, _ | ⟨b, l⟩⟩
    · cases split
    · cases split
      rfl
    · simp at split
  · -- Neither the letter nor a digit is a quote.
    have first := (hexDigit_not_special i (by omega)).2.1
    have second := (hexDigit_not_special j hj).2.1
    have mem : '"' ∈ escape c := by simp [split]
    rw [written] at mem
    simp [first.symm, second.symm] at mem
  · have mem : '"' ∈ escape c := by simp [split]
    rw [written, List.mem_singleton] at mem
    exact absurd mem.symm quote

/-- An escaped character is read as the character. -/
theorem decodeFrom_escape (c : Char) (s : Text) :
    decodeFrom .nothing (escape c ++ s) =
      (decodeFrom .nothing s).map fun (t, rest) => (c :: t, rest) := by
  rcases escape_cases c with
    ⟨e, written, known, other, -⟩ | ⟨i, hi, j, hj, written, code⟩ |
    ⟨written, visible, quote, backslash⟩
  · rw [written]
    change decodeFrom .backslash (e :: s) = _
    simp only [decodeFrom, other, known, if_false]
  · have zero : hexValue? '0' = some 0 := rfl
    have unit : unit16 none c.toNat = .char c := by
      simp only [unit16, Char.ofNat_toNat, show ¬(0xD800 ≤ c.toNat ∧ c.toNat < 0xDC00) by omega,
        show ¬(0xDC00 ≤ c.toNat ∧ c.toNat < 0xE000) by omega, if_false]
    have value : ((0 * 16 + 0) * 16 + 0) * 16 + i = i := by omega
    rw [written]
    change decodeFrom (.digits none 0 0) ('0' :: '0' :: hexDigit i :: hexDigit j :: s) = _
    simp only [decodeFrom, zero, hexValue?_hexDigit i (by omega), hexValue?_hexDigit j hj]
    simp [← code, unit]
  · rw [written]
    simp only [List.cons_append, List.nil_append, decodeFrom, quote, backslash,
      Nat.not_lt.2 visible, if_false]

theorem foldl_flatMap_escape (s : Text) :
    (s.flatMap escape).foldl Place.next (.literal '"') = .literal '"' := by
  induction s with
  | nil => rfl
  | cons c s ih => rw [List.flatMap_cons, List.foldl_append, foldl_escape, ih]

theorem escaped_flatMap_escape (s : Text) {l r : Text} (split : s.flatMap escape = l ++ '"' :: r) :
    l.foldl Place.next (.literal '"') = .escape '"' := by
  induction s generalizing l with
  | nil => simp at split
  | cons c s ih =>
    rw [List.flatMap_cons] at split
    -- The quote belongs to the first character or to what is written behind it.
    rcases List.append_eq_append_iff.1 split with ⟨m, rfl, behind⟩ | ⟨m, first, behind⟩
    · rw [List.foldl_append, foldl_escape]
      exact ih behind
    · cases m with
      | nil =>
        rw [List.append_nil] at first
        rw [← first, foldl_escape]
        exact absurd (ih (l := []) behind.symm) (by simp)
      | cons q m =>
        obtain ⟨rfl, -⟩ := List.cons.inj behind
        exact escaped_escape first

theorem decodeFrom_flatMap_escape (s rest : Text) :
    decodeFrom .nothing (s.flatMap escape ++ '"' :: rest) = some (s, rest) := by
  induction s with
  | nil => rfl
  | cons c s ih => rw [List.flatMap_cons, List.append_assoc, decodeFrom_escape, ih]; rfl

theorem body_flatMap_escape (s : Text) : Body (s.flatMap escape) s where
  visible c mem := by
    obtain ⟨d, -, inEscape⟩ := List.mem_flatMap.1 mem
    exact visible_of_mem_escape inEscape
  escaped _ _ split := escaped_flatMap_escape s split
  inside := foldl_flatMap_escape s
  read rest := decodeFrom_flatMap_escape s rest

end SwiftDraft.Text.Quoted
