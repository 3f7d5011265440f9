import SwiftDraft.Proofs.Replacing

/-!
# Names of types

The type name for a script is made of the ASCII words of its name (`HasWords`), and of nothing else:
what stands around and between the words does not matter. It is an identifier whatever the name is,
and the type name for a type name is the same again (`typeName_by_words`).
-/

namespace SwiftDraft.Workbench

open Text

/-- Characters that belong to no word. -/
def IsGap (g : Text) : Prop := ∀ c ∈ g, c.isAlphanum = false

structure IsAsciiWord (w : Text) : Prop where
  filled : w ≠ []
  letters : ∀ c ∈ w, c.isAlphanum

/-- The maximal runs of ASCII letters and digits of a name, in order. -/
inductive HasWords : Text → List Text → Prop
  | gap {g : Text} (gap : IsGap g) : HasWords g []
  | word {g w s : Text} {ws : List Text} (gap : IsGap g) (word : IsAsciiWord w)
      (apart : ∀ c ∈ s.head?, c.isAlphanum = false) (rest : HasWords s ws) :
      HasWords (g ++ (w ++ s)) (w :: ws)

/-- The pieces between the other characters that are not empty. -/
def asciiWords (name : Text) : List Text :=
  (name.splitOnP fun c => !c.isAlphanum).filter (· ≠ [])

section

variable {g w s t : Text} {ws : List Text}

theorem asciiWords_gap (gap : IsGap g) (s : Text) : asciiWords (g ++ s) = asciiWords s := by
  induction g with
  | nil => rfl
  | cons c g ih =>
    obtain ⟨other, gap⟩ := List.forall_mem_cons.1 gap
    rw [← ih gap, List.cons_append, asciiWords, List.splitOnP_cons_eq_if_modifyHead,
      if_pos (by simp [other])]
    rfl

theorem asciiWords_word (word : IsAsciiWord w) : asciiWords w = [w] := by
  have whole : w.splitOnP (fun c => !c.isAlphanum) = [w] :=
    List.splitOnP_eq_singleton fun c mem => by simp [word.letters c mem]
  rw [asciiWords, whole]
  simp [word.filled]

theorem asciiWords_append (word : IsAsciiWord w) (apart : ∀ c ∈ s.head?, c.isAlphanum = false) :
    asciiWords (w ++ s) = w :: asciiWords s := by
  cases s with
  | nil =>
    rw [List.append_nil, asciiWords_word word]
    rfl
  | cons c s =>
    have other : c.isAlphanum = false := apart c rfl
    have behind : asciiWords (c :: s) = asciiWords s :=
      asciiWords_gap (g := [c]) (List.forall_mem_singleton.2 other) s
    rw [behind, asciiWords, List.splitOnP_append_cons w s (by simp [other]), List.filter_append]
    exact congrArg (· ++ asciiWords s) (asciiWords_word word)

theorem HasWords.eq_asciiWords (words : HasWords s ws) : ws = asciiWords s := by
  induction words with
  | @gap g gap =>
    have nothing := asciiWords_gap gap []
    rw [List.append_nil] at nothing
    exact nothing.symm
  | word gap word apart _ ih => rw [asciiWords_gap gap, asciiWords_append word apart, ← ih]

theorem exists_hasWords (s : Text) : ∃ ws, HasWords s ws := by
  induction s with
  | nil => exact ⟨[], .gap nofun⟩
  | cons c s ih =>
    obtain ⟨ws, words⟩ := ih
    by_cases letter : c.isAlphanum
    · have single : IsAsciiWord [c] := ⟨List.cons_ne_nil c [], List.forall_mem_singleton.2 letter⟩
      cases words with
      | gap gap =>
        have apart : ∀ d ∈ s.head?, d.isAlphanum = false := fun d first =>
          gap d (List.mem_of_head? first)
        exact ⟨_, .word (g := []) nofun single apart (.gap gap)⟩
      | @word g w s ws gap word apart rest =>
        cases g with
        | nil =>
          -- the character starts the first word
          have longer : IsAsciiWord (c :: w) :=
            ⟨List.cons_ne_nil c w, List.forall_mem_cons.2 ⟨letter, word.letters⟩⟩
          exact ⟨_, .word (g := []) nofun longer apart rest⟩
        | cons d g =>
          have other : ∀ e ∈ (d :: g ++ (w ++ s)).head?, e.isAlphanum = false := by
            rintro e ⟨⟩
            exact gap d List.mem_cons_self
          exact ⟨_, .word (g := []) nofun single other (.word gap word apart rest)⟩
    · have other : c.isAlphanum = false := by simpa using letter
      cases words with
      | gap gap => exact ⟨_, .gap (List.forall_mem_cons.2 ⟨other, gap⟩)⟩
      | word gap word apart rest =>
        exact ⟨_, .word (List.forall_mem_cons.2 ⟨other, gap⟩) word apart rest⟩

theorem hasWords_asciiWords (s : Text) : HasWords s (asciiWords s) := by
  obtain ⟨ws, words⟩ := exists_hasWords s
  rwa [words.eq_asciiWords] at words

end

/-- The words in one, each with its first letter in upper case, behind `Script` if there is no
letter to start with. -/
def nameOfWords (ws : List Text) : Text :=
  match (ws.map capitalizedWord).flatten with
  | [] => "Script".toList
  | c :: r => if c.isDigit then "Script".toList ++ c :: r else c :: r

theorem flatten_capitalized_filter (pieces : List Text) :
    ((pieces.filter (· ≠ [])).map capitalizedWord).flatten =
      (pieces.map capitalizedWord).flatten := by
  induction pieces with
  | nil => rfl
  | cons piece pieces ih =>
    cases piece with
    | nil => simpa [capitalizedWord] using ih
    | cons c r => simpa [capitalizedWord] using ih

theorem typeName_eq (name : Text) : typeName name = nameOfWords (asciiWords name) := by
  rw [nameOfWords, asciiWords, flatten_capitalized_filter, typeName]
  cases ((name.splitOnP fun c => !c.isAlphanum).map capitalizedWord).flatten <;> rfl

/-- An upper-case letter, and then letters and digits, all of them ASCII. -/
inductive IsTypeName : Text → Prop
  | mk {c : Char} {r : Text} (upper : c.isUpper) (letters : ∀ d ∈ r, d.isAlphanum) :
      IsTypeName (c :: r)

theorem upper_ascii : ∀ n < 128, (Char.ofNat n).isAlphanum →
    ((Char.ofNat n).toUpper.isUpper ∨ (Char.ofNat n).toUpper.isDigit) ∧
      ((Char.ofNat n).isUpper →
        (Char.ofNat n).toUpper = Char.ofNat n ∧ (Char.ofNat n).isDigit = false) := by decide

/-- In upper case a letter or digit is an upper-case letter or a digit, and an upper-case letter is
no digit and stays what it is. -/
theorem upper_of_isAlphanum {c : Char} (letter : c.isAlphanum) :
    (c.toUpper.isUpper ∨ c.toUpper.isDigit) ∧ (c.isUpper → c.toUpper = c ∧ c.isDigit = false) := by
  have checked := upper_ascii c.toNat (toNat_lt_of_isAlphanum letter)
  rw [Char.ofNat_toNat] at checked
  exact checked letter

theorem isAlphanum_of_isUpper {c : Char} (upper : c.isUpper) : c.isAlphanum := by
  change (c.isUpper || c.isLower || c.isDigit) = true
  rw [upper, Bool.true_or, Bool.true_or]

theorem HasWords.isAsciiWord {s : Text} {ws : List Text} (words : HasWords s ws) :
    ∀ w ∈ ws, IsAsciiWord w := by
  induction words with
  | gap => exact nofun
  | word _ word _ _ ih => exact List.forall_mem_cons.2 ⟨word, ih⟩

theorem isTypeName_typeName (name : Text) : IsTypeName (typeName name) := by
  have letters := isAlphanum_of_mem_typeName name
  have areWords := (hasWords_asciiWords name).isAsciiWord
  -- a name that starts with `Script` does so with an upper-case letter
  have scripted (r : Text) (letters : ∀ d ∈ "Script".toList ++ r, d.isAlphanum) :
      IsTypeName ("Script".toList ++ r) := by
    have first : "Script".toList = 'S' :: "cript".toList := by decide
    rw [first, List.cons_append] at letters ⊢
    exact .mk (by decide) fun d mem => letters d (List.mem_cons_of_mem 'S' mem)
  rw [typeName_eq] at letters ⊢
  cases words : asciiWords name with
  | nil =>
    rw [words] at letters
    exact scripted [] letters
  | cons w ws =>
    rw [words] at letters areWords
    obtain ⟨word, -⟩ := List.forall_mem_cons.1 areWords
    obtain ⟨c, r, rfl⟩ := List.exists_cons_of_ne_nil word.filled
    have upper := (upper_of_isAlphanum (word.letters c List.mem_cons_self)).1
    have joined : (((c :: r) :: ws).map capitalizedWord).flatten =
        c.toUpper :: (r ++ (ws.map capitalizedWord).flatten) := rfl
    simp only [nameOfWords, joined] at letters ⊢
    split
    · next digit =>
      rw [if_pos digit] at letters
      exact scripted _ letters
    · next noDigit =>
      rw [if_neg noDigit] at letters
      exact .mk (upper.resolve_right noDigit) fun d mem => letters d (List.mem_cons_of_mem _ mem)

/-- A type name is its own type name. -/
theorem typeName_of_isTypeName {t : Text} (named : IsTypeName t) : typeName t = t := by
  obtain @⟨c, r, upper, letters⟩ := named
  have letter := isAlphanum_of_isUpper upper
  obtain ⟨stays, noDigit⟩ := (upper_of_isAlphanum letter).2 upper
  have word : IsAsciiWord (c :: r) :=
    ⟨List.cons_ne_nil c r, List.forall_mem_cons.2 ⟨letter, letters⟩⟩
  have joined : ([c :: r].map capitalizedWord).flatten = c :: r := by
    simp [capitalizedWord, stays]
  simp only [typeName_eq, asciiWords_word word, nameOfWords, joined, noDigit]
  rfl

theorem typeName_of_hasWords {s : Text} {ws : List Text} (words : HasWords s ws) :
    typeName s = nameOfWords ws := by
  rw [typeName_eq, words.eq_asciiWords]

/-- The type name for a script is an identifier of ASCII letters and digits that starts with an
upper-case letter. It is its own type name, and names that have the same words have the same type
name, whatever stands around and between the words. -/
theorem typeName_by_words (name : Text) :
    IsTypeName (typeName name) ∧ typeName (typeName name) = typeName name ∧
      (∃! ws, HasWords name ws) ∧
      ∀ ws other, HasWords name ws → HasWords other ws → typeName other = typeName name := by
  have named := isTypeName_typeName name
  refine ⟨named, typeName_of_isTypeName named, ?_, ?_⟩
  · exact ⟨_, hasWords_asciiWords name, fun ws words => words.eq_asciiWords⟩
  · intro ws other words same
    rw [typeName_of_hasWords words, typeName_of_hasWords same]

/-- Other characters around and between the words, some of them not ASCII. -/
theorem typeName_by_words_of_separators :
    HasWords "data_loader-2v".toList (List.map String.toList ["data", "loader", "2v"]) ∧
      HasWords "¿data…  loader é2v".toList (List.map String.toList ["data", "loader", "2v"]) ∧
      typeName "¿data…  loader é2v".toList = typeName "data_loader-2v".toList ∧
      typeName "data_loader-2v".toList = "DataLoader2v".toList := by
  have words : asciiWords "data_loader-2v".toList =
      List.map String.toList ["data", "loader", "2v"] := by decide
  have others : asciiWords "¿data…  loader é2v".toList =
      List.map String.toList ["data", "loader", "2v"] := by decide
  have first := hasWords_asciiWords "data_loader-2v".toList
  have second := hasWords_asciiWords "¿data…  loader é2v".toList
  rw [words] at first
  rw [others] at second
  obtain ⟨-, -, -, same⟩ := typeName_by_words "data_loader-2v".toList
  exact ⟨first, second, same _ _ first second, by decide⟩

end SwiftDraft.Workbench
