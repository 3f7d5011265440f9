import SwiftDraft.Proofs.HeaderLines

/-!
# The lines around a line

A scan keeps the types that are open on a stack, by indentation alone. What is open at a line can be
read off the lines above it: going up, each line that is indented less than all that were met before
is around it (`linesAround`). The stack holds the types among these lines, at every line of a text
(`tracks_foldl`), so a function belongs to the nearest of them
(`exists_of_mem_declarations`).
-/

namespace SwiftDraft.Draft

open Text

/-- The lines around a line of the given indentation, from the lines above it, nearest first: going
up, each line that is indented less than the one itself and than those found before. Blank lines and
comments do not count. -/
def linesAround (indent : Nat) : List Text → List Text
  | [] => []
  | l :: above =>
    if declaresNothing l = false ∧ lineIndent l < indent then l :: linesAround (lineIndent l) above
    else linesAround indent above

theorem linesAround_subset (indent : Nat) (above : List Text) : linesAround indent above ⊆ above := by
  induction above generalizing indent with
  | nil => exact List.nil_subset _
  | cons l above ih =>
    unfold linesAround
    split
    · exact List.cons_subset_cons l (ih _)
    · exact List.subset_cons_of_subset l (ih _)

section

variable {state : ScanState} {above : List Text} {number : Nat} {line : Text}

/-- The types that are open at any further line are those of the lines around it. -/
def ScanState.Tracks (state : ScanState) (above : List Text) : Prop :=
  ∀ indent, state.scopes.dropWhile (fun scope => indent ≤ scope.1) =
    (linesAround indent above).filterMap scopeOf?

theorem dropWhile_dropWhile_min (m n : Nat) (scopes : List (Nat × Text)) :
    (scopes.dropWhile fun scope => m ≤ scope.1).dropWhile (fun scope => n ≤ scope.1) =
      scopes.dropWhile fun scope => min m n ≤ scope.1 := by
  induction scopes with
  | nil => rfl
  | cons scope scopes ih =>
    by_cases outer : m ≤ scope.1
    · have both : min m n ≤ scope.1 := Nat.le_trans (Nat.min_le_left m n) outer
      simpa [outer, both] using ih
    · rw [List.dropWhile_cons_of_neg (by simpa using outer)]
      by_cases inner : n ≤ scope.1
      · rw [Nat.min_eq_right (by omega)]
      · have neither : ¬ min m n ≤ scope.1 := by omega
        rw [List.dropWhile_cons_of_neg (by simpa using inner),
          List.dropWhile_cons_of_neg (by simpa using neither)]

theorem fst_of_scopeOf? {scope : Nat × Text} (h : scopeOf? line = some scope) :
    scope.1 = lineIndent line := by
  obtain ⟨name, -, rfl⟩ := Option.map_eq_some_iff.1 h
  rfl

theorem ScanState.Tracks.read (tracks : state.Tracks above) (number : Nat) (line : Text) :
    (state.read (number, line)).Tracks (line :: above) := by
  intro indent
  rw [ScanState.read_eq, linesAround]
  cases silent : declaresNothing line with
  | true => simpa [silent] using tracks indent
  | false =>
    have rest : (state.enclosing line).dropWhile (fun scope => indent ≤ scope.1) =
        state.scopes.dropWhile fun scope => min (lineIndent line) indent ≤ scope.1 :=
      dropWhile_dropWhile_min _ _ _
    simp only [Bool.false_eq_true, if_false, true_and]
    by_cases deeper : lineIndent line < indent
    · -- The line and what is around it stay.
      rw [Nat.min_eq_left (by omega), tracks] at rest
      rw [if_pos deeper, List.filterMap_cons]
      cases type : scopeOf? line with
      | none => exact rest
      | some scope =>
        have kept : ¬ indent ≤ scope.1 := by
          rw [fst_of_scopeOf? type]
          omega
        rw [Option.toList_some, List.singleton_append,
          List.dropWhile_cons_of_neg (by simpa using kept)]
        exact congrArg (scope :: ·) (tracks (lineIndent line))
    · -- The line is not around anything that is indented by `indent` only.
      rw [Nat.min_eq_right (by omega), tracks] at rest
      rw [if_neg deeper, ← rest]
      cases type : scopeOf? line with
      | none => rfl
      | some scope =>
        have left : indent ≤ scope.1 := by
          rw [fst_of_scopeOf? type]
          omega
        rw [Option.toList_some, List.singleton_append,
          List.dropWhile_cons_of_pos (by simpa using left)]

theorem tracks_foldl (numbered : List (Nat × Text)) :
    (numbered.foldl ScanState.read .start).Tracks (numbered.map Prod.snd).reverse := by
  induction numbered using List.reverseRecOn with
  | nil => exact fun _ => rfl
  | append_singleton numbered l ih =>
    rw [List.foldl_append, List.map_append, List.reverse_append]
    exact ih.read l.1 l.2

/-- The innermost type that is open at a line is that of the nearest line around it. -/
theorem ScanState.Tracks.owner_eq (tracks : state.Tracks above) (line : Text) :
    (state.enclosing line).head?.map Prod.snd =
      (linesAround (lineIndent line) above).findSome? declaredType? := by
  rw [enclosing, tracks, List.head?_filterMap, List.map_findSome?]
  refine congrArg (List.findSome? · _) (funext fun l => ?_)
  simp only [Function.comp_apply, scopeOf?, Option.map_map]
  exact Option.map_id'

theorem exists_of_mem_foldl {numbered : List (Nat × Text)} {f : DeclaredFunction}
    (mem : f ∈ (numbered.foldl ScanState.read .start).found.functions) :
    ∃ before l after, numbered = before ++ l :: after ∧ declaredFunction? ((linesAround
      (lineIndent l.2) (before.map Prod.snd).reverse).findSome? declaredType?) l.1 l.2 = some f := by
  induction numbered using List.reverseRecOn with
  | nil => cases mem
  | append_singleton numbered l ih =>
    have earlier (mem : f ∈ (numbered.foldl ScanState.read .start).found.functions) :
        ∃ before l' after, numbered ++ [l] = before ++ l' :: after ∧ declaredFunction? ((linesAround
          (lineIndent l'.2) (before.map Prod.snd).reverse).findSome? declaredType?) l'.1 l'.2 =
            some f := by
      obtain ⟨before, l', after, split, found⟩ := ih mem
      exact ⟨before, l', after ++ [l], by rw [split, List.append_assoc, List.cons_append], found⟩
    rw [List.foldl_append, List.foldl_cons, List.foldl_nil, ScanState.read_eq] at mem
    split at mem
    · exact earlier mem
    · rcases List.mem_append.1 mem with old | new
      · exact earlier old
      · rw [(tracks_foldl numbered).owner_eq l.2, Option.mem_toList] at new
        exact ⟨numbered, l, [], rfl, new⟩

theorem map_snd_numberedLines (s : Text) : (numberedLines s).map Prod.snd = lines s := by
  rw [numberedLines, List.map_map]
  exact List.zipIdx_map_fst 0 (lines s)

/-- A function is found on the line that holds its header, and is a method of the nearest type that
is declared on one of the lines around it. -/
theorem exists_of_mem_declarations {swift : Text} {f : DeclaredFunction}
    (mem : f ∈ (declarations swift).functions) :
    ∃ above line below, lines swift = above ++ line :: below ∧ f.line = above.length + 1 ∧
      functionName? line = some f.name ∧
      f.owner = (linesAround (lineIndent line) above.reverse).findSome? declaredType? := by
  obtain ⟨before, ⟨number, line⟩, after, split, found⟩ := exists_of_mem_foldl mem
  have texts := map_snd_numberedLines swift
  have counted : (numberedLines swift)[before.length]? = some (number, line) := by
    rw [split]
    simp
  have numbered : number = before.length + 1 := by
    simp only [numberedLines, List.getElem?_map, List.getElem?_zipIdx, Option.map_map,
      Option.map_eq_some_iff] at counted
    obtain ⟨l, -, same⟩ := counted
    exact (congrArg Prod.fst same).symm.trans (by simp)
  rw [split, List.map_append, List.map_cons] at texts
  obtain ⟨owner, place, name⟩ := fields_of_declaredFunction? found
  refine ⟨before.map Prod.snd, line, after.map Prod.snd, texts.symm, ?_, name, owner⟩
  rw [place, numbered, List.length_map]

end

end SwiftDraft.Draft
