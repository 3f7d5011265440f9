import SwiftDraft.Script.Recognition
import Mathlib.Data.List.TakeWhile

/-!
# Pieces of a text

Whatever is cut out of a text is made of its characters, so the texts of a statement are made of
those of its logical line (`subset_of_mem_recognise`).
-/

namespace SwiftDraft

namespace Text

variable {s t r : Text}

theorem trimStart_subset (s : Text) : trimStart s ⊆ s := List.dropWhile_subset isBlank

theorem trimEnd_subset (s : Text) : trimEnd s ⊆ s := by
  intro c hc
  simp only [trimEnd, List.mem_reverse] at hc
  simpa using List.dropWhile_subset isBlank hc

theorem trim_subset (s : Text) : trim s ⊆ s :=
  List.Subset.trans (trimEnd_subset (trimStart s)) (trimStart_subset s)

/-- A text that starts with `p` is `p` and what follows it. -/
theorem after?_eq_some_iff {p : String} : after? p s = some r ↔ s = p.toList ++ r := by
  unfold after?
  generalize p.toList = cs
  induction cs generalizing s with
  | nil =>
    have all : List.isPrefixOf? [] s = some s := by cases s <;> rfl
    rw [all, List.nil_append, Option.some.injEq]
  | cons c cs ih =>
    cases s with
    | nil => exact iff_of_false nofun nofun
    | cons d s =>
      have next : List.isPrefixOf? (c :: cs) (d :: s) =
          if c == d then List.isPrefixOf? cs s else none := rfl
      rw [next]
      by_cases same : c = d
      · simp [same, ih]
      · simp [same, Ne.symm same]

theorem subset_of_after? {p : String} (h : after? p s = some r) : r ⊆ s := by
  rw [after?_eq_some_iff.1 h]
  exact List.subset_append_right _ r

theorem subset_of_afterGap? (h : afterGap? s = some r) : r ⊆ s := by
  unfold afterGap? at h
  split at h
  · cases h
    exact trimStart_subset s
  · cases h

theorem splitOnce?_cons (sep c : Char) (s : Text) :
    splitOnce? sep (c :: s) =
      if c = sep then some ([], s)
      else (splitOnce? sep s).map fun (front, back) => (c :: front, back) := by
  by_cases here : c = sep
  · simp [splitOnce?, here]
  · simp only [splitOnce?, ne_eq, here, not_false_eq_true, decide_true,
      List.dropWhile_cons_of_pos, List.takeWhile_cons_of_pos, if_false]
    split <;> rfl

/-- The two sides of the first `sep`, and the text they come from. -/
theorem splitOnce?_eq_some {sep : Char} {front back : Text}
    (h : splitOnce? sep s = some (front, back)) : s = front ++ sep :: back ∧ sep ∉ front := by
  induction s generalizing front with
  | nil => cases h
  | cons c s ih =>
    rw [splitOnce?_cons] at h
    split at h
    · next here =>
      cases h
      exact ⟨by rw [here, List.nil_append], List.not_mem_nil⟩
    · next other =>
      obtain ⟨⟨f, b⟩, found, same⟩ := Option.map_eq_some_iff.1 h
      cases same
      obtain ⟨whole, first⟩ := ih found
      exact ⟨by rw [List.cons_append, ← whole], by simpa [Ne.symm other] using first⟩

theorem splitOnce?_append {sep : Char} {front : Text} (first : sep ∉ front) (back : Text) :
    splitOnce? sep (front ++ sep :: back) = some (front, back) := by
  induction front with
  | nil => rw [List.nil_append, splitOnce?_cons, if_pos rfl]
  | cons c front ih =>
    obtain ⟨other, rest⟩ := not_or.1 (mt List.mem_cons.2 first)
    rw [List.cons_append, splitOnce?_cons, if_neg (Ne.symm other), ih rest]
    rfl

theorem splitOnce?_eq_none {sep : Char} (absent : sep ∉ s) : splitOnce? sep s = none := by
  rw [Option.eq_none_iff_forall_ne_some]
  rintro ⟨front, back⟩ found
  refine absent ?_
  rw [(splitOnce?_eq_some found).1]
  exact List.mem_append_right front List.mem_cons_self

/-- The cut is made at a `=`. -/
theorem eq_of_cutAssignmentFrom {p : Place} {prev : Char} {l b : Text}
    (h : cutAssignmentFrom p prev s = some (l, b)) : s = l ++ '=' :: b := by
  induction s generalizing p prev l with
  | nil => cases h
  | cons c s ih =>
    have further {l : Text}
        (h : ((cutAssignmentFrom (p.next c) c s).map fun (l, b) => (c :: l, b)) = some (l, b)) :
        c :: s = l ++ '=' :: b := by
      obtain ⟨⟨l', b'⟩, later, made⟩ := Option.map_eq_some_iff.1 h
      cases made
      rw [ih later, List.cons_append]
    rw [cutAssignmentFrom] at h
    split at h
    · split at h
      · cases h
      · split at h
        · next cuts =>
          have sign : c = '=' := by simp at cuts; exact cuts.1
          cases h
          rw [sign, List.nil_append]
        · exact further h
    · exact further h

theorem subset_of_splitAssignment {front back : Text}
    (h : splitAssignment s = some (front, back)) : front ⊆ s ∧ back ⊆ s := by
  obtain ⟨⟨l, rest⟩, found, same⟩ := Option.map_eq_some_iff.1 h
  cases same
  have whole : s = l ++ '=' :: rest := eq_of_cutAssignmentFrom found
  have inBack : rest ⊆ s := by
    rw [whole]
    exact List.Subset.trans (List.subset_cons_self '=' rest) (List.subset_append_right l _)
  exact ⟨List.Subset.trans (trim_subset l) (whole ▸ List.subset_append_left l _),
    List.Subset.trans (trim_subset rest) inBack⟩

theorem subset_of_mem_consPiece {c : Char} {ps : List Text} {p : Text}
    (kept : ∀ q ∈ ps, q ⊆ s) (h : p ∈ consPiece c ps) : p ⊆ c :: s := by
  cases ps with
  | nil =>
    rw [List.mem_singleton.1 h]
    exact List.cons_subset_cons c (List.nil_subset s)
  | cons q qs =>
    rcases List.mem_cons.1 h with rfl | later
    · exact List.cons_subset_cons c (kept q List.mem_cons_self)
    · exact List.subset_cons_of_subset c (kept p (List.mem_cons_of_mem q later))

theorem subset_of_mem_commaPieces {depth : Int} {quote : Option Char} {p : Text}
    (h : p ∈ commaPieces depth quote s) : p ⊆ s := by
  induction s generalizing depth quote p with
  | nil => simp [List.mem_singleton.1 h]
  | cons c s ih =>
    have further {depth : Int} {quote : Option Char}
        (h : p ∈ consPiece c (commaPieces depth quote s)) : p ⊆ c :: s :=
      subset_of_mem_consPiece (fun _ => ih) h
    unfold commaPieces at h
    split at h
    · exact further h
    · split at h
      · exact further h
      · split at h
        · exact further h
        · split at h
          · exact further h
          · split at h
            · rcases List.mem_cons.1 h with rfl | later
              · exact List.nil_subset _
              · exact List.subset_cons_of_subset c (ih later)
            · exact further h

theorem subset_of_mem_splitTopLevel {p : Text} (h : p ∈ splitTopLevel s) : p ⊆ s := by
  have piece : p ∈ (commaPieces 0 none s).map trim := by
    simp only [splitTopLevel] at h
    split at h
    · exact List.dropLast_subset _ h
    · exact h
  obtain ⟨q, hq, rfl⟩ := List.mem_map.1 piece
  exact List.Subset.trans (trim_subset q) (subset_of_mem_commaPieces hq)

theorem subset_of_identifier? {name rest : Text} (h : identifier? s = some (name, rest)) :
    name ⊆ s ∧ rest ⊆ s := by
  cases s with
  | nil => cases h
  | cons c s =>
    by_cases starts : startsName c
    · rw [identifier?, if_pos starts] at h
      cases h
      exact ⟨List.cons_subset_cons c (List.takeWhile_subset isWord),
        List.subset_cons_of_subset c (List.dropWhile_subset isWord)⟩
    · rw [identifier?, if_neg starts] at h
      cases h

end Text

namespace Script

open Text

variable {s r : Text}

def Parameter.texts (p : Parameter) : List Text := p.name :: (p.hint.toList ++ p.default.toList)

def Header.texts : Header → List Text
  | .function name parameters returns =>
    name :: (parameters.flatMap Parameter.texts ++ returns.toList)
  | .classType name => [name]
  | .ifTest condition | .elseIf condition | .whileTest condition => [condition]
  | .otherwise => []
  | .loop target iterable => [target, iterable]
  | .unsupported header => [header]

def Simple.texts : Simple → List Text
  | .blank | .pass | .returning none => []
  | .comment text | .importing text | .returning (some text) | .printing text | .raw text => [text]
  | .docstring content => content
  | .assign target hint value => target :: value :: hint.toList

def Statement.texts : Statement → List Text
  | .simple s => s.texts
  | .header h => h.texts

theorem subset_of_afterKeyword? {keyword : String} (h : afterKeyword? keyword s = some r) :
    r ⊆ s := by
  obtain ⟨t, behind, gap⟩ := Option.bind_eq_some_iff.1 h
  exact List.Subset.trans (subset_of_afterGap? gap) (subset_of_after? behind)

theorem skipAsync_subset (s : Text) : skipAsync s ⊆ s := by
  unfold skipAsync
  cases found : afterKeyword? "async" s with
  | none => exact List.Subset.refl s
  | some r => exact subset_of_afterKeyword? found

theorem subset_of_upToHeaderEnd (h : upToHeaderEnd s = some r) : r ⊆ s := by
  induction s generalizing r with
  | nil => cases h
  | cons c s ih =>
    unfold upToHeaderEnd at h
    split at h
    · cases h
      exact List.cons_subset_cons c (List.nil_subset s)
    · obtain ⟨t, found, rfl⟩ := Option.map_eq_some_iff.1 h
      exact List.cons_subset_cons c (ih found)

theorem subset_of_clauseAfter {least : Nat} (h : clauseAfter least s = some r) : r ⊆ s := by
  simp only [clauseAfter] at h
  split at h
  · cases h
  · split at h
    · next clause found =>
      cases h
      exact List.Subset.trans (subset_of_upToHeaderEnd found) (List.dropWhile_subset isBlank)
    · split at h
      · obtain ⟨b, last, rfl⟩ := Option.map_eq_some_iff.1 h
        exact List.cons_subset.2
          ⟨List.takeWhile_subset isBlank (List.mem_of_getLast? last), List.nil_subset s⟩
      · cases h

theorem subset_of_upToLastClosing {α : Type} {tail : Text → Option α} {inside : Text} {a : α}
    (h : upToLastClosing tail s = some (inside, a)) :
    inside ⊆ s ∧ ∃ rest, rest ⊆ s ∧ tail rest = some a := by
  induction s generalizing inside with
  | nil => cases h
  | cons c s ih =>
    unfold upToLastClosing at h
    split at h
    · next later b found =>
      cases h
      obtain ⟨inLater, rest, inRest, made⟩ := ih found
      exact ⟨List.cons_subset_cons c inLater, rest, List.subset_cons_of_subset c inRest, made⟩
    · split at h
      · obtain ⟨b, made, same⟩ := Option.map_eq_some_iff.1 h
        cases same
        exact ⟨List.nil_subset _, s, List.subset_cons_self c s, made⟩
      · cases h

theorem subset_of_mem_parameter {p : Text} (h : p ∈ (parameter s).texts) : p ⊆ s := by
  have parts {head p name hint : Text} {default : Option Text} (inHead : head ⊆ s)
      (inDefault : ∀ d ∈ default, d ⊆ s) (found : splitOnce? ':' head = some (name, hint))
      (h : p ∈ Parameter.texts ⟨trim name, some (trim hint), default⟩) : p ⊆ s := by
    obtain ⟨whole, -⟩ := splitOnce?_eq_some found
    rw [whole] at inHead
    simp only [Parameter.texts, List.mem_cons, List.mem_append, Option.mem_toList,
      Option.some.injEq, List.append_subset, List.cons_subset] at h inHead
    rcases h with rfl | rfl | h
    · exact List.Subset.trans (trim_subset name) inHead.1
    · exact List.Subset.trans (trim_subset hint) inHead.2.2
    · exact inDefault p h
  have whole {head p : Text} {default : Option Text} (inHead : head ⊆ s)
      (inDefault : ∀ d ∈ default, d ⊆ s) (h : p ∈ Parameter.texts ⟨head, none, default⟩) :
      p ⊆ s := by
    simp only [Parameter.texts, List.mem_cons, List.mem_append, Option.mem_toList,
      reduceCtorEq, false_or] at h
    rcases h with rfl | h
    · exact inHead
    · exact inDefault p h
  simp only [parameter] at h
  cases sides : splitAssignment s with
  | none =>
    rw [sides] at h
    split at h
    · next name hint found => exact parts (trim_subset s) (by simp) found h
    · exact whole (trim_subset s) (by simp) h
  | some sides' =>
    rw [sides] at h
    obtain ⟨inHead, inValue⟩ := subset_of_splitAssignment sides
    have inDefault : ∀ d ∈ some sides'.2, d ⊆ s := by
      rintro d ⟨⟩
      exact inValue
    split at h
    · next name hint found => exact parts inHead inDefault found h
    · exact whole inHead inDefault h

theorem subset_of_mem_parameters {p : Parameter} {t : Text} (h : p ∈ parameters s)
    (mem : t ∈ p.texts) : t ⊆ s := by
  have made : p ∈ (splitTopLevel s).map parameter := by
    unfold parameters at h
    split at h
    · cases h
    · next q ps shape =>
      rw [shape]
      split at h
      · exact List.mem_cons_of_mem q h
      · exact h
  obtain ⟨item, hitem, rfl⟩ := List.mem_map.1 made
  exact List.Subset.trans (subset_of_mem_parameter mem) (subset_of_mem_splitTopLevel hitem)

theorem subset_of_functionTail? {returns : Option Text} {hint : Text}
    (h : functionTail? s = some returns) (given : hint ∈ returns) : hint ⊆ s := by
  unfold functionTail? at h
  split at h
  · next r behind =>
    obtain ⟨clause, found, rfl⟩ := Option.map_eq_some_iff.1 h
    cases given
    exact List.Subset.trans (trim_subset clause) (List.Subset.trans (subset_of_clauseAfter found)
      (List.Subset.trans (subset_of_after? behind) (trimStart_subset s)))
  · split at h
    · cases h
      cases given
    · cases h

theorem subset_of_functionHeader? {h : Header} (found : functionHeader? s = some h) {t : Text}
    (mem : t ∈ h.texts) : t ⊆ s := by
  unfold functionHeader? at found
  obtain ⟨⟨name, r⟩, named, found⟩ := Option.bind_eq_some_iff.1 found
  obtain ⟨u, keyword, named⟩ := Option.bind_eq_some_iff.1 named
  obtain ⟨list, opened, found⟩ := Option.bind_eq_some_iff.1 found
  obtain ⟨⟨inside, returns⟩, closed, made⟩ := Option.bind_eq_some_iff.1 found
  cases made
  have inU : u ⊆ s := List.Subset.trans (subset_of_afterKeyword? keyword) (skipAsync_subset s)
  obtain ⟨inName, inR⟩ := subset_of_identifier? named
  have inList : list ⊆ s :=
    List.Subset.trans (subset_of_after? opened)
      (List.Subset.trans (trimStart_subset r) (List.Subset.trans inR inU))
  obtain ⟨inInside, rest, inRest, tail⟩ := subset_of_upToLastClosing closed
  simp only [Header.texts, List.mem_cons, List.mem_append, List.mem_flatMap,
    Option.mem_toList] at mem
  rcases mem with rfl | ⟨p, hp, mem⟩ | mem
  · exact List.Subset.trans inName inU
  · exact List.Subset.trans (subset_of_mem_parameters hp mem) (List.Subset.trans inInside inList)
  · exact List.Subset.trans (subset_of_functionTail? tail mem) (List.Subset.trans inRest inList)

theorem subset_of_classHeader? {h : Header} (found : classHeader? s = some h) {t : Text}
    (mem : t ∈ h.texts) : t ⊆ s := by
  unfold classHeader? at found
  obtain ⟨⟨name, r⟩, named, found⟩ := Option.bind_eq_some_iff.1 found
  obtain ⟨u, keyword, named⟩ := Option.bind_eq_some_iff.1 named
  obtain ⟨-, made⟩ := Option.ite_none_right_eq_some.1 found
  cases made
  rw [List.mem_singleton.1 mem]
  exact List.Subset.trans (subset_of_identifier? named).1 (subset_of_afterKeyword? keyword)

theorem subset_of_inClause? (h : inClause? s = some r) : r ⊆ s := by
  obtain ⟨u, behind, clause⟩ := Option.bind_eq_some_iff.1 h
  obtain ⟨v, gap, keyword⟩ := Option.bind_eq_some_iff.1 behind
  exact List.Subset.trans (subset_of_clauseAfter clause)
    (List.Subset.trans (subset_of_after? keyword) (subset_of_afterGap? gap))

theorem subset_of_loopParts? {target iterable : Text} (h : loopParts? s = some (target, iterable)) :
    target ⊆ s ∧ iterable ⊆ s := by
  induction s generalizing target with
  | nil => cases h
  | cons c s ih =>
    unfold loopParts? at h
    split at h
    · next found =>
      cases h
      exact ⟨List.cons_subset_cons c (List.nil_subset s),
        List.subset_cons_of_subset c (subset_of_inClause? found)⟩
    · obtain ⟨⟨t, i⟩, found, same⟩ := Option.map_eq_some_iff.1 h
      cases same
      obtain ⟨inTarget, inIterable⟩ := ih found
      exact ⟨List.cons_subset_cons c inTarget, List.subset_cons_of_subset c inIterable⟩

theorem subset_of_loopHeader? {h : Header} (found : loopHeader? s = some h) {t : Text}
    (mem : t ∈ h.texts) : t ⊆ s := by
  unfold loopHeader? at found
  obtain ⟨u, keyword, found⟩ := Option.bind_eq_some_iff.1 found
  have inU : u ⊆ s := List.Subset.trans (subset_of_after? keyword) (skipAsync_subset s)
  suffices inHeader : t ⊆ u from List.Subset.trans inHeader inU
  simp only at found
  split at found
  · cases found
  · split at found
    · next target iterable parts =>
      cases found
      obtain ⟨inTarget, inIterable⟩ := subset_of_loopParts? parts
      simp only [Header.texts, List.mem_cons, List.not_mem_nil, or_false] at mem
      rcases mem with rfl | rfl
      · exact List.Subset.trans inTarget (List.dropWhile_subset isBlank)
      · exact List.Subset.trans inIterable (List.dropWhile_subset isBlank)
    · split at found
      · obtain ⟨clause, parts, rfl⟩ := Option.map_eq_some_iff.1 found
        obtain ⟨v, behind, parts⟩ := Option.bind_eq_some_iff.1 parts
        simp only [Header.texts, List.mem_cons, List.not_mem_nil, or_false] at mem
        rcases mem with rfl | rfl
        · intro c hc
          have last := List.mem_of_getLast? (Option.mem_toList.1 hc)
          exact List.takeWhile_subset isBlank (List.dropLast_subset _ last)
        · exact List.Subset.trans (subset_of_clauseAfter parts)
            (List.Subset.trans (subset_of_after? behind) (List.dropWhile_subset isBlank))
      · cases found

/-- The condition after a keyword. -/
theorem subset_of_test {keyword : String} {make : Text → Header}
    (single : ∀ condition, (make condition).texts = [condition]) {h : Header}
    (found : ((after? keyword s).bind (clauseAfter 1)).map make = some h) {t : Text}
    (mem : t ∈ h.texts) : t ⊆ s := by
  obtain ⟨condition, parts, rfl⟩ := Option.map_eq_some_iff.1 found
  obtain ⟨r, behind, clause⟩ := Option.bind_eq_some_iff.1 parts
  rw [single, List.mem_singleton] at mem
  rw [mem]
  exact List.Subset.trans (subset_of_clauseAfter clause) (subset_of_after? behind)

theorem subset_of_header? {h : Header} (found : header? s = some h) {t : Text}
    (mem : t ∈ h.texts) : t ⊆ s := by
  simp only [header?, Option.orElse_eq_orElse, Option.orElse_eq_or, Option.or_eq_some_iff] at found
  rcases found with found | ⟨-, found | ⟨-, found | ⟨-, found | ⟨-, found | ⟨-, found | ⟨-, found |
    ⟨-, found⟩⟩⟩⟩⟩⟩⟩
  · exact subset_of_functionHeader? found mem
  · exact subset_of_classHeader? found mem
  · exact subset_of_test (fun _ => rfl) found mem
  · exact subset_of_test (fun _ => rfl) found mem
  · obtain ⟨-, made⟩ := Option.ite_none_right_eq_some.1 found
    cases made
    cases mem
  · exact subset_of_loopHeader? found mem
  · exact subset_of_test (fun _ => rfl) found mem
  · obtain ⟨-, made⟩ := Option.ite_none_right_eq_some.1 found
    cases made
    rw [List.mem_singleton.1 mem]
    exact List.Subset.refl s

theorem subset_of_returning? {value : Option Text} (found : returning? s = some value)
    (given : r ∈ value) : r ⊆ s := by
  obtain ⟨u, behind, found⟩ := Option.bind_eq_some_iff.1 found
  split at found
  · cases found
    cases given
  · obtain ⟨v, gap, rfl⟩ := Option.map_eq_some_iff.1 found
    cases given
    exact List.Subset.trans (subset_of_afterGap? gap) (subset_of_after? behind)

theorem append_of_dottedName? {name : Text} (h : dottedName? s = some (name, r)) :
    name ++ r = s := by
  cases s with
  | nil => cases h
  | cons c s =>
    rw [dottedName?, Option.ite_none_right_eq_some] at h
    obtain ⟨-, made⟩ := h
    cases made
    rw [List.cons_append, List.takeWhile_append_dropWhile]

theorem append_splitIndex (s : Text) : (splitIndex s).1 ++ (splitIndex s).2 = s := by
  unfold splitIndex
  split
  · next inside rest found =>
    obtain ⟨u, opened, closed⟩ := Option.bind_eq_some_iff.1 found
    rw [after?_eq_some_iff.1 opened, (splitOnce?_eq_some closed).1]
    simp
  · rfl

theorem subset_of_assignmentTarget? {target : Text} {hint : Option Text}
    (found : assignmentTarget? s = some (target, hint)) :
    target ⊆ s ∧ ∀ a ∈ hint, a ⊆ s := by
  obtain ⟨⟨name, r⟩, named, parts⟩ := Option.bind_eq_some_iff.1 found
  have whole := append_of_dottedName? named
  have indexed := append_splitIndex r
  obtain ⟨index, u, pair⟩ : ∃ index u, splitIndex r = (index, u) := ⟨_, _, rfl⟩
  simp only [pair] at parts indexed
  subst indexed whole
  have inU {p : Text} (inside : p ⊆ u) : p ⊆ name ++ (index ++ u) :=
    List.Subset.trans inside
      (List.Subset.trans (List.subset_append_right index u) (List.subset_append_right name _))
  have inTarget {further : Text} (inFurther : further ⊆ u) :
      name ++ index ++ further ⊆ name ++ (index ++ u) := by
    rw [List.append_assoc]
    exact List.append_subset.2 ⟨List.subset_append_left name _, List.append_subset.2
      ⟨List.Subset.trans (List.subset_append_left index u) (List.subset_append_right name _),
        inU inFurther⟩⟩
  have inFront : trimEnd (u.takeWhile (· ≠ ':')) ⊆ u :=
    List.Subset.trans (trimEnd_subset _) (List.takeWhile_subset _)
  split at parts
  · cases parts
  · split at parts
    · split at parts
      · cases parts
        exact ⟨inTarget inFront, by simp⟩
      · next c a behind =>
        obtain ⟨-, made⟩ := Option.ite_none_left_eq_some.1 parts
        cases made
        refine ⟨inTarget inFront, ?_⟩
        rintro _ ⟨⟩
        have inTail : a ⊆ u := by
          have tail := List.dropWhile_subset (fun c => decide (c ≠ ':')) (l := u)
          rw [behind] at tail
          exact (List.cons_subset.1 tail).2
        exact inU (List.Subset.trans (trim_subset a) inTail)
    · cases parts

theorem subset_of_assignment? {made : Simple} (found : assignment? s = some made)
    (mem : r ∈ made.texts) : r ⊆ s := by
  obtain ⟨⟨lhs, value⟩, sides, found⟩ := Option.bind_eq_some_iff.1 found
  obtain ⟨inLhs, inValue⟩ := subset_of_splitAssignment sides
  simp only at found
  split at found
  · cases found
  · obtain ⟨⟨target, hint⟩, left, same⟩ := Option.bind_eq_some_iff.1 found
    cases same
    obtain ⟨inTarget, inHint⟩ := subset_of_assignmentTarget? left
    simp only [Simple.texts, List.mem_cons, Option.mem_toList] at mem
    rcases mem with rfl | rfl | given
    · exact List.Subset.trans inTarget inLhs
    · exact inValue
    · exact List.Subset.trans (inHint r given) inLhs

theorem subset_of_printing? {made : Simple} (found : printing? s = some made)
    (mem : r ∈ made.texts) : r ⊆ s := by
  obtain ⟨u, behind, found⟩ := Option.bind_eq_some_iff.1 found
  rw [Option.ite_none_right_eq_some] at found
  obtain ⟨-, same⟩ := found
  cases same
  rw [List.mem_singleton.1 mem]
  exact List.Subset.trans (List.dropLast_subset _)
    (List.Subset.trans (trimEnd_subset u) (subset_of_after? behind))

theorem subset_of_mem_simple (mem : r ∈ (simple s).texts) : r ⊆ s := by
  simp only [simple, Option.orElse_eq_orElse, Option.orElse_eq_or] at mem
  cases found : ((returning? s).map Simple.returning).or ((assignment? s).or (printing? s)) with
  | none =>
    rw [found, Option.getD_none] at mem
    split at mem
    · cases mem
    · rw [List.mem_singleton.1 mem]
      exact List.Subset.refl s
  | some made =>
    rw [found, Option.getD_some] at mem
    simp only [Option.or_eq_some_iff] at found
    rcases found with found | ⟨-, found | ⟨-, found⟩⟩
    · obtain ⟨value, returns, rfl⟩ := Option.map_eq_some_iff.1 found
      cases value with
      | none => cases mem
      | some value =>
        rw [List.mem_singleton.1 mem]
        exact subset_of_returning? returns rfl
    · exact subset_of_assignment? found mem
    · exact subset_of_printing? found mem

/-- The texts of a statement are made of the characters of its logical line. -/
theorem subset_of_mem_recognise (mem : r ∈ (recognise s).texts) : r ⊆ s := by
  unfold recognise at mem
  split at mem
  · rw [List.mem_singleton.1 mem]
    exact List.Subset.refl s
  · split at mem
    · next h found => exact subset_of_header? found mem
    · exact subset_of_mem_simple mem

end Script

end SwiftDraft
