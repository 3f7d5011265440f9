import SwiftDraft.Files.Disk

/-!
# The places that paths name

Without links a path names one place, whatever stands there (`Disk.place`): following it finds that
place or fails. What an operation makes of a disk is said place by place. A disk only grows
(`Disk.Grows`): nothing goes away, and what is a folder or a file stays one, so that a path that
could be followed still leads to the same place.
-/

namespace SwiftDraft.Files

open Text

/-- Where a step leads from a place. -/
def Step.lead (at_ : Location) : Step → Location
  | .here => at_
  | .up => at_.dropLast
  | .name n => at_ ++ [n]

/-- Where steps lead from a place, one after the other. -/
def arrive (at_ : Location) (path : List Step) : Location := path.foldl Step.lead at_

theorem arrive_append (at_ : Location) (path more : List Step) :
    arrive at_ (path ++ more) = arrive (arrive at_ path) more := List.foldl_append

theorem arrive_concat_name (at_ : Location) (path : List Step) (n : Text) :
    arrive at_ (path ++ [.name n]) = arrive at_ path ++ [n] := by
  rw [arrive_append]
  rfl

/-- Steps that stay in place do not matter. -/
theorem arrive_filter_here (at_ : Location) (path : List Step) :
    arrive at_ (path.filter (· ≠ .here)) = arrive at_ path := by
  induction path generalizing at_ with
  | nil => rfl
  | cons s rest ih =>
    cases s with
    | here => exact ih at_
    | up | name => exact ih _

/-- A name that is one step of a path, to something in a folder. -/
structure PlainName (n : Text) : Prop where
  noSlash : '/' ∉ n
  notEmpty : n ≠ []
  notHere : n ≠ ['.']
  notUp : n ≠ ['.', '.']

section

variable {n : Text}

theorem PlainName.not_isAbsolute (plain : PlainName n) : isAbsolute n = false := by
  cases n with
  | nil => rfl
  | cons c r =>
    have other : c ≠ '/' := fun same => plain.noSlash (by simp [same])
    simp [isAbsolute, other]

theorem steps_append_slash (front : Text) (plain : PlainName n) :
    steps (front ++ '/' :: n) = steps front ++ [.name n] := by
  have single : List.splitOn '/' n = [n] := List.splitOn_eq_singleton plain.noSlash
  have split : List.splitOn '/' (front ++ '/' :: n) = List.splitOn '/' front ++ [n] := by
    rw [List.splitOn_append_cons_of_beq _ _ (by rfl), single]
  simp [steps, split, plain.notEmpty, plain.notHere, plain.notUp]

theorem PlainName.steps_eq (plain : PlainName n) : steps n = [.name n] := by
  have single : List.splitOn '/' n = [n] := List.splitOn_eq_singleton plain.noSlash
  simp [steps, single, plain.notEmpty, plain.notHere, plain.notUp]

/-- Slashes at the end of a path are no steps. -/
theorem steps_concat_slash (front : Text) : steps (front ++ ['/']) = steps front := by
  have split : List.splitOn '/' (front ++ ['/']) = List.splitOn '/' front ++ [[]] := by
    rw [List.splitOn_append_cons_of_beq _ _ (by rfl)]
    rfl
  simp [steps, split]

theorem steps_join (folder : Text) (plain : PlainName n) :
    steps (join folder n) = steps folder ++ [.name n] := by
  unfold join
  split
  · next direct =>
    rcases direct with rfl | slash
    · exact plain.steps_eq
    · obtain ⟨front, rfl⟩ := List.getLast?_eq_some_iff.1 slash
      rw [List.append_assoc, steps_concat_slash]
      exact steps_append_slash front plain
  · exact steps_append_slash folder plain

theorem isAbsolute_join (folder : Text) (plain : PlainName n) :
    isAbsolute (join folder n) = isAbsolute folder := by
  unfold join
  cases folder with
  | nil => exact plain.not_isAbsolute
  | cons c r => split <;> rfl

theorem join_ne_nil (folder : Text) (plain : PlainName n) : join folder n ≠ [] := by
  unfold join
  split <;> simp [plain.notEmpty]

theorem join_append (folder ending : Text) :
    join folder n ++ ending = join folder (n ++ ending) := by
  unfold join
  split <;> simp

theorem join_inj {folder m : Text} (h : join folder n = join folder m) : n = m := by
  unfold join at h
  split at h
  · exact List.append_cancel_left h
  · exact (List.cons.inj (List.append_cancel_left h)).2

theorem not_slash_of_getLast?_join (folder : Text) (plain : PlainName n) :
    (join folder n).getLast? ≠ some '/' := by
  have last (front : Text) : (front ++ n).getLast? ≠ some '/' := by
    intro slash
    rw [List.getLast?_append, List.getLast?_eq_some_getLast plain.notEmpty, Option.some_or] at slash
    exact plain.noSlash (Option.some.inj slash ▸ List.getLast_mem plain.notEmpty)
  unfold join
  split
  · exact last folder
  · simpa using last (folder ++ ['/'])

end

namespace Disk

/-- The place that a path names. -/
def place (d : Disk) (path : Text) : Location := arrive (d.base (isAbsolute path)) (steps path)

theorem arrive_of_follow {d : Disk} {at_ found : Location} {path : List Step}
    (h : d.follow at_ path = .ok found) : found = arrive at_ path := by
  induction path generalizing at_ with
  | nil =>
    cases h
    rfl
  | cons s rest ih =>
    unfold follow at h
    split at h
    · cases h
    · cases h
    · split at h
      · exact ih h
      · exact ih h
      · split at h
        · cases h
        · exact ih h

theorem follow_append (d : Disk) (at_ : Location) (path more : List Step) :
    d.follow at_ (path ++ more) =
      match d.follow at_ path with
      | .error f => .error f
      | .ok found => d.follow found more := by
  induction path generalizing at_ with
  | nil => rfl
  | cons s rest ih =>
    rw [List.cons_append, follow.eq_def d at_ (s :: rest), follow.eq_def d at_ (s :: _)]
    dsimp only
    cases d.get? at_ with
    | none => rfl
    | some item =>
      cases item with
      | file content => rfl
      | folder =>
        cases s with
        | here | up => exact ih _
        | name n =>
          dsimp only
          split
          · rfl
          · exact ih _

theorem place_of_locate {d : Disk} {path : Text} {found : Location}
    (h : d.locate path = .ok found) : found = d.place path := by
  unfold locate at h
  split at h
  · cases h
  · split at h
    · cases h
    · have arrived := arrive_of_follow h
      rw [arrived, arrive_append, place]
      split <;> rfl

theorem place_join (d : Disk) (folder : Text) {n : Text} (plain : PlainName n) :
    d.place (join folder n) = d.place folder ++ [n] := by
  rw [place, place, isAbsolute_join folder plain, steps_join folder plain, arrive_concat_name]

/-- What a disk becomes when nothing is taken away from it. -/
structure Grows (d d' : Disk) : Prop where
  current : d'.current = d.current
  folder : ∀ at_, d.get? at_ = some .folder → d'.get? at_ = some .folder
  file : ∀ at_ content, d.get? at_ = some (.file content) →
    ∃ content', d'.get? at_ = some (.file content')

theorem Grows.refl (d : Disk) : d.Grows d := ⟨rfl, fun _ h => h, fun _ content h => ⟨content, h⟩⟩

theorem Grows.trans {d d' d'' : Disk} (first : d.Grows d') (second : d'.Grows d'') :
    d.Grows d'' where
  current := second.current.trans first.current
  folder at_ h := second.folder at_ (first.folder at_ h)
  file at_ content h := by
    obtain ⟨content', h'⟩ := first.file at_ content h
    exact second.file at_ content' h'

theorem get?_root (d : Disk) : d.get? [] = some .folder := rfl

theorem grows_put_file {d : Disk} {at_ : Location} (free : d.get? at_ ≠ some .folder)
    (content : Bytes) : d.Grows (d.put at_ (.file content)) := by
  have below : at_ ≠ [] := by
    rintro rfl
    exact free d.get?_root
  refine ⟨rfl, ?_, ?_⟩
  · intro other h
    have apart : other ≠ at_ := fun same => free (same ▸ h)
    rw [get?_put d below, if_neg apart, h]
  · intro other old h
    rw [get?_put d below]
    split
    · exact ⟨content, rfl⟩
    · exact ⟨old, h⟩

theorem grows_put_folder {d : Disk} {at_ : Location} (free : d.get? at_ = none) :
    d.Grows (d.put at_ .folder) := by
  have below : at_ ≠ [] := by
    rintro rfl
    cases free
  have apart {other : Location} {item : Item} (h : d.get? other = some item) : other ≠ at_ := by
    rintro rfl
    rw [free] at h
    cases h
  refine ⟨rfl, ?_, ?_⟩
  · intro other h
    rw [get?_put d below, if_neg (apart h), h]
  · intro other content h
    exact ⟨content, by rw [get?_put d below, if_neg (apart h), h]⟩

section

variable {d d' : Disk} {path : Text}

theorem Grows.place (grows : d.Grows d') (path : Text) : d'.place path = d.place path := by
  rw [Disk.place, Disk.place, base, base, grows.current]

theorem Grows.follow (grows : d.Grows d') {at_ found : Location} {path : List Step}
    (h : d.follow at_ path = .ok found) : d'.follow at_ path = .ok found := by
  induction path generalizing at_ with
  | nil => exact h
  | cons s rest ih =>
    unfold Disk.follow at h ⊢
    split at h
    · cases h
    · cases h
    · next folder =>
      rw [grows.folder _ folder]
      dsimp only
      split at h
      · exact ih h
      · exact ih h
      · split at h
        · cases h
        · next fits =>
          rw [if_neg fits]
          exact ih h

theorem Grows.locate (grows : d.Grows d') {found : Location} (h : d.locate path = .ok found) :
    d'.locate path = .ok found := by
  unfold Disk.locate at h ⊢
  split at h
  · cases h
  · next there =>
    rw [if_neg there]
    split at h
    · cases h
    · rw [base, grows.current]
      exact grows.follow h

end

section

variable {d d' : Disk} {path : Text} {content : Bytes}

/-- Whether a file can be written at a path. -/
def Accepts (d : Disk) (path : Text) : Prop :=
  d.locate path = .ok (d.place path) ∧ d.get? (d.place path) ≠ some .folder

theorem accepts_iff :
    d.Accepts path ↔ (d.locate path).isOk = true ∧ d.get? (d.place path) ≠ some .folder := by
  unfold Accepts
  cases located : d.locate path with
  | error f => simp [Except.isOk, Except.toBool]
  | ok found =>
    cases place_of_locate located
    simp [Except.isOk, Except.toBool]

instance (d : Disk) (path : Text) : Decidable (d.Accepts path) :=
  decidable_of_iff _ accepts_iff.symm

theorem write_eq_ok_iff : d.write path content = .ok d' ↔
    d.Accepts path ∧ d' = d.put (d.place path) (.file content) := by
  unfold write Accepts
  cases located : d.locate path with
  | error f => simp
  | ok found =>
    cases place_of_locate located
    dsimp only
    rcases d.get? (d.place path) with _ | _ | _ <;> simp [eq_comm]

theorem read_eq_ok_iff : d.read path = .ok content ↔
    d.locate path = .ok (d.place path) ∧ d.get? (d.place path) = some (.file content) := by
  unfold read
  cases located : d.locate path with
  | error f => simp
  | ok found =>
    cases place_of_locate located
    dsimp only
    rcases d.get? (d.place path) with _ | _ | _ <;> simp

theorem has_iff : d.has path = true ↔
    d.locate path = .ok (d.place path) ∧ (d.get? (d.place path)).isSome := by
  unfold has
  cases located : d.locate path with
  | error f => simp
  | ok found =>
    cases place_of_locate located
    simp

theorem copy_eq_ok_iff {target : Text} : d.copy path target = .ok d' ↔
    ∃ content, d.read path = .ok content ∧ d.write target content = .ok d' := by
  unfold copy
  cases d.read path with
  | ok content => simp
  | error f => cases f <;> simp

theorem Accepts.below (h : d.Accepts path) : d.place path ≠ [] := by
  intro root
  exact h.2 (root ▸ d.get?_root)

end

end Disk

end SwiftDraft.Files
