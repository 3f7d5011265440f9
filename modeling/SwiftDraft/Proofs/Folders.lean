import SwiftDraft.Proofs.Places

/-!
# Making folders

A folder is made with the folders it lies in. That only adds folders at places that its path passes
(`Disk.furnished_makeFolders`), also where it fails part of the way; where the folder is already
there it does nothing.
-/

namespace SwiftDraft.Files

open Text

namespace Disk

/-- A place that a path passes, or the one where it ends. -/
def Passes (d : Disk) (path : Text) (at_ : Location) : Prop :=
  ∃ n, at_ = arrive (d.base (isAbsolute path)) ((steps path).take n)

/-- Folders were made at some places of a kind, and nothing else has changed. -/
structure Furnished (places : Location → Prop) (d d' : Disk) : Prop where
  grows : d.Grows d'
  made : ∀ at_, d'.get? at_ ≠ d.get? at_ →
    places at_ ∧ d.get? at_ = none ∧ d'.get? at_ = some .folder

section

variable {places : Location → Prop} {d d' d'' : Disk} {absolute : Bool}

theorem Furnished.refl (places : Location → Prop) (d : Disk) : d.Furnished places d :=
  ⟨.refl d, fun _ changed => absurd rfl changed⟩

theorem Furnished.trans (first : d.Furnished places d') (second : d'.Furnished places d'') :
    d.Furnished places d'' := by
  refine ⟨first.grows.trans second.grows, ?_⟩
  intro at_ changed
  by_cases early : d'.get? at_ = d.get? at_
  · rw [← early] at changed ⊢
    exact second.made at_ changed
  · obtain ⟨here, free, folder⟩ := first.made at_ early
    exact ⟨here, free, second.grows.folder at_ folder⟩

/-- What stands somewhere is as it was. -/
theorem Furnished.get?_of_some (h : d.Furnished places d') {at_ : Location} {item : Item}
    (stood : d.get? at_ = some item) : d'.get? at_ = some item := by
  by_cases same : d'.get? at_ = d.get? at_
  · rw [same, stood]
  · obtain ⟨-, free, -⟩ := h.made at_ same
    rw [free] at stood
    cases stood

/-- Where a file can be written, something stands if it stood there before. -/
theorem Furnished.isSome_of_accepts (h : d.Furnished places d') {path : Text}
    (accepts : d'.Accepts path) :
    (d'.get? (d'.place path)).isSome = (d.get? (d.place path)).isSome := by
  have noFolder := accepts.2
  rw [h.grows.place] at noFolder ⊢
  by_cases same : d'.get? (d.place path) = d.get? (d.place path)
  · rw [same]
  · obtain ⟨-, -, made⟩ := h.made _ same
    exact absurd made noFolder

theorem isFolder_iff {path : List Step} : d.isFolder absolute path = true ↔
    d.follow (d.base absolute) path = .ok (arrive (d.base absolute) path) ∧
      d.get? (arrive (d.base absolute) path) = some .folder := by
  unfold isFolder
  cases followed : d.follow (d.base absolute) path with
  | error f => simp
  | ok found =>
    cases arrive_of_follow followed
    simp

theorem Grows.isFolder (grows : d.Grows d') {path : List Step}
    (h : d.isFolder absolute path = true) : d'.isFolder absolute path = true := by
  obtain ⟨followed, folder⟩ := isFolder_iff.1 h
  refine isFolder_iff.2 ?_
  rw [base, grows.current]
  exact ⟨grows.follow followed, grows.folder _ folder⟩

/-- A folder that was made stands where its path ends, and nothing stood there. -/
theorem makeFolder_eq_ok {path : List Step} (h : d.makeFolder absolute path = .ok d') :
    d.get? (arrive (d.base absolute) path) = none ∧
      d' = d.put (arrive (d.base absolute) path) .folder ∧ d'.isFolder absolute path = true := by
  unfold makeFolder at h
  split at h
  · cases h
  · cases h
  · next parent last followed ends =>
    obtain ⟨front, rfl⟩ := List.getLast?_eq_some_iff.1 ends
    rw [List.dropLast_concat] at followed
    cases arrive_of_follow followed
    split at h
    · cases h
    · cases h
    · next n folder =>
      split at h
      · cases h
      · next fits =>
        split at h
        · cases h
        · next free =>
          cases h
          have free : d.get? (arrive (d.base absolute) front ++ [n]) = none := by
            simpa using free
          have grows := grows_put_folder free
          have here := arrive_concat_name (d.base absolute) front n
          rw [here]
          refine ⟨free, rfl, isFolder_iff.2 ?_⟩
          change Disk.follow _ (d.base absolute) _ = _ ∧ _
          rw [follow_append, grows.follow followed]
          dsimp only
          rw [follow.eq_def, grows.folder _ folder]
          simp only [fits, if_false]
          refine ⟨congrArg Except.ok here.symm, ?_⟩
          change Disk.get? _ (arrive (d.base absolute) _) = _
          rw [here, get?_put _ (by simp), if_pos rfl]
    · cases h

theorem makeFolder_of_isFolder {path : List Step} (h : d.isFolder absolute path = true) :
    d.makeFolder absolute path = .error .exists := by
  obtain ⟨followed, folder⟩ := isFolder_iff.1 h
  rcases List.eq_nil_or_concat path with rfl | ⟨front, last, rfl⟩
  · rfl
  · rw [List.concat_eq_append] at followed folder ⊢
    rw [follow_append] at followed
    unfold makeFolder
    rw [List.dropLast_concat, List.getLast?_concat]
    split at followed
    · cases followed
    · next parent arrived =>
      cases arrive_of_follow arrived
      rw [arrived]
      dsimp only
      rw [follow.eq_def] at followed
      dsimp only at followed
      split at followed
      · cases followed
      · cases followed
      · next parentFolder =>
        rw [parentFolder]
        cases last with
        | here | up => rfl
        | name n =>
          dsimp only at followed ⊢
          split at followed
          · cases followed
          · next fits =>
            rw [arrive_concat_name] at folder
            rw [if_neg fits, folder]
            rfl

theorem furnished_makeFolder {path : List Step} (h : d.makeFolder absolute path = .ok d')
    (here : places (arrive (d.base absolute) path)) : d.Furnished places d' := by
  obtain ⟨free, rfl, -⟩ := makeFolder_eq_ok h
  refine ⟨grows_put_folder free, ?_⟩
  intro at_ changed
  have below : arrive (d.base absolute) path ≠ [] := by
    intro root
    rw [root] at free
    cases free
  rw [get?_put _ below] at changed ⊢
  split at changed
  · next same =>
    rw [same, if_pos rfl]
    exact ⟨here, free, rfl⟩
  · exact absurd rfl changed

theorem furnished_makeEach (paths : List (List Step)) (d : Disk)
    (here : ∀ path ∈ paths, places (arrive (d.base absolute) path)) :
    d.Furnished places (makeEach absolute d paths).1 := by
  induction paths with
  | nil => exact .refl places d
  | cons path outer ih =>
    have first : places (arrive (d.base absolute) path) := here path List.mem_cons_self
    have above := ih fun other mem => here other (List.mem_cons_of_mem _ mem)
    unfold makeEach
    split
    · next made done => exact furnished_makeFolder done first
    · split
      · next made f done =>
        rw [done] at above
        exact above
      · next made done =>
        rw [done] at above
        split
        · next inner innerDone =>
          refine above.trans (furnished_makeFolder innerDone ?_)
          rw [base, above.grows.current]
          exact first
        · exact above
    · exact .refl places d

theorem isFolder_of_makeEach {path : List Step} {outer : List (List Step)}
    (h : (makeEach absolute d (path :: outer)).2 = none) :
    (makeEach absolute d (path :: outer)).1.isFolder absolute path = true := by
  -- Where making the folder fails, it is asked whether it is there all the same.
  have checked {made : Disk} {f : Fault}
      (h : (if made.isFolder absolute path then none else some f) = none) :
      made.isFolder absolute path = true := by
    by_cases there : made.isFolder absolute path = true
    · exact there
    · rw [if_neg there] at h
      cases h
  unfold makeEach at h ⊢
  split at h
  · next made done => exact (makeFolder_eq_ok done).2.2
  · split at h
    · cases h
    · next made done =>
      split at h
      · next inner innerDone => exact (makeFolder_eq_ok innerDone).2.2
      · exact checked h
  · exact checked h

end

theorem arrive_take_filter_here (at_ : Location) (path : List Step) (n : Nat) :
    ∃ m, arrive at_ ((path.filter (· ≠ .here)).take n) = arrive at_ (path.take m) := by
  have split := List.take_append_drop n (path.filter (· ≠ .here))
  obtain ⟨front, behind, rfl, kept, -⟩ := List.filter_eq_append_iff.1 split.symm
  refine ⟨front.length, ?_⟩
  rw [← kept, arrive_filter_here, List.take_left]

/-- A path without the steps that stay in place passes no other places. -/
theorem arrive_take_plainSteps (at_ : Location) (absolute : Bool) (path : List Step) (n : Nat) :
    ∃ m, arrive at_ ((plainSteps absolute path).take n) = arrive at_ (path.take m) := by
  cases path with
  | nil => exact ⟨0, by simp [plainSteps]⟩
  | cons s rest =>
    unfold plainSteps
    dsimp only
    split
    · next dropped =>
      obtain ⟨m, same⟩ := arrive_take_filter_here at_ rest n
      refine ⟨m + 1, ?_⟩
      rw [same, dropped.1]
      rfl
    · cases n with
      | zero => exact ⟨0, rfl⟩
      | succ n =>
        obtain ⟨m, same⟩ := arrive_take_filter_here (s.lead at_) rest n
        exact ⟨m + 1, same⟩

/-- Making a folder adds folders where its path passes, and changes nothing else. -/
theorem furnished_makeFolders (d : Disk) (path : Text) :
    d.Furnished (d.Passes path) (d.makeFolders path).1 := by
  unfold makeFolders
  split
  · exact .refl _ d
  · split
    · exact .refl _ d
    · refine furnished_makeEach _ d ?_
      intro p mem
      rcases List.mem_cons.1 mem with rfl | outer
      · exact ⟨(steps path).length, by rw [List.take_length]⟩
      · obtain ⟨n, -, rfl⟩ := List.mem_map.1 outer
        exact arrive_take_plainSteps _ _ _ n

/-- A folder that was made is there, and is not made again. -/
theorem makeFolders_of_grows {d d' : Disk} {path : Text} (made : (d.makeFolders path).2 = none)
    (grows : (d.makeFolders path).1.Grows d') : d'.makeFolders path = (d', none) := by
  unfold makeFolders at made grows ⊢
  by_cases empty : path = []
  · rw [if_pos empty]
  · rw [if_neg empty] at made grows ⊢
    split at made
    · cases made
    · next usable =>
      rw [usable] at grows
      have there := grows.isFolder (isFolder_of_makeEach made)
      dsimp only
      unfold makeEach
      rw [makeFolder_of_isFolder there]
      dsimp only
      rw [if_pos there]

/-- Why a name in a folder that is there cannot be used, if so. -/
def unfit? (path name : Text) : Option Fault :=
  match unusable? path with
  | some f => some f
  | none => if longestName < (encodeUtf8 name).length then some .nameTooLong else none

section

variable {d : Disk} {folder n : Text}

theorem locate_join_eq (d : Disk) (folder : Text) (plain : PlainName n) :
    d.locate (join folder n) =
      match unusable? (join folder n) with
      | some f => .error f
      | none => d.follow (d.base (isAbsolute folder)) (steps folder ++ [.name n]) := by
  unfold locate
  rw [if_neg (join_ne_nil folder plain)]
  cases unusable? (join folder n) with
  | some f => rfl
  | none =>
    dsimp only
    rw [if_neg (not_slash_of_getLast?_join folder plain), isAbsolute_join folder plain,
      steps_join folder plain, List.append_nil]

/-- Where the folder is there, it depends on the name alone whether the path can be followed. -/
theorem locate_join (h : d.isFolder (isAbsolute folder) (steps folder) = true)
    (plain : PlainName n) :
    d.locate (join folder n) =
      match unfit? (join folder n) n with
      | some f => .error f
      | none => .ok (d.place folder ++ [n]) := by
  obtain ⟨followed, there⟩ := isFolder_iff.1 h
  rw [locate_join_eq d folder plain, unfit?]
  split
  · rfl
  · rw [follow_append, followed]
    dsimp only
    rw [follow.eq_def, there]
    dsimp only
    split
    · rfl
    · rfl

/-- A path in a folder that can be followed shows that the folder is there. -/
theorem isFolder_of_locate_join {found : Location} (plain : PlainName n)
    (h : d.locate (join folder n) = .ok found) :
    d.isFolder (isAbsolute folder) (steps folder) = true := by
  rw [locate_join_eq d folder plain] at h
  split at h
  · cases h
  · rw [follow_append] at h
    split at h
    · cases h
    · next parent followed =>
      cases arrive_of_follow followed
      rw [follow.eq_def] at h
      dsimp only at h
      split at h
      · cases h
      · cases h
      · next there => exact isFolder_iff.2 ⟨followed, there⟩

end

end Disk

end SwiftDraft.Files
