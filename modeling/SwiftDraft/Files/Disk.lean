import SwiftDraft.Files.Path
import SwiftDraft.Text.Utf8

/-!
# Disks

Folders and files by their locations, which are the names on the way from the root. Operations take
paths and say why they fail; one that fails part of the way keeps what it did before.
-/

namespace SwiftDraft.Files

open Text

/-- Why an operation on files fails. -/
inductive Fault where
  | notFound
  | denied
  | exists
  | notADirectory
  | isADirectory
  | nameTooLong
  | notUtf8
  | notRegular
  | nulByte
  | nulInCommand
  deriving DecidableEq, Repr

def Fault.text : Fault → Text
  | .notFound => "No such file or directory (os error 2)".toList
  | .denied => "Permission denied (os error 13)".toList
  | .exists => "File exists (os error 17)".toList
  | .notADirectory => "Not a directory (os error 20)".toList
  | .isADirectory => "Is a directory (os error 21)".toList
  | .nameTooLong => "File name too long (os error 36)".toList
  | .notUtf8 => "stream did not contain valid UTF-8".toList
  | .notRegular =>
    "the source path is neither a regular file nor a symlink to a regular file".toList
  | .nulByte => "file name contained an unexpected NUL byte".toList
  | .nulInCommand => "nul byte found in provided data".toList

/-- The names on the way from the root. -/
abbrev Location := List Text

inductive Item where
  | folder
  | file (content : Bytes)
  deriving DecidableEq, Repr

structure Disk where
  items : List (Location × Item)
  /-- The folder at which relative paths start. -/
  current : Location
  deriving Repr

namespace Disk

/-- What stands at a location. The root is a folder. -/
def get? (d : Disk) (at_ : Location) : Option Item :=
  if at_ = [] then some .folder else (d.items.find? fun e => e.1 == at_).map Prod.snd

def putEntry (at_ : Location) (item : Item) : List (Location × Item) → List (Location × Item)
  | [] => [(at_, item)]
  | e :: rest => if e.1 = at_ then (at_, item) :: rest else e :: putEntry at_ item rest

/-- Puts an item at a location. -/
def put (d : Disk) (at_ : Location) (item : Item) : Disk :=
  { d with items := putEntry at_ item d.items }

theorem find?_putEntry (at_ other : Location) (item : Item) (items : List (Location × Item)) :
    ((putEntry at_ item items).find? fun e => e.1 == other) =
      if other = at_ then some (at_, item) else items.find? fun e => e.1 == other := by
  induction items with
  | nil =>
    by_cases h : other = at_
    · simp [putEntry, h]
    · simp [putEntry, h, Ne.symm h]
  | cons e rest ih =>
    by_cases he : e.1 = at_
    · by_cases h : other = at_
      · simp [putEntry, he, h]
      · simp [putEntry, he, h, Ne.symm h]
    · by_cases h : e.1 = other
      · have ho : other ≠ at_ := h ▸ he
        simp [putEntry, h, ho]
      · simp [putEntry, he, h, ih]

/-- Other places stay as they are. -/
theorem get?_put (d : Disk) {at_ : Location} (h : at_ ≠ []) (item : Item) (other : Location) :
    (d.put at_ item).get? other = if other = at_ then some item else d.get? other := by
  by_cases ho : other = []
  · have hne : ¬ [] = at_ := fun e => h e.symm
    simp [get?, ho, hne]
  · simp only [get?, put, ho, if_false, find?_putEntry]
    split <;> rfl

/-- A disk with nothing but the current folder. -/
def atFolder (current : Location) : Disk :=
  ⟨(List.range current.length).map fun n => (current.take (n + 1), .folder), current⟩

/-- The most bytes that a name may have. -/
def longestName : Nat := 255

/-- The most bytes that a path may have as it is written. -/
def longestPath : Nat := 4095

/-- Why a path that is not empty cannot even be followed, if so. -/
def unusable? (path : Text) : Option Fault :=
  if Char.ofNat 0 ∈ path then some .nulByte
  else if longestPath < (encodeUtf8 path).length then some .nameTooLong
  else none

/-- Follows steps from a location. All but the last have to be there and be folders; what the last
one names may be missing. -/
def follow (d : Disk) (at_ : Location) : List Step → Except Fault Location
  | [] => .ok at_
  | s :: rest =>
    match d.get? at_ with
    | none => .error .notFound
    | some (.file _) => .error .notADirectory
    | some .folder =>
      match s with
      | .here => d.follow at_ rest
      | .up => d.follow at_.dropLast rest
      | .name n =>
        if longestName < (encodeUtf8 n).length then .error .nameTooLong
        else d.follow (at_ ++ [n]) rest

def base (d : Disk) (absolute : Bool) : Location := if absolute then [] else d.current

/-- The location of a path, whose last name may be missing. -/
def locate (d : Disk) (path : Text) : Except Fault Location :=
  if path = [] then .error .notFound
  else match unusable? path with
    | some f => .error f
    | none =>
      d.follow (d.base (isAbsolute path))
        (steps path ++ if path.getLast? = some '/' then [.here] else [])

/-- The content of a file. -/
def read (d : Disk) (path : Text) : Except Fault Bytes :=
  match d.locate path with
  | .error f => .error f
  | .ok at_ =>
    match d.get? at_ with
    | none => .error .notFound
    | some .folder => .error .isADirectory
    | some (.file content) => .ok content

/-- The content of a file as text. -/
def readText (d : Disk) (path : Text) : Except Fault Text :=
  match d.read path with
  | .error f => .error f
  | .ok content =>
    match decodeUtf8? content with
    | some s => .ok s
    | none => .error .notUtf8

/-- Whether something stands at a path. -/
def has (d : Disk) (path : Text) : Bool :=
  match d.locate path with
  | .ok at_ => (d.get? at_).isSome
  | .error _ => false

/-- Replaces the content of a file, or makes a new one in a folder that is there. -/
def write (d : Disk) (path : Text) (content : Bytes) : Except Fault Disk :=
  match d.locate path with
  | .error f => .error f
  | .ok at_ =>
    match d.get? at_ with
    | some .folder => .error .isADirectory
    | _ => .ok (d.put at_ (.file content))

/-- Copies a file over another or to a new one. -/
def copy (d : Disk) (source target : Text) : Except Fault Disk :=
  match d.read source with
  | .error .isADirectory => .error .notRegular
  | .error f => .error f
  | .ok content => d.write target content

/-- Makes one folder, given by its steps. -/
def makeFolder (d : Disk) (absolute : Bool) (path : List Step) : Except Fault Disk :=
  match d.follow (d.base absolute) path.dropLast, path.getLast? with
  | .error f, _ => .error f
  | .ok _, none => .error .exists
  | .ok parent, some last =>
    match d.get? parent, last with
    | none, _ => .error .notFound
    | some (.file _), _ => .error .notADirectory
    | some .folder, .name n =>
      if longestName < (encodeUtf8 n).length then .error .nameTooLong
      else if (d.get? (parent ++ [n])).isSome then .error .exists
      else .ok (d.put (parent ++ [n]) .folder)
    | some .folder, _ => .error .exists

def isFolder (d : Disk) (absolute : Bool) (path : List Step) : Bool :=
  match d.follow (d.base absolute) path with
  | .ok at_ => d.get? at_ = some .folder
  | .error _ => false

/-- Makes the first of the paths, each of which lies in the next one; where that is not there it is
made first. -/
def makeEach (absolute : Bool) (d : Disk) : List (List Step) → Disk × Option Fault
  | [] => (d, none)
  | path :: outer =>
    match d.makeFolder absolute path with
    | .ok made => (made, none)
    | .error .notFound =>
      match makeEach absolute d outer with
      | (made, some f) => (made, some f)
      | (made, none) =>
        match made.makeFolder absolute path with
        | .ok inner => (inner, none)
        | .error f => (made, if made.isFolder absolute path then none else some f)
    | .error f => (d, if d.isFolder absolute path then none else some f)

/-- Makes a folder and the folders it lies in. The empty path is there already. -/
def makeFolders (d : Disk) (path : Text) : Disk × Option Fault :=
  if path = [] then (d, none)
  else match unusable? path with
    | some f => (d, some f)
    | none =>
      let absolute := isAbsolute path
      makeEach absolute d (steps path :: properAncestors absolute (plainSteps absolute (steps path)))

/-- What lies below the current folder, by relative paths; those of folders end in a slash. -/
def listing (d : Disk) : List (Text × Option Bytes) :=
  d.items.filterMap fun (at_, item) =>
    match d.current.isPrefixOf? at_ with
    | none => none
    | some [] => none
    | some names =>
      match item with
      | .folder => some (Text.join "/" names ++ ['/'], none)
      | .file content => some (Text.join "/" names, some content)

end Disk

end SwiftDraft.Files
