import SpecLinkage.Disk.Path
import SpecLinkage.Order.SortedMap

/-! # File trees

Directories and files by their location.  A name in a directory refers to a file by its
number, so that a name can be removed, or turned to another file, while somebody still
holds the old file open.

* `FileTree.readText` reads a file as text; it tells a missing file from one that is
  there but cannot be read.
* `FileTree.replaceFile` puts a new file at a name in one step, whatever was there before
  except a directory.
* `FileTree.openOrCreate` gives the file at a name, made empty if there was none. -/

namespace SpecLinkage

/-- The components of a place in a file tree, from its root. -/
abbrev Location := List String

/-- The number of a file. -/
abbrev FileId := Nat

/-- What a location holds. -/
inductive Node
  | directory
  | file (id : FileId)
  deriving DecidableEq, Repr

/-- Why an access failed. -/
inductive AccessError
  | missing
  /-- A component of the path is a file where a directory is needed. -/
  | notDirectory
  /-- The path names a directory where a file is needed. -/
  | isDirectory
  /-- The file does not hold UTF-8 text. -/
  | notText
  deriving DecidableEq, Repr

/-- The words for a failed access. -/
def AccessError.message : AccessError → String
  | missing => "no such file or directory"
  | notDirectory => "not a directory"
  | isDirectory => "is a directory"
  | notText => "not valid UTF-8"

/-- Directories and files. -/
structure FileTree where
  /-- What the locations hold; the root is always a directory. -/
  nodes : SortedMap Location Node := {}
  contents : SortedMap FileId ByteArray := {}
  /-- A number that no file has yet. -/
  nextId : FileId := 0
  /-- The files with a name have been numbered. -/
  numbered : ∀ l id, nodes.get? l = some (.file id) → id < nextId := by
    intro l id h; cases h
  /-- A file has at most one name. -/
  named_once : ∀ l l' id, nodes.get? l = some (.file id) → nodes.get? l' = some (.file id) →
      l = l' := by
    intro l l' id h; cases h

namespace FileTree

/-! ## Looking up -/

/-- What a location holds. -/
def node? (t : FileTree) (l : Location) : Option Node :=
  if l = [] then some .directory else t.nodes.get? l

/-- The location that is reached from a directory along the pieces of a path; everything
before the last piece has to be a directory. -/
def walk (t : FileTree) (here : Location) : List (List Char) → Except AccessError Location
  | [] => .ok here
  | p :: ps =>
    if DiskPath.isInert p then walk t here ps
    else if p = ['.', '.'] then walk t here.dropLast ps
    else
      let there := here ++ [String.ofList p]
      if ps.isEmpty then .ok there
      else match t.node? there with
        | none => .error .missing
        | some (.file _) => .error .notDirectory
        | some .directory => walk t there ps

def locate (t : FileTree) (path : String) : Except AccessError Location :=
  t.walk [] (DiskPath.pieces path)

def find (t : FileTree) (path : String) : Except AccessError Node :=
  match t.locate path with
  | .error e => .error e
  | .ok l =>
    match t.node? l with
    | none => .error .missing
    | some n => .ok n

def isFile (t : FileTree) (path : String) : Bool :=
  match t.find path with
  | .ok (.file _) => true
  | _ => false

def content (t : FileTree) (id : FileId) : ByteArray := (t.contents.get? id).getD .empty

def readBytes (t : FileTree) (path : String) : Except AccessError ByteArray :=
  match t.find path with
  | .error e => .error e
  | .ok .directory => .error .isDirectory
  | .ok (.file id) => .ok (t.content id)

def readText (t : FileTree) (path : String) : Except AccessError String :=
  match t.readBytes path with
  | .error e => .error e
  | .ok bytes =>
    match String.fromUTF8? bytes with
    | none => .error .notText
    | some s => .ok s

/-- The names in the directory at a path, in order; none if it is no directory. -/
def list (t : FileTree) (path : String) : List String :=
  match t.locate path with
  | .error _ => []
  | .ok l =>
    if t.node? l = some .directory then
      t.nodes.keys.filterMap fun k => if k.dropLast = l then k.getLast? else none
    else []

/-! ## Changing -/

def addDirectory (t : FileTree) (l : Location) : FileTree where
  nodes := t.nodes.insert l .directory
  contents := t.contents
  nextId := t.nextId
  numbered := by
    intro l' id h
    rw [SortedMap.get?_insert] at h
    split at h
    · cases h
    · exact t.numbered l' id h
  named_once := by
    intro l₁ l₂ id h₁ h₂
    rw [SortedMap.get?_insert] at h₁ h₂
    split at h₁
    · cases h₁
    · split at h₂
      · cases h₂
      · exact t.named_once l₁ l₂ id h₁ h₂

def keepNames (t : FileTree) (p : Location → Bool) : FileTree where
  nodes := t.nodes.filter fun l _ => p l
  contents := t.contents
  nextId := t.nextId
  numbered := by
    intro l id h
    rw [SortedMap.get?_filter, Option.filter_eq_some_iff] at h
    exact t.numbered l id h.1
  named_once := by
    intro l₁ l₂ id h₁ h₂
    rw [SortedMap.get?_filter, Option.filter_eq_some_iff] at h₁ h₂
    exact t.named_once l₁ l₂ id h₁.1 h₂.1

def setContent (t : FileTree) (id : FileId) (bytes : ByteArray) : FileTree :=
  { t with contents := t.contents.insert id bytes }

/-- Put a new file with the given contents at a location. -/
def addFile (t : FileTree) (l : Location) (bytes : ByteArray) : FileTree where
  nodes := t.nodes.insert l (.file t.nextId)
  contents := t.contents.insert t.nextId bytes
  nextId := t.nextId + 1
  numbered := by
    intro l' id h
    rw [SortedMap.get?_insert] at h
    split at h
    · cases h
      exact Nat.lt_succ_self _
    · exact Nat.lt_succ_of_lt (t.numbered l' id h)
  named_once := by
    intro l₁ l₂ id h₁ h₂
    rw [SortedMap.get?_insert] at h₁ h₂
    split at h₁
    · next e₁ =>
      cases h₁
      split at h₂
      · next e₂ =>
        rw [Std.LawfulEqCmp.eq_of_compare e₁, Std.LawfulEqCmp.eq_of_compare e₂]
      · exact absurd (t.numbered l₂ _ h₂) (Nat.lt_irrefl _)
    · split at h₂
      · cases h₂
        exact absurd (t.numbered l₁ _ h₁) (Nat.lt_irrefl _)
      · exact t.named_once l₁ l₂ id h₁ h₂

/-- Make the directories along the pieces of a path. -/
def makeAlong (t : FileTree) (here : Location) : List (List Char) → Except AccessError FileTree
  | [] => .ok t
  | p :: ps =>
    if DiskPath.isInert p then makeAlong t here ps
    else if p = ['.', '.'] then makeAlong t here.dropLast ps
    else
      let there := here ++ [String.ofList p]
      match t.node? there with
      | none => makeAlong (t.addDirectory there) there ps
      | some (.file _) => .error .notDirectory
      | some .directory => makeAlong t there ps

/-- Make the directory at a path and those above it. -/
def makeDirectories (t : FileTree) (path : String) : Except AccessError FileTree :=
  t.makeAlong [] (DiskPath.pieces path)

/-- Make the directory that a path lies in. -/
def makeParent (t : FileTree) (path : String) : Except AccessError FileTree :=
  match DiskPath.parent? path with
  | none => .ok t
  | some dir => t.makeDirectories dir

/-- The file at a path; an empty one is made if there is nothing. -/
def openOrCreate (t : FileTree) (path : String) : Except AccessError (FileId × FileTree) :=
  match t.locate path with
  | .error e => .error e
  | .ok l =>
    match t.node? l with
    | some (.file id) => .ok (id, t)
    | some .directory => .error .isDirectory
    | none => .ok (t.nextId, t.addFile l .empty)

/-- Write a file in place: the name keeps the file that it refers to. -/
def writeFile (t : FileTree) (path : String) (bytes : ByteArray) : Except AccessError FileTree :=
  (t.openOrCreate path).map fun (id, t) => t.setContent id bytes

/-- Let the name at a path refer to a new file with the given contents. -/
def replaceFile (t : FileTree) (path : String) (bytes : ByteArray) : Except AccessError FileTree :=
  match t.locate path with
  | .error e => .error e
  | .ok l =>
    match t.node? l with
    | some .directory => .error .isDirectory
    | _ => .ok (t.addFile l bytes)

def removeFile (t : FileTree) (path : String) : Except AccessError FileTree :=
  match t.locate path with
  | .error e => .error e
  | .ok l =>
    match t.node? l with
    | none => .error .missing
    | some .directory => .error .isDirectory
    | some (.file _) => .ok (t.keepNames fun l' => l' != l)

/-- Remove whatever is at a path, with everything below it. -/
def removeAll (t : FileTree) (path : String) : Except AccessError FileTree :=
  match t.locate path with
  | .error e => .error e
  | .ok l =>
    if (t.node? l).isNone then .error .missing
    else .ok (t.keepNames fun l' => !l.isPrefixOf l')

/-! ## Lemmas -/

/-- Text that was written as UTF-8 reads back. -/
theorem fromUTF8?_toUTF8 (s : String) : String.fromUTF8? s.toUTF8 = some s := by
  have h : s.toUTF8.IsValidUTF8 := s.isValidUTF8
  rw [String.fromUTF8?, dif_pos h]
  rfl

end FileTree

end SpecLinkage
