import SpecLinkage.Store.Document
import SpecLinkage.Store.Error
import SpecLinkage.Catalog
import SpecLinkage.Chain.Link

/-! # Stores

A store keeps records in memory and, if it has a path, in a file.  A change is written at
once; if it cannot be written it is undone, so memory never holds what the file does not.
Inside an update, changes are only noted (`deferred`), and written together at its end.

* `Store.reload` is the only way in which a file becomes records.
* `Store.commit` is the only way in which a change is made.
* `Store.commit_error`: a change that could not be written leaves the recorded tags. -/

namespace SpecLinkage

/-- Records with their file. -/
structure Store where
  /-- The file; a store without one lives in memory. -/
  path : Option String
  records : Records := {}
  status : LoadStatus := .fresh
  /-- Whether changes are noted instead of written. -/
  deferred : Bool := false
  /-- Whether there are changes that are not written. -/
  dirty : Bool := false

namespace Store

/-- What a call leaves behind. -/
structure Outcome (α : Type) where
  result : Except StoreError α
  store : Store
  tree : FileTree

/-! ## Loading -/

def inMemory : Store := { path := none }

def load (t : FileTree) (path : String) : Records × LoadStatus :=
  match t.readText path with
  | .error .missing => ({}, .fresh)
  | .error e => ({}, .unreadable (.unreadable path e))
  | .ok text =>
    match StoreDocument.ofText? text with
    | none => ({}, .degraded (.corrupted path))
    | some d => (d.records, .loaded d.skipped)

/-- Take the records from the file; a store in memory keeps its own. -/
def reload (s : Store) (t : FileTree) : Store :=
  match s.path with
  | none => s
  | some path => { s with records := (load t path).1, status := (load t path).2 }

def openAt (t : FileTree) (path : String) : Store := reload { path := some path } t

/-! ## Writing -/

/-- Write text to a file in one step, with the directories above it. -/
def writeAll (t : FileTree) (path text : String) : Except AccessError Unit × FileTree :=
  match t.makeParent path with
  | .error e => (.error e, t)
  | .ok t =>
    match t.replaceFile path text.toUTF8 with
    | .error e => (.error e, t)
    | .ok t => (.ok (), t)

/-- Write the records to the file, or note that this is to be done. -/
def persist (s : Store) (t : FileTree) : Outcome Unit :=
  if s.deferred then ⟨.ok (), { s with dirty := true }, t⟩
  else match s.path with
    | none => ⟨.ok (), s, t⟩
    | some path =>
      match s.status with
      | .unreadable cause => ⟨.error (.refused path cause), s, t⟩
      | _ =>
        match writeAll t path (StoreDocument.ofRecords s.records).text with
        | (.error e, t) => ⟨.error (.unwritable path e), s, t⟩
        | (.ok (), t) => ⟨.ok (), s, t⟩

/-- Record the given tags and nothing else. -/
def restore (s : Store) (ts : List Tag) : Store := { s with records := .ofTags ts }

/-- Make a change and write it; a change that cannot be written is undone. -/
def commit {α : Type} (change : Records → α × Records) (s : Store) (t : FileTree) : Outcome α :=
  match persist { s with records := (change s.records).2 } t with
  | ⟨.ok (), s', t⟩ => ⟨.ok (change s.records).1, s', t⟩
  | ⟨.error e, s', t⟩ => ⟨.error e, s'.restore s.records.tags, t⟩

/-! ## Changes -/

/-- Record a tag. -/
def addTag (tag : Tag) : Store → FileTree → Outcome Unit :=
  commit fun r => ((), r.insert tag)

/-- Record tags, writing once. -/
def addTags (tags : List Tag) : Store → FileTree → Outcome Unit :=
  commit fun r => ((), r.insertAll tags)

/-- Forget the tags of a file, and say how many there were.  For an unknown file nothing is
written. -/
def removeFileTags (file : String) (s : Store) (t : FileTree) : Outcome Nat :=
  let file := normalizePath file
  if s.records.byFile.contains file then commit (·.removeFile file) s t
  else ⟨.ok 0, s, t⟩

/-- Put tags in the place of the tags of a file, writing once. -/
def replaceFileTags (file : String) (tags : List Tag) : Store → FileTree → Outcome Unit :=
  commit fun r => ((), r.replaceFile (normalizePath file) tags)

/-- Forget all tags. -/
def clear : Store → FileTree → Outcome Unit := commit fun _ => ((), {})

/-! ## Questions -/

/-- All tags, by file, line, spec, category and verb. -/
def tags (s : Store) : List Tag := s.records.tags

/-- The tags whose spec has no document. -/
def orphanedTags (s : Store) (c : Catalog) (t : FileTree) : List Tag :=
  let missing := s.records.specIds.filter fun id => !c.contains t id
  s.tags.filter fun tag => missing.contains tag.specId.text

def links (s : Store) : List Link := s.tags.map Link.ofTag

/-! ## Lemmas -/

/-- A change that could not be written leaves the recorded tags. -/
theorem commit_error {α : Type} (change : Records → α × Records) (s : Store) (t : FileTree)
    {e : StoreError} (h : (commit change s t).result = .error e) :
    (commit change s t).store.records = .ofTags s.records.tags := by
  unfold commit at h ⊢
  split at h
  · cases h
  · rfl

end Store

end SpecLinkage
