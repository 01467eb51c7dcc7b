import SpecLinkage.SpecId
import SpecLinkage.Disk.FileTree

/-! # Spec documents

A catalog says which specs have a document, and where the document of a spec belongs.

A directory holds the document of a spec as `<id>/spec.md` or as `<id>.md`.  Only
identifiers that are well formed are looked up, so that no identifier can reach outside of
the directory.

* `Catalog.documentPath?_of_malformed`: other identifiers have no document, whatever the
  files are. -/

namespace SpecLinkage

/-- A source of spec documents. -/
inductive Catalog
  /-- Identifiers that are known to have a document. -/
  | listed (ids : SortedSet String)
  | directory (root : String)

namespace Catalog

/-- The places in a directory where the document of a spec may be. -/
def candidatePaths (root id : String) : List String :=
  [DiskPath.join (DiskPath.join root id) "spec.md", DiskPath.join root (id ++ ".md")]

/-- The document of a spec in a directory. -/
def documentPath? (t : FileTree) (root id : String) : Option String :=
  if (SpecId.ofText? id).isSome then (candidatePaths root id).find? t.isFile else none

/-- Whether a spec has a document. -/
def contains (c : Catalog) (t : FileTree) (id : String) : Bool :=
  match c with
  | listed ids => ids.contains id
  | directory root => (documentPath? t root id).isSome

/-- Where the document of a spec belongs. -/
def expectedPath (c : Catalog) (id : String) : String :=
  let root := match c with
    | listed _ => "specs"
    | directory root => root
  DiskPath.join (DiskPath.join root id) "spec.md"

/-- Identifiers that are malformed have no document, whatever the files are. -/
theorem documentPath?_of_malformed (t : FileTree) (root id : String)
    (h : SpecId.ofText? id = none) : documentPath? t root id = none := by
  simp [documentPath?, h]

end Catalog

end SpecLinkage
