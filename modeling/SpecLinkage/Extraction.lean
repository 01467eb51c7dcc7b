import SpecLinkage.TagSet
import SpecLinkage.Markdown.Strip
import SpecLinkage.Disk.FileTree

/-! # Extraction from documents and files

In a markdown document, annotations in fenced code are examples and do not count.

* `TagSet.ofDocument` extracts from one proposed document.
* `Extraction.ofFiles` extracts from files on disk; a file that cannot be read either ends
  the extraction or is noted and skipped. -/

namespace SpecLinkage

namespace TagSet

/-- Tags and errors of a document; the fenced code of a markdown document is left out. -/
def ofDocument (path content : String) : TagSet :=
  ofContent path (if isMarkdownPath path then Markdown.stripFenced content else content)

end TagSet

/-- A file that cannot be read. -/
structure UnreadableFile where
  path : String
  cause : AccessError
  deriving DecidableEq, Repr

namespace UnreadableFile

/-- The error of an extraction that ends at the file. -/
def failure (f : UnreadableFile) : String := "Failed to read " ++ f.path

/-- The start of the warning about a file that is skipped. -/
def warningHeading (f : UnreadableFile) : String := "Skipping " ++ f.path

/-- The warning about a file that is skipped. -/
def warning (f : UnreadableFile) : String := f.warningHeading ++ ": " ++ f.cause.message

end UnreadableFile

/-- What was extracted from several files. -/
structure Extraction where
  found : TagSet := {}
  skipped : List UnreadableFile := []
  deriving DecidableEq

namespace Extraction

/-- Tags and errors of a file; the fenced code of a file with the extension `md` is left
out. -/
def ofFileText (path content : String) : TagSet :=
  TagSet.ofContent path
    (if DiskPath.extension? path = some "md" then Markdown.stripFenced content else content)

def addFile (t : FileTree) (skipUnreadable : Bool) (x : Extraction) (path : String) :
    Except UnreadableFile Extraction :=
  match t.readText path with
  | .ok content => .ok { x with found := x.found ++ ofFileText path content }
  | .error e =>
    if skipUnreadable then .ok { x with skipped := x.skipped ++ [⟨path, e⟩] }
    else .error ⟨path, e⟩

/-- What the files at the given paths give, in order. -/
def ofFiles (t : FileTree) (skipUnreadable : Bool) (paths : List String) :
    Except UnreadableFile Extraction :=
  paths.foldlM (addFile t skipUnreadable) {}

end Extraction

end SpecLinkage
