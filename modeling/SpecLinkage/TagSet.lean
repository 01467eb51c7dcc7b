import SpecLinkage.Candidate.Scan
import SpecLinkage.FormatError

/-! # Extraction of tags

The tags of a text and the errors of the candidates that are no tags, each in the order
of the text. -/

namespace SpecLinkage

/-- Valid tags and format errors. -/
structure TagSet where
  tags : List Tag := []
  /-- The errors of the candidates that are no tags. -/
  errors : List FormatError := []
  deriving DecidableEq

namespace TagSet

/-- Tags and errors of a list of candidates. -/
def ofCandidates (cs : List Candidate) : TagSet where
  tags := cs.filterMap Candidate.tag?
  errors := cs.flatMap Candidate.formatErrors

/-- One set after the other. -/
def append (a b : TagSet) : TagSet := ⟨a.tags ++ b.tags, a.errors ++ b.errors⟩

instance : Append TagSet := ⟨append⟩

/-- Tags and errors of a text; the path is normalized first. -/
def ofContent (path content : String) : TagSet :=
  ofCandidates (Candidate.scan (normalizePath path) content)

/-- Tags and errors of several texts in order. -/
def ofContents (files : List (String × String)) : TagSet :=
  files.foldl (fun acc f => acc ++ ofContent f.1 f.2) ⟨[], []⟩

end TagSet

end SpecLinkage
