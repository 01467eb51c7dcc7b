import SpecLinkage.SpecId
import SpecLinkage.SourcePath

/-! # Tags

A tag is one validated link between a location and a spec.  Two tags state the same link
when they agree on spec, verb and category, wherever they stand. -/

namespace SpecLinkage

/-- A validated link between a line of a file and a spec. -/
structure Tag where
  /-- The spec that the location refers to. -/
  specId : SpecId
  verb : Verb
  category : Category
  /-- The annotated file, with `/` between components. -/
  filePath : String
  /-- The line, counted from 1. -/
  line : Nat
  description : Option String
  deriving DecidableEq

namespace Tag

/-- A tag at a location; the path is normalized. -/
def make (specId : SpecId) (verb : Verb) (category : Category) (path : String) (line : Nat)
    (description : Option String) : Tag :=
  { specId, verb, category, filePath := normalizePath path, line, description }

/-- What a tag states, apart from its place: spec, verb and category. -/
def link (t : Tag) : SpecId × Verb × Category := (t.specId, t.verb, t.category)

/-- Whether two tags state the same link. -/
def sameLink (a b : Tag) : Bool := a.link == b.link

end Tag

end SpecLinkage
