import SpecLinkage.Tag

/-! # Stored records

A tag as it is kept in a store file: strings only, so that a record with a field that no
longer parses can be read, counted and skipped.

`Entry.tag?_ofTag`: a record made from a tag whose path is normalized gives back that tag. -/

namespace SpecLinkage

/-- A stored record of one tag. -/
structure Entry where
  specId : String
  verb : String
  category : String
  filePath : String
  line : Nat
  description : Option String
  deriving DecidableEq, Repr

namespace Entry

/-- The record of a tag. -/
def ofTag (t : Tag) : Entry where
  specId := t.specId.text
  verb := t.verb.text
  category := t.category.text
  filePath := t.filePath
  line := t.line
  description := t.description

/-- The tag of a record, if all its fields are well formed. -/
def tag? (e : Entry) : Option Tag :=
  match SpecId.ofText? e.specId, Verb.ofText? e.verb, Category.ofText? e.category with
  | some specId, some verb, some category =>
    some (Tag.make specId verb category e.filePath e.line e.description)
  | _, _, _ => none

/-- A record gives back its tag, with the path normalized once more. -/
theorem tag?_ofTag (t : Tag) :
    (ofTag t).tag? = some { t with filePath := normalizePath t.filePath } := by
  simp [tag?, ofTag, SpecId.ofText?_text, Verb.ofText?_text, Category.ofText?_text, Tag.make]

end Entry

end SpecLinkage
