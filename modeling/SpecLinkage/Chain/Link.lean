import SpecLinkage.Tag
import SpecLinkage.Order.SortedMap

/-! # Links and their chains

Chain analysis looks at links: a category and an identifier.  Links whose identifiers have
the same chain key belong to one chain. -/

namespace SpecLinkage

/-- A category and the identifier of an artifact. -/
structure Link where
  category : Category
  id : String
  deriving DecidableEq, Repr

namespace Link

def chainKey (l : Link) : String := SpecLinkage.chainKey l.id

def ofTag (t : Tag) : Link := ⟨t.category, t.specId.text⟩

end Link

def chainKeys (links : List Link) : List String :=
  (SortedSet.ofMembers (links.map Link.chainKey)).keys

def chainHas (links : List Link) (key : String) (c : Category) : Bool :=
  links.any fun l => l.category == c && l.chainKey == key

/-- The number of chains that have a link of the category. -/
def chainsWith (links : List Link) (c : Category) : Nat :=
  (chainKeys links).countP fun key => chainHas links key c

end SpecLinkage
