import SpecLinkage.Chain.Link

/-! # The chain matrix and its gaps

The matrix lists the identifiers of every stage of the primary chain.  A chain has a gap
where a stage is absent between two stages that are present; `missingLinks` lists all
gaps, by chain key and then by stage. -/

namespace SpecLinkage

/-- Identifiers by category. -/
abbrev ChainMatrix := SortedMap Category (List String)

namespace ChainMatrix

/-- The identifiers of a stage. -/
def stage (m : ChainMatrix) (c : Category) : List String := (m.get? c).getD []

/-- Whether no category has an identifier. -/
def hasNoIds (m : ChainMatrix) : Bool := m.values.all List.isEmpty

/-- The identifiers of one category, each once, in the order of their first links. -/
def idsOf (links : List Link) (c : Category) : List String :=
  ((links.filter fun l => l.category == c).map Link.id).eraseDups

/-- The matrix of a list of links; links outside the primary chain are left out. -/
def ofLinks (links : List Link) : ChainMatrix :=
  SortedMap.ofList (Category.primaryChain.map fun c => (c, idsOf links c))

end ChainMatrix

/-- A stage that is absent between two that are present. -/
structure MissingLink where
  category : Category
  chainKey : String
  /-- The identifier in the nearest earlier stage that is present. -/
  before : String
  /-- The identifier in the nearest later stage that is present. -/
  after : String
  deriving DecidableEq, Repr

namespace ChainMatrix

/-- The first identifier of a stage that belongs to a chain. -/
def idInChain? (m : ChainMatrix) (key : String) (c : Category) : Option String :=
  (m.stage c).find? fun id => chainKey id == key

/-- The gap of a chain at the stage `c`, with the earlier stages, nearest first, and the
later stages. -/
def gap? (m : ChainMatrix) (key : String) (earlier : List Category) (c : Category)
    (later : List Category) : Option MissingLink :=
  match m.idInChain? key c, earlier.findSome? (m.idInChain? key),
      later.findSome? (m.idInChain? key) with
  | none, some before, some after => some ⟨c, key, before, after⟩
  | _, _, _ => none

/-- The gaps of a chain, in the order of the stages. -/
def gaps (m : ChainMatrix) (key : String) : List MissingLink :=
  (m.gap? key [.req] .design [.task, .test]).toList ++
    (m.gap? key [.design, .req] .task [.test]).toList

/-- The keys of all chains with an identifier in some stage, in order. -/
def keys (m : ChainMatrix) : List String :=
  (SortedSet.ofMembers ((Category.primaryChain.flatMap m.stage).map chainKey)).keys

/-- All gaps, by chain key and then by stage. -/
def missingLinks (m : ChainMatrix) : List MissingLink :=
  (ChainMatrix.keys m).flatMap m.gaps

end ChainMatrix

end SpecLinkage
