import SpecLinkage.Chain.Link
import SpecLinkage.Number.Binary64

/-! # Coverage and summary of a set of links

`Coverage` tells how many chains are complete, which are not, and how many chains have
each stage.  `Summary` counts the links of each category and gives for each group the mean
share of chains that have its categories. -/

namespace SpecLinkage

/-- How many chains have one stage. -/
structure StageCoverage where
  present : Nat
  total : Nat
  /-- The share of chains with the stage. -/
  percentage : Binary64
  deriving DecidableEq, Repr

/-- Coverage of the primary chain. -/
structure Coverage where
  totalChains : Nat
  /-- The number of chains with all four stages. -/
  completeChains : Nat
  percentage : Binary64
  /-- The coverage of each stage, in order. -/
  stages : List (Category × StageCoverage)
  /-- The keys of the other chains, in order. -/
  incompleteChains : List String
  deriving DecidableEq, Repr

/-- Counts for one group of categories. -/
structure GroupSummary where
  /-- The number of links of each category. -/
  counts : List (Category × Nat)
  /-- The number of links in the group. -/
  total : Nat
  /-- The mean share of chains that have a category of the group. -/
  completionRate : Binary64
  deriving DecidableEq, Repr

/-- Counts for all groups. -/
structure Summary where
  totalTags : Nat
  totalChains : Nat
  groups : List (CategoryGroup × GroupSummary)
  deriving DecidableEq, Repr

/-- Whether a chain has all stages of the primary chain. -/
def isComplete (links : List Link) (key : String) : Bool :=
  Category.primaryChain.all (chainHas links key)

def Coverage.ofLinks (links : List Link) : Coverage :=
  let keys := chainKeys links
  let complete := keys.countP (isComplete links)
  { totalChains := keys.length
    completeChains := complete
    percentage := .percentage complete keys.length
    stages := Category.primaryChain.map fun c =>
      let present := chainsWith links c
      (c, ⟨present, keys.length, .percentage present keys.length⟩)
    incompleteChains := keys.filter fun key => !isComplete links key }

def GroupSummary.ofLinks (links : List Link) (g : CategoryGroup) : GroupSummary :=
  let total := (chainKeys links).length
  let counts := g.categories.map fun c => (c, links.countP fun l => l.category == c)
  { counts
    total := counts.foldr (fun c n => c.2 + n) 0
    completionRate := .mean (g.categories.map fun c => .percentage (chainsWith links c) total) }

def Summary.ofLinks (links : List Link) : Summary where
  totalTags := links.length
  totalChains := (chainKeys links).length
  groups := CategoryGroup.all.map fun g => (g, .ofLinks links g)

end SpecLinkage
