import SpecLinkage.Chain.Matrix
import SpecLinkage.Chain.Coverage
import SpecLinkage.Number.Decimal

/-! # Traceability reports

Everything that a report shows, computed once from a list of links; the formats only read
it. -/

namespace SpecLinkage

/-- The content of a traceability report. -/
structure Report where
  title : String
  totalTags : Nat
  matrix : ChainMatrix
  missing : List MissingLink
  coverage : Coverage
  summary : Summary

/-- Something for each of the five sections of a report. -/
structure Sections (α : Type) where
  title : α
  summary : α
  matrix : α
  missing : α
  coverage : α

/-- The sections with `f` applied to each. -/
def Sections.map {α β : Type} (f : α → β) (s : Sections α) : Sections β :=
  ⟨f s.title, f s.summary, f s.matrix, f s.missing, f s.coverage⟩

namespace Report

def ofLinks (links : List Link) (title : String) : Report :=
  let matrix := ChainMatrix.ofLinks links
  { title
    totalTags := links.length
    matrix
    missing := matrix.missingLinks
    coverage := .ofLinks links
    summary := .ofLinks links }

/-- Whether the report is about no links. -/
def isEmpty (r : Report) : Bool := r.totalTags == 0

/-- The identifiers of the four stages, in order. -/
def stages (r : Report) : List (Category × List String) :=
  Category.primaryChain.map fun c => (c, r.matrix.stage c)

/-- What is shown instead of the sections of an empty report. -/
def emptyMessage : String := "No tags found"

/-- The title of a report that is not given one. -/
def defaultTitle : String := "Traceability Report"

end Report

/-- How good a share is. -/
inductive Grade
  /-- At least 80 percent. -/
  | good
  /-- At least 50 percent. -/
  | warn
  /-- Less. -/
  | bad
  deriving DecidableEq, Repr

/-- The grade of a percentage. -/
def Grade.of (x : Binary64) : Grade :=
  if x.atLeast 80 then .good else if x.atLeast 50 then .warn else .bad

/-- A percentage as shown: one place and a percent sign. -/
def percentText (x : Binary64) : String := x.fixedOne ++ "%"

/-- Pad a text with blanks behind it up to a width. -/
def padRight (width : Nat) (s : String) : String :=
  s ++ String.ofList (List.replicate (width - s.length) ' ')

/-- Pad a text with blanks before it up to a width. -/
def padLeft (width : Nat) (s : String) : String :=
  String.ofList (List.replicate (width - s.length) ' ') ++ s

end SpecLinkage
