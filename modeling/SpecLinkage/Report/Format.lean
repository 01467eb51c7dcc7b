import SpecLinkage.Text.Lower

/-! # Report formats

The formats a report can be written in, by name and by file extension. -/

namespace SpecLinkage

/-- A format of reports. -/
inductive ReportFormat
  | text
  | terminal
  | markdown
  | html
  | json
  deriving DecidableEq, Repr

namespace ReportFormat

def all : List ReportFormat := [text, terminal, markdown, html, json]

def name : ReportFormat → String
  | text => "text"
  | terminal => "terminal"
  | markdown => "markdown"
  | html => "html"
  | json => "json"

def shortName? : ReportFormat → Option String
  | text => some "txt"
  | terminal => some "term"
  | markdown => some "md"
  | html => none
  | json => none

/-- The format called `s`, in any case. -/
def ofName? (s : String) : Option ReportFormat :=
  let s := Text.lower s
  all.find? fun f => f.name == s || f.shortName? == some s

def fileExtension : ReportFormat → String
  | text => "txt"
  | terminal => "txt"
  | markdown => "md"
  | html => "html"
  | json => "json"

end ReportFormat

end SpecLinkage
