import SpecLinkage.Report.Format
import SpecLinkage.Report.Text
import SpecLinkage.Report.Markdown
import SpecLinkage.Report.Html
import SpecLinkage.Report.Document

/-! # Rendering reports

A report is rendered by putting its sections into a template, the caller's or the one of
the format.  The placeholders are `title`, `summary`, `matrix`, `missing` and `coverage`.
Without a template, JSON is one document. -/

namespace SpecLinkage.Report

def sections (r : Report) : ReportFormat → Sections String
  | .text => (textSections r).map Styled.plain
  | .terminal => (textSections r).map Styled.ansi
  | .markdown => markdownSections r
  | .html => (htmlSections r).map Markup.writeAll
  | .json => (jsonSections r).map Json.compact

def placeholderValues (s : Sections String) : List (String × String) :=
  [("title", s.title), ("summary", s.summary), ("matrix", s.matrix), ("missing", s.missing),
    ("coverage", s.coverage)]

def layout? (format : ReportFormat) (empty : Bool) : Option String :=
  match format with
  | .text => some (textTemplate empty)
  | .terminal => some (textTemplate empty)
  | .markdown => some (markdownTemplate empty)
  | .html => some (htmlTemplate empty)
  | .json => none

/-- Render a report, into a template if one is given. -/
def render (r : Report) (format : ReportFormat) (template : Option String) : String :=
  match template <|> layout? format r.isEmpty with
  | some template => Template.fill (placeholderValues (r.sections format)) template
  | none => Json.pretty r.toJson

end SpecLinkage.Report
