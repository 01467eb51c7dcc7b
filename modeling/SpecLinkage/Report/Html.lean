import SpecLinkage.Report.Basic
import SpecLinkage.Report.Markup
import SpecLinkage.Report.Template

/-! # Reports as HTML

The sections of a report as pieces of HTML.  Everything that comes from the links or from
the caller is a text piece, so it is escaped. -/

namespace SpecLinkage.Report

open Template Markup

def gradeClass : Grade → String
  | .good => "good"
  | .warn => "warn"
  | .bad => "bad"

/-- Code in a line. -/
def codeMarkup (s : String) : List Markup := [raw "<code>", text s, raw "</code>"]

/-- Code pieces with commas between them. -/
def codeList : List String → List Markup
  | [] => []
  | [s] => codeMarkup s
  | s :: ss => codeMarkup s ++ raw ", " :: codeList ss

/-- Counts by group, as a table. -/
def htmlSummary (r : Report) : List Markup :=
  raw s!"<p><strong>Tags:</strong> {r.totalTags} across {r.summary.totalChains} chains</p>\n" ::
    raw "<table>\n<tr><th>Group</th><th>Tags</th><th>Completion</th></tr>" ::
    (r.summary.groups.map fun (group, stats) =>
      raw (s!"\n<tr><td>{group.text}</td><td>{stats.total}</td>" ++
        s!"<td class=\"{gradeClass (.of stats.completionRate)}\">" ++
        s!"{percentText stats.completionRate}</td></tr>")) ++
    [raw "\n</table>"]

/-- Identifiers by stage, as a table. -/
def htmlMatrix (r : Report) : List Markup :=
  raw "<table>\n<tr><th>Stage</th><th>IDs</th></tr>" ::
    (r.stages.flatMap fun (c, ids) =>
      raw s!"\n<tr><td>{c.text}</td><td>" ::
        (if ids.isEmpty then [raw "-"] else codeList ids) ++ [raw "</td></tr>"]) ++
    [raw "\n</table>"]

/-- The gaps, as a list. -/
def htmlMissing (r : Report) : List Markup :=
  if r.missing.isEmpty then [raw "<p>No missing links</p>"]
  else
    raw "<ul>" ::
      (r.missing.flatMap fun m =>
        raw "\n<li>" :: codeMarkup m.chainKey ++
          raw s!": <strong>{m.category.text}</strong> missing between " ::
          codeMarkup m.before ++ raw " and " :: codeMarkup m.after ++ [raw "</li>"]) ++
      [raw "\n</ul>"]

/-- Coverage by stage, as a table, and the incomplete chains. -/
def htmlCoverage (r : Report) : List Markup :=
  let stats := r.coverage
  raw (s!"<p><strong>Coverage:</strong> <span class=\"{gradeClass (.of stats.percentage)}\">" ++
      s!"{percentText stats.percentage}</span> " ++
      s!"({stats.completeChains}/{stats.totalChains} chains complete)</p>\n") ::
    raw "<table>\n<tr><th>Stage</th><th>Present</th><th>Coverage</th></tr>" ::
    (stats.stages.map fun (c, s) =>
      raw (s!"\n<tr><td>{c.text}</td><td>{s.present}/{s.total}</td>" ++
        s!"<td class=\"{gradeClass (.of s.percentage)}\">{percentText s.percentage}</td></tr>")) ++
    raw "\n</table>" ::
    if stats.incompleteChains.isEmpty then []
    else raw "\n<p>Incomplete chains: " :: codeList stats.incompleteChains ++ [raw "</p>"]

def htmlSections (r : Report) : Sections (List Markup) :=
  if r.isEmpty then ⟨[text r.title], [raw ("<p>" ++ emptyMessage ++ "</p>")], [], [], []⟩
  else ⟨[text r.title], htmlSummary r, htmlMatrix r, htmlMissing r, htmlCoverage r⟩

def styleRule (selector body : String) : String := selector ++ " \x7b " ++ body ++ " \x7d\n"

def styleSheet : String :=
  "<style>\n" ++
    styleRule "body" ("font-family: system-ui, sans-serif; max-width: 800px; " ++
      "margin: 2rem auto; padding: 0 1rem;") ++
    styleRule ".good" "color: green;" ++
    styleRule ".warn" "color: orange;" ++
    styleRule ".bad" "color: red;" ++
    styleRule "code" "background: #f0f0f0; padding: 0.2em 0.4em; border-radius: 3px;" ++
    styleRule "table" "border-collapse: collapse;" ++
    styleRule "td, th" "padding: 0.2em 0.8em; text-align: left;" ++
    "</style>\n"

def htmlTemplate (empty : Bool) : String :=
  "<!DOCTYPE html>\n<html>\n<head>\n<meta charset=\"utf-8\">\n" ++
    "<title>" ++ slot "title" ++ "</title>\n" ++
    (if empty then "" else styleSheet) ++
    "</head>\n<body>\n<h1>" ++ slot "title" ++ "</h1>\n" ++ slot "summary" ++ "\n" ++
    (if empty then ""
      else "<h2>Chain Matrix</h2>\n" ++ slot "matrix" ++
        "\n<h2>Missing Links</h2>\n" ++ slot "missing" ++
        "\n<h2>Coverage</h2>\n" ++ slot "coverage" ++ "\n") ++
    "</body>\n</html>\n"

end SpecLinkage.Report
