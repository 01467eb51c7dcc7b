import SpecLinkage.Report.Basic
import SpecLinkage.Report.Markup
import SpecLinkage.Report.Template

/-! # Reports as text

The sections of a report for plain text and for terminals.  Both are made of the same
styled pieces. -/

namespace SpecLinkage.Report

open Styled Template

def gradeStyle : Grade → Style
  | .good => .good
  | .warn => .fair
  | .bad => .bad

def percentPiece (x : Binary64) : List Styled := styled (gradeStyle (.of x)) (percentText x)

/-- The number of tags and chains, and a line for each group. -/
def textSummary (r : Report) : List Styled :=
  styled .bold "Tags:" ++ raw s!" {r.totalTags} across {r.summary.totalChains} chains" ++
    r.summary.groups.flatMap fun (group, stats) =>
      raw "\n  " ++ styled .bold (padRight 15 group.text) ++
        raw (" " ++ padLeft 5 (toString stats.total) ++ " tags  ") ++
        percentPiece stats.completionRate ++ raw " complete"

/-- A line with the identifiers of each stage. -/
def textMatrix (r : Report) : List Styled :=
  styled .bold "Chain matrix:" ++
    r.stages.flatMap fun (c, ids) =>
      raw ("\n  " ++ padRight 7 c.text ++ " ") ++
        if ids.isEmpty then styled .dim "-" else raw (", ".intercalate ids)

/-- A line for each gap. -/
def textMissing (r : Report) : List Styled :=
  if r.missing.isEmpty then raw "No missing links"
  else
    styled .alert "Missing links" ++ raw s!" ({r.missing.length}):" ++
      r.missing.flatMap fun m =>
        raw s!"\n  - {m.chainKey}: " ++ styled .bold m.category.text ++
          raw s!" missing between {m.before} and {m.after}"

/-- Coverage of all chains and of each stage, and the incomplete chains. -/
def textCoverage (r : Report) : List Styled :=
  let stats := r.coverage
  styled .bold "Coverage:" ++ raw " " ++ percentPiece stats.percentage ++
    raw s!" ({stats.completeChains}/{stats.totalChains} chains complete)" ++
    (stats.stages.flatMap fun (c, s) =>
      raw ("\n  " ++ padRight 7 c.text ++ " ") ++ percentPiece s.percentage ++
        raw s!" ({s.present}/{s.total})") ++
    if stats.incompleteChains.isEmpty then []
    else raw "\nIncomplete chains: " ++ styled .alert (", ".intercalate stats.incompleteChains)

def textSections (r : Report) : Sections (List Styled) :=
  let title := styled .title r.title
  if r.isEmpty then ⟨title, raw emptyMessage, [], [], []⟩
  else ⟨title, textSummary r, textMatrix r, textMissing r, textCoverage r⟩

/-- The layout of a text report. -/
def textTemplate (empty : Bool) : String :=
  if empty then slot "title" ++ "\n\n" ++ slot "summary" ++ "\n"
  else slot "title" ++ "\n\n" ++ slot "summary" ++ "\n\n" ++ slot "matrix" ++ "\n\n" ++
    slot "missing" ++ "\n\n" ++ slot "coverage" ++ "\n"

end SpecLinkage.Report
