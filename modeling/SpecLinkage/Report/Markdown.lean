import SpecLinkage.Report.Basic
import SpecLinkage.Report.Template

/-! # Reports as markdown

The sections of a report as markdown tables and lists. -/

namespace SpecLinkage.Report

open Template

/-- Code in a line of markdown. -/
def inlineCode (s : String) : String := "\x60" ++ s ++ "\x60"

/-- Counts by group, as a table. -/
def markdownSummary (r : Report) : String :=
  s!"**Tags:** {r.totalTags} across {r.summary.totalChains} chains\n\n" ++
    "| Group | Tags | Completion |\n| --- | ---: | ---: |" ++
    String.join (r.summary.groups.map fun (group, stats) =>
      s!"\n| {group.text} | {stats.total} | {percentText stats.completionRate} |")

/-- Identifiers by stage, as a table. -/
def markdownMatrix (r : Report) : String :=
  "| Stage | IDs |\n| --- | --- |" ++
    String.join (r.stages.map fun (c, ids) =>
      let shown := if ids.isEmpty then "-" else ", ".intercalate (ids.map inlineCode)
      s!"\n| {c.text} | {shown} |")

/-- The gaps, as a list. -/
def markdownMissing (r : Report) : String :=
  if r.missing.isEmpty then "_No missing links_"
  else "\n".intercalate (r.missing.map fun m =>
    "- " ++ inlineCode m.chainKey ++ ": **" ++ m.category.text ++ "** missing between " ++
      inlineCode m.before ++ " and " ++ inlineCode m.after)

/-- Coverage by stage, as a table, and the incomplete chains. -/
def markdownCoverage (r : Report) : String :=
  let stats := r.coverage
  s!"**Coverage:** {percentText stats.percentage} " ++
    s!"({stats.completeChains}/{stats.totalChains} chains complete)\n\n" ++
    "| Stage | Present | Coverage |\n| --- | ---: | ---: |" ++
    String.join (stats.stages.map fun (c, s) =>
      s!"\n| {c.text} | {s.present}/{s.total} | {percentText s.percentage} |") ++
    if stats.incompleteChains.isEmpty then ""
    else "\n\nIncomplete chains: " ++ ", ".intercalate (stats.incompleteChains.map inlineCode)

def markdownSections (r : Report) : Sections String :=
  if r.isEmpty then ⟨r.title, "_" ++ emptyMessage ++ "_", "", "", ""⟩
  else ⟨r.title, markdownSummary r, markdownMatrix r, markdownMissing r, markdownCoverage r⟩

def markdownTemplate (empty : Bool) : String :=
  "# " ++ slot "title" ++ "\n\n" ++ slot "summary" ++
    if empty then "\n"
    else "\n\n## Chain Matrix\n\n" ++ slot "matrix" ++
      "\n\n## Missing Links\n\n" ++ slot "missing" ++
      "\n\n## Coverage\n\n" ++ slot "coverage" ++ "\n"

end SpecLinkage.Report
