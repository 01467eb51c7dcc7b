import SpecLinkage.Report.Basic
import SpecLinkage.Json.Writer

/-! # Reports as JSON

The report as one JSON document, and its sections as JSON values for templates. -/

namespace SpecLinkage.Report

open Json

/-- Counts by group. -/
def summaryJson (r : Report) : Json :=
  object [
    ("total_tags", ofNat r.summary.totalTags),
    ("total_chains", ofNat r.summary.totalChains),
    ("groups", array (r.summary.groups.map fun (group, stats) =>
      object [
        ("group", string group.text),
        ("total", ofNat stats.total),
        ("completion_rate", ofBinary64 stats.completionRate),
        ("counts", array (stats.counts.map fun (c, n) =>
          object [("category", string c.text), ("count", ofNat n)]))]))]

/-- Identifiers by stage. -/
def matrixJson (r : Report) : Json :=
  array (r.stages.map fun (c, ids) =>
    object [("category", string c.text), ("ids", ofStrings ids)])

/-- The gaps. -/
def missingJson (r : Report) : Json :=
  array (r.missing.map fun m =>
    object [
      ("category", string m.category.text),
      ("chain_key", string m.chainKey),
      ("expected_between", ofStrings [m.before, m.after])])

/-- Coverage by stage. -/
def coverageJson (r : Report) : Json :=
  let stats := r.coverage
  object [
    ("total_chains", ofNat stats.totalChains),
    ("complete_chains", ofNat stats.completeChains),
    ("coverage_percentage", ofBinary64 stats.percentage),
    ("categories", array (stats.stages.map fun (c, s) =>
      object [
        ("category", string c.text),
        ("present", ofNat s.present),
        ("total", ofNat s.total),
        ("percentage", ofBinary64 s.percentage)])),
    ("incomplete_chains", ofStrings stats.incompleteChains)]

/-- The whole report. -/
def toJson (r : Report) : Json :=
  object [
    ("title", string r.title),
    ("total_tags", ofNat r.totalTags),
    ("message", if r.isEmpty then string emptyMessage else null),
    ("summary", summaryJson r),
    ("matrix", matrixJson r),
    ("missing", missingJson r),
    ("coverage", coverageJson r)]

def jsonSections (r : Report) : Sections Json :=
  if r.isEmpty then ⟨string r.title, string emptyMessage, array [], array [], null⟩
  else ⟨string r.title, summaryJson r, matrixJson r, missingJson r, coverageJson r⟩

end SpecLinkage.Report
