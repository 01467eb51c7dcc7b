import SpecLinkage.FormatError
import SpecLinkage.Json.Writer

/-! # Violations and reports

A format error says that an annotation is malformed; a violation says that well-formed
annotations break a rule of the project.  A report holds both for one file.

* `Violation.new`, `Violation.withSpec`, `Violation.atLine`, `Violation.withFix`: how a violation is
  made.
* `PolicyReport.isBlocking`: only critical violations block, and only in strict mode. -/

namespace SpecLinkage

/-- The rules of a project. -/
inductive Rule
  /-- A code file has a valid tag. -/
  | speclessCode
  /-- The spec of a tag has a document. -/
  | noSpecReference
  /-- A link is stated once in a file. -/
  | duplicateTags
  /-- What is implemented is tested. -/
  | chainBreak
  /-- Code lies in the directories of its domain. -/
  | directoryScope
  deriving DecidableEq, Repr

namespace Rule

def all : List Rule := [speclessCode, noSpecReference, duplicateTags, chainBreak, directoryScope]

def name : Rule → String
  | speclessCode => "specless_code"
  | noSpecReference => "no_spec_reference"
  | duplicateTags => "duplicate_tags"
  | chainBreak => "chain_break"
  | directoryScope => "directory_scope"

def ofName? (s : String) : Option Rule := all.find? fun r => r.name == s

end Rule

/-- What is done about a violation. -/
inductive Action
  /-- The operation is refused. -/
  | block
  /-- The operation goes on. -/
  | warn
  deriving DecidableEq, Repr

def Action.name : Action → String
  | block => "block"
  | warn => "warn"

/-- How severe a violation is. -/
inductive Severity
  /-- Refused in strict mode. -/
  | critical
  /-- To be mended soon. -/
  | high
  /-- To be mended. -/
  | medium
  /-- A remark. -/
  | low
  deriving DecidableEq, Repr

namespace Severity

/-- All degrees, the most severe first. -/
def all : List Severity := [critical, high, medium, low]

/-- The name of a degree. -/
def name : Severity → String
  | critical => "critical"
  | high => "high"
  | medium => "medium"
  | low => "low"

/-- The degree of a name. -/
def ofName? (s : String) : Option Severity := all.find? fun l => l.name == s

/-- Only what is critical blocks. -/
def action : Severity → Action
  | critical => .block
  | _ => .warn

end Severity

/-- A broken rule at its place. -/
structure Violation where
  /-- How severe it is. -/
  severity : Severity
  /-- The broken rule. -/
  rule : Rule
  /-- What is wrong. -/
  message : String
  /-- The file. -/
  filePath : String
  /-- What is done about it. -/
  action : Action
  /-- What to do about it. -/
  guidance : String
  /-- Whether the repair needs no thought. -/
  autoFixPossible : Bool
  /-- The spec that it is about. -/
  specId : Option String := none
  /-- The line. -/
  line : Option Nat := none
  /-- The repair that is suggested. -/
  fix : Option String := none
  deriving DecidableEq, Repr

namespace Violation

/-- A rule that a whole file breaks.  What is done about it depends on the severity alone. -/
def new (rule : Rule) (severity : Severity) (filePath message guidance : String) : Violation where
  severity := severity
  rule := rule
  message := message
  filePath := filePath
  action := severity.action
  guidance := guidance
  autoFixPossible := false

def withSpec (v : Violation) (id : String) : Violation := { v with specId := some id }

def atLine (v : Violation) (n : Nat) : Violation := { v with line := some n }

/-- The violation with a repair that needs no thought. -/
def withFix (v : Violation) (fix : String) : Violation :=
  { v with fix := some fix, autoFixPossible := true }

/-- The violation on one line. -/
def display (v : Violation) : String :=
  let place := match v.line with
    | some n => v.filePath ++ ":" ++ toString n
    | none => v.filePath
  "[" ++ v.severity.name ++ "] " ++ place ++ ": " ++ v.message ++ " (" ++ v.rule.name ++ ")"

def toJson (v : Violation) : Json :=
  .object [("level", .string v.severity.name), ("type", .string v.rule.name),
    ("message", .string v.message), ("file_path", .string v.filePath),
    ("action", .string v.action.name), ("guidance", .string v.guidance),
    ("auto_fix_possible", .bool v.autoFixPossible), ("spec_id", .ofOption v.specId),
    ("line", (v.line.map Json.ofNat).getD .null), ("suggested_fix", .ofOption v.fix)]

end Violation

def FormatError.toJson (e : FormatError) : Json :=
  let field := match e.fault with
    | .malformedSpecId => "SpecId"
    | .unknownVerb => "Verb"
  .object [("field", .string field), ("value", .string e.value),
    ("file_path", .string e.filePath), ("line", .ofNat e.line), ("message", .string e.message)]

/-- What was found in one file. -/
structure PolicyReport where
  /-- The file. -/
  filePath : String
  /-- The broken rules. -/
  violations : List Violation
  /-- The malformed annotations. -/
  formatErrors : List FormatError
  /-- Whether critical violations block. -/
  strict : Bool
  deriving DecidableEq, Repr

namespace PolicyReport

/-- Whether nothing was found. -/
def isClean (r : PolicyReport) : Bool := r.violations.isEmpty && r.formatErrors.isEmpty

def count (r : PolicyReport) (s : Severity) : Nat := r.violations.countP fun v => v.severity = s

def ofRule (r : PolicyReport) (rule : Rule) : List Violation :=
  r.violations.filter fun v => v.rule = rule

/-- Whether the operation is refused. -/
def isBlocking (r : PolicyReport) : Bool := r.strict && 0 < r.count .critical

/-- The exit code that tells a caller whether the operation is refused. -/
def exitCode (r : PolicyReport) : Nat := if r.isBlocking then 2 else 0

def toJson (r : PolicyReport) : Json :=
  .object [("file_path", .string r.filePath),
    ("violations", .array (r.violations.map Violation.toJson)),
    ("format_errors", .array (r.formatErrors.map FormatError.toJson)),
    ("strict_mode", .bool r.strict)]

end PolicyReport

end SpecLinkage
