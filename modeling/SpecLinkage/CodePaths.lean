import SpecLinkage.Glob.Parser
import SpecLinkage.Glob.Match
import SpecLinkage.Language

/-! # Which paths are code

A path is code when it matches an include glob and no exclude glob.  The detection mode
says where the include globs come from: the languages, the directories of the project, or
both.  Tests, generated files and vendored code are excluded in every mode. -/

namespace SpecLinkage

open Text

/-- Where the include globs come from. -/
inductive DetectionMode
  | auto
  | manual
  | hybrid
  deriving DecidableEq, Repr

namespace DetectionMode

def name : DetectionMode → String
  | auto => "auto"
  | manual => "manual"
  | hybrid => "hybrid"

/-- The mode called `s`, in any case. -/
def ofName? (s : String) : Option DetectionMode :=
  [auto, manual, hybrid].find? fun m => m.name == lower s

end DetectionMode

def globalExcludes : List String :=
  ["**/tests/**", "**/test/**", "**/__tests__/**", "**/spec/**",
    "**/*_test.*", "**/*_tests.*", "**/test_*.*", "**/*.test.*", "**/*.spec.*",
    "**/node_modules/**", "**/target/**", "**/vendor/**", "**/dist/**", "**/build/**",
    "**/.git/**", "**/.tagtrace/**"]

/-- A glob that cannot be read. -/
structure GlobError where
  pattern : String
  deriving DecidableEq, Repr

/-- The message of a glob that cannot be read. -/
def GlobError.message (e : GlobError) : String := "Invalid glob pattern '" ++ e.pattern ++ "'"

/-- Whether a character makes a directory entry a glob. -/
def isGlobChar (c : Char) : Bool := c == '*' || c == '?' || c == '[' || c == '\x7b'

/-- The glob of a directory entry: a plain directory stands for everything below it. -/
def directoryGlob (entry : String) : String :=
  let entry := trimSlashes (normalizePath entry)
  if entry.toList.any isGlobChar then entry else entry ++ "/**"

/-- Read globs; the first that cannot be read is the error. -/
def readGlobs : List String → Except GlobError (List (List Glob.Token))
  | [] => .ok []
  | p :: ps =>
    match Glob.parse? p with
    | none => .error ⟨p⟩
    | some g =>
      match readGlobs ps with
      | .error e => .error e
      | .ok gs => .ok (g :: gs)

/-- What decides whether a path is code. -/
structure CodePaths where
  mode : DetectionMode
  includes : List (List Glob.Token)
  excludes : List (List Glob.Token)

namespace CodePaths

def includeGlobs (mode : DetectionMode) (languages : List Language) (directories : List String) :
    List String :=
  (if mode = .manual then [] else languages.flatMap Language.globs) ++
    if mode = .auto then [] else directories.map directoryGlob

/-- The decision for a mode, languages, directories and further excludes. -/
def make (mode : DetectionMode) (languages : List Language) (directories : List String)
    (excludes : List String) : Except GlobError CodePaths :=
  match readGlobs (includeGlobs mode languages directories) with
  | .error e => .error e
  | .ok includes =>
    match readGlobs (globalExcludes ++ excludes) with
    | .error e => .error e
    | .ok excludes => .ok { mode, includes, excludes }

def isCode (m : CodePaths) (path : String) : Bool :=
  let path := normalizePath path
  m.includes.any (Glob.isMatch · path) && !m.excludes.any (Glob.isMatch · path)

end CodePaths

end SpecLinkage
