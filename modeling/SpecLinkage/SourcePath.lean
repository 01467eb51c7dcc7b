import SpecLinkage.Text.Affix
import SpecLinkage.Category

/-! # Paths of annotated files

Annotated files are named by project-relative paths with `/` between the components.

* `normalizePath` turns backslashes into slashes and removes one leading `./`.
* `isTestPath` tells test files from other files by their directories and their name;
  `Category.infer` uses it for annotations that do not name a category.
* `isUnder` is containment in a directory, by whole components. -/

namespace SpecLinkage

open Text

/-- A backslash written as a slash. -/
def slashChar (c : Char) : Char := if c = '\\' then '/' else c

/-- The `/`-separated form of a path, without one leading `./`. -/
def normalizePath (path : String) : String :=
  String.ofList (dropPrefix ['.', '/'] (path.toList.map slashChar))

/-- The components of a path: the pieces between its slashes. -/
def pathComponents (path : String) : List (List Char) := splitAll '/' (path.toList.map slashChar)

/-- Names of directories that hold tests. -/
def testDirectories : List String := ["tests", "test", "__tests__", "spec"]

/-- The part of a file name before its first dot. -/
def fileStem (name : List Char) : List Char := name.takeWhile fun c => c != '.'

def isTestFileName (name : List Char) : Bool :=
  let stem := fileStem name
  startsWith "test_".toList stem
    || endsWith "_test".toList stem
    || endsWith "_tests".toList stem
    || endsWith "Test".toList stem
    || endsWith "Tests".toList stem
    || occursIn ".test.".toList name
    || occursIn ".spec.".toList name

/-- Whether a file is a test, judged by its directories and its name. -/
def isTestPath (path : String) : Bool :=
  let parts := pathComponents path
  parts.dropLast.any (fun part => testDirectories.contains (String.ofList part))
    || isTestFileName (parts.getLast?.getD [])

/-- Whether a path names a markdown document. -/
def isMarkdownPath (path : String) : Bool := endsWith ".md".toList path.toList

/-- Whether `path` lies below the directory `dir`. -/
def isUnder (path dir : String) : Bool :=
  match stripPrefix? dir.toList path.toList with
  | some ('/' :: _) => true
  | _ => false

/-- The path without the slashes at its end. -/
def trimSlashes (path : String) : String :=
  String.ofList (dropEndWhile (fun c => c == '/') path.toList)

/-- The category of an annotation that does not name one. -/
def Category.infer (verb : Verb) (path : String) : Category :=
  if verb = .verify || isTestPath path then .test
  else if isMarkdownPath path then .req
  else .code

end SpecLinkage
