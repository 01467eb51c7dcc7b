import SpecLinkage.Text.Lower
import SpecLinkage.SourcePath

/-! # Programming languages

The languages whose files count as code by default: their names, the extensions of their
files and the marker of their comments.  The marker is used to suggest a TAG line that
fits a file (`suggestedTagLine`). -/

namespace SpecLinkage

open Text

/-- A language with known file extensions and comments. -/
inductive Language
  | rust | python | javaScript | typeScript | go | java | kotlin | swift
  | c | cpp | cSharp | ruby | php | shell | sql
  deriving DecidableEq, Repr

namespace Language

/-- All languages in order. -/
def all : List Language :=
  [rust, python, javaScript, typeScript, go, java, kotlin, swift,
    c, cpp, cSharp, ruby, php, shell, sql]

def name : Language → String
  | rust => "rust"
  | python => "python"
  | javaScript => "javascript"
  | typeScript => "typescript"
  | go => "go"
  | java => "java"
  | kotlin => "kotlin"
  | swift => "swift"
  | c => "c"
  | cpp => "cpp"
  | cSharp => "csharp"
  | ruby => "ruby"
  | php => "php"
  | shell => "shell"
  | sql => "sql"

/-- Other names of the language. -/
def aliases : Language → List String
  | rust => ["rs"]
  | python => ["py"]
  | javaScript => ["js"]
  | typeScript => ["ts"]
  | go => ["golang"]
  | kotlin => ["kt"]
  | cpp => ["c++"]
  | cSharp => ["c#", "cs"]
  | ruby => ["rb"]
  | shell => ["sh", "bash"]
  | java | swift | c | php | sql => []

def extensions : Language → List String
  | rust => ["rs"]
  | python => ["py"]
  | javaScript => ["js", "jsx", "mjs", "cjs"]
  | typeScript => ["ts", "tsx"]
  | go => ["go"]
  | java => ["java"]
  | kotlin => ["kt", "kts"]
  | swift => ["swift"]
  | c => ["c", "h"]
  | cpp => ["cc", "cpp", "cxx", "hpp", "hh"]
  | cSharp => ["cs"]
  | ruby => ["rb"]
  | php => ["php"]
  | shell => ["sh", "bash"]
  | sql => ["sql"]

def commentMarker : Language → String
  | python | ruby | shell => "#"
  | sql => "--"
  | _ => "//"

/-- The language called `s`, in any case. -/
def ofName? (s : String) : Option Language :=
  all.find? fun l => (l.name :: l.aliases).contains (lower s)

/-- The text after the last dot of a path, unless a slash follows that dot. -/
def extension? (path : String) : Option String :=
  match splitLast? '.' path.toList with
  | none => none
  | some (_, e) => if '/' ∈ e then none else some (String.ofList e)

/-- The language of a file, by its extension. -/
def ofPath? (path : String) : Option Language :=
  (extension? path).bind fun e => all.find? fun l => l.extensions.contains e

def globs (l : Language) : List String := l.extensions.map ("**/*." ++ ·)

end Language

/-- What stands before and after a TAG in a comment of a file. -/
structure CommentFrame where
  opener : String
  /-- The closing marker, with a space in front; empty for line comments. -/
  closer : String
  deriving DecidableEq, Repr

/-- The comment frame of a file, by its extension. -/
def CommentFrame.ofPath (path : String) : CommentFrame :=
  let path := lower path
  let ends (extensions : List String) : Bool :=
    extensions.any fun e => endsWith e.toList path.toList
  if ends [".md", ".html", ".xml"] then ⟨"<!--", " -->"⟩
  else if ends [".yaml", ".yml", ".toml"] then ⟨"#", ""⟩
  else ⟨((Language.ofPath? path).map Language.commentMarker).getD "//", ""⟩

/-- A comment line with an `impl` TAG, ready to be put into the file. -/
def suggestedTagLine (path : String) (category : Category) (specId : String) : String :=
  let frame := CommentFrame.ofPath path
  frame.opener ++ " @" ++ category.text ++ ":" ++ specId ++ " impl" ++ frame.closer

end SpecLinkage
