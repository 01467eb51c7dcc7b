import SpecLinkage.Yaml.Value

/-! # Reading positions in a YAML document

What is left of a document, with the column of its first character.  In block style the
column decides where a collection ends.

* `Cursor.atContent?` goes to the next line with content, past comments and blank lines.
* `documentChars` cuts the first document out of a text. -/

namespace SpecLinkage.Yaml

/-- Whether a character separates words on a line. -/
def isSpace (c : Char) : Bool := c == ' ' || c == '\t'

/-- Whether a character ends a word. -/
def isGap (c : Char) : Bool := isSpace c || c == '\n'

/-- Whether what follows starts with a blank, a line end, or nothing. -/
def gapFollows : List Char → Bool
  | [] => true
  | c :: _ => isGap c

/-- The text behind the current line. -/
def afterLine (s : List Char) : List Char := (s.dropWhile (· != '\n')).drop 1

theorem length_afterLine_lt {c : Char} {s : List Char} : (afterLine (c :: s)).length < (c :: s).length := by
  unfold afterLine
  rw [List.length_drop]
  have : ((c :: s).dropWhile (· != '\n')).length ≤ (c :: s).length :=
    (List.dropWhile_sublist _).length_le
  simp only [List.length_cons] at this ⊢
  omega

/-- What is left of a document. -/
structure Cursor where
  rest : List Char
  column : Nat
  /-- Whether a collection in block style may start here. -/
  fresh : Bool

namespace Cursor

/-- Go on by characters of the same line. -/
def skip (c : Cursor) (n : Nat) : Cursor :=
  { c with rest := c.rest.drop n, column := c.column + n }

/-- Go to the next character that is no blank. -/
def skipSpaces (c : Cursor) : Cursor := c.skip (c.rest.takeWhile isSpace).length

/-- Whether the content of the line ends here; a comment has to stand apart. -/
def lineEnds (c : Cursor) : Bool :=
  match c.skipSpaces.rest with
  | [] => true
  | '\n' :: _ => true
  | '#' :: _ => c.column == 0 || c.rest.head?.any isSpace
  | _ => false

/-- How a line starts. -/
inductive LineStart
  | blank
  | content (column : Nat) (rest : List Char)
  /-- With content behind a tab, which cannot indent it. -/
  | tabbed

def lineStart (s : List Char) : LineStart :=
  let indent := s.takeWhile isSpace
  match s.dropWhile isSpace with
  | [] => .blank
  | '\n' :: _ => .blank
  | '#' :: _ => .blank
  | rest => if indent.contains '\t' then .tabbed else .content indent.length rest

/-- The first content at or behind the start of a line. -/
def contentFrom? : List Char → Option Cursor
  | [] => some ⟨[], 0, true⟩
  | c :: s =>
    match lineStart (c :: s) with
    | .blank => contentFrom? (afterLine (c :: s))
    | .content column rest => some ⟨rest, column, true⟩
    | .tabbed => none
termination_by s => s.length
decreasing_by exact length_afterLine_lt

/-- The next content, if the content of this line ends here. -/
def atContent? (c : Cursor) : Option Cursor :=
  if c.lineEnds then contentFrom? (afterLine c.rest) else none

end Cursor

/-! ## Documents -/

/-- Whether a line is a marker of three given characters. -/
def isMarker (m : List Char) (line : List Char) : Bool :=
  match Text.stripPrefix? m line with
  | some r => gapFollows r
  | none => false

/-- Whether a line starts a document. -/
def isStart : List Char → Bool := isMarker ['-', '-', '-']

/-- Whether a line ends a document. -/
def isStop : List Char → Bool := isMarker ['.', '.', '.']

/-- Whether a line may stand before the start of a document: a directive, a comment or a
blank line. -/
def isPrologue (line : List Char) : Bool :=
  match line.dropWhile isSpace with
  | [] => true
  | '#' :: _ => true
  | _ => line.head? == some '%'

/-- Line ends written in one way. -/
def plainLineEnds : List Char → List Char
  | '\r' :: '\n' :: s => '\n' :: plainLineEnds s
  | '\r' :: s => '\n' :: plainLineEnds s
  | c :: s => c :: plainLineEnds s
  | [] => []

/-- The text of the first document. -/
def documentChars (s : String) : List Char :=
  let text := plainLineEnds (Text.dropPrefix ['\uFEFF'] s.toList)
  let lines := (Text.splitAll '\n' text).dropWhile isPrologue
  let body (ls : List (List Char)) : List (List Char) :=
    ls.takeWhile fun l => !isStart l && !isStop l
  let lines := match lines with
    | l :: ls => if isStart l then (' ' :: ' ' :: ' ' :: l.drop 3) :: body ls else body (l :: ls)
    | [] => []
  ['\n'].intercalate lines

end SpecLinkage.Yaml
