/-! # Reading position inside a line of markdown

Block structure in markdown is decided by indentation, where a tab reaches to the next
column that is a multiple of four.  A `Cursor` stands inside a line and can be asked to
skip a number of columns; a tab that is only partly used leaves `spare` columns behind. -/

namespace SpecLinkage.Markdown

/-- A position inside a line. -/
structure Cursor where
  /-- The text from here to the end of the document. -/
  rest : List Char
  /-- Characters since the start of the line or since the last tab. -/
  column : Nat := 0
  /-- Columns left over from a tab that was used in part. -/
  spare : Nat := 0

/-- Whether a line ends here: at a newline, a carriage return or the end of the text. -/
def atLineEnd : List Char → Bool
  | [] => true
  | c :: _ => c == '\n' || c == '\r'

def isLineBlank (c : Char) : Bool := c == ' ' || c == '\t' || c == '\x0b' || c == '\x0c'

/-- Whether nothing but blanks follows up to the end of the line. -/
def blankToEnd (s : List Char) : Bool := atLineEnd (s.dropWhile isLineBlank)

/-- The number of equal characters `c` at the start. -/
def runLength (c : Char) (s : List Char) : Nat := (s.takeWhile (· == c)).length

namespace Cursor

/-- Step over `n` characters. -/
def advance (c : Cursor) (n : Nat) : Cursor := ⟨c.rest.drop n, c.column + n, c.spare⟩

/-- Skip up to `n` columns from the text `s`; the number of columns not found comes first. -/
def skipFrom (n column : Nat) : List Char → Nat × Cursor
  | [] => (n, ⟨[], column, 0⟩)
  | c :: s =>
    if n = 0 then (0, ⟨c :: s, column, 0⟩)
    else if c = ' ' then skipFrom (n - 1) (column + 1) s
    else if c = '\t' then
      let width := 4 - column % 4
      if n ≤ width then (0, ⟨s, 0, width - n⟩) else skipFrom (n - width) 0 s
    else (n, ⟨c :: s, column, 0⟩)

/-- Skip up to `n` columns of indentation; the number of columns not found comes first. -/
def skip (n : Nat) (c : Cursor) : Nat × Cursor :=
  if n ≤ c.spare then (0, { c with spare := c.spare - n })
  else skipFrom (n - c.spare) c.column c.rest

/-- Skip exactly `n` columns, if there are so many. -/
def skipExactly? (n : Nat) (c : Cursor) : Option Cursor :=
  match c.skip n with
  | (0, c') => some c'
  | _ => none

/-- Skip up to `n` columns; the number of columns found comes first. -/
def skipUpTo (n : Nat) (c : Cursor) : Nat × Cursor :=
  let (missing, c') := c.skip n
  (n - missing, c')

/-- Step over all spaces and tabs. -/
def skipAll (c : Cursor) : Cursor :=
  let s := c.rest.dropWhile fun x => x == ' ' || x == '\t'
  ⟨s, c.column + (c.rest.length - s.length), 0⟩

end Cursor

end SpecLinkage.Markdown
