import SpecLinkage.Markdown.Html

/-! # What a line of markdown opens

Recognizers for the starts of blocks, each on the text behind the indentation of a line:
thematic breaks, headings, fences, markers of quotes and of list items. -/

namespace SpecLinkage.Markdown

open Text

/-- The rest of the line: everything before its end. -/
def lineText (s : List Char) : List Char := s.takeWhile fun c => c != '\n' && c != '\r'

/-- Whether the line is a thematic break: three or more of one of `*`, `-`, `_`. -/
def isThematicBreak (s : List Char) : Bool :=
  match s with
  | [] => false
  | c :: _ =>
    (c == '*' || c == '-' || c == '_') &&
      ((lineText s).all fun x => x == c || x == ' ' || x == '\t') &&
      3 ≤ (lineText s).count c

/-- Whether the line is a heading that starts with number signs. -/
def isHeading (s : List Char) : Bool :=
  let n := runLength '#' s
  1 ≤ n && n ≤ 6 && ((s.drop n).head?.all isTagBlank)

/-- Whether the line underlines a paragraph as a heading. -/
def isUnderline (s : List Char) : Bool :=
  match s with
  | [] => false
  | c :: _ => (c == '=' || c == '-') && blankToEnd (s.dropWhile (· == c))

/-- The mark and the length of the fence that a line opens with.  The line of a fence of
backticks has no backtick behind the fence. -/
def openingFence? (s : List Char) : Option (Char × Nat) :=
  match s with
  | [] => none
  | c :: _ =>
    let n := runLength c s
    if (c == '\x60' || c == '~') && 3 ≤ n &&
        (c == '~' || ((s.drop n).takeWhile (· != '\n')).all (· != '\x60'))
    then some (c, n) else none

/-- The length of the closing fence at the start of a line, blanks behind it included. -/
def closingFence? (mark : Char) (length : Nat) (s : List Char) : Option Nat :=
  let n := runLength mark s
  let blanks := runLength ' ' (s.drop n)
  if length ≤ n ∧ atLineEnd (s.drop (n + blanks)) = true then some (n + blanks) else none

/-- Step over the marker of a block quote. -/
def quoteMarker? (c : Cursor) : Option Cursor :=
  let c' := (c.skip 3).2
  if c'.rest.head? = some '>' then some ((c'.advance 1).skip 1).2 else none

/-- Whether a bullet of a list stands here. -/
def isBullet (c : Char) : Bool := c == '-' || c == '+' || c == '*'

/-- The number of characters of a list marker, and its number if it has one. -/
def listMarkerWidth? (s : List Char) : Option (Nat × Option Nat) :=
  match s with
  | [] => none
  | c :: _ =>
    if isBullet c then some (1, none)
    else
      let digits := s.takeWhile Char.isDigit
      let n := digits.length
      match (s.drop n).head? with
      | some d =>
        if 1 ≤ n ∧ n ≤ 9 ∧ (d = '.' ∨ d = ')') then
          some (n + 1, some (digits.foldl (fun v x => v * 10 + (x.toNat - '0'.toNat)) 0))
        else none
      | none => none

/-- Step over the marker of a list item.  The indentation of the item's content comes
first. -/
def listMarker? (c : Cursor) : Option (Nat × Cursor) :=
  let (indent, c₁) := c.skipUpTo 4
  if indent = 4 ∨ isThematicBreak c₁.rest = true then none
  else match listMarkerWidth? c₁.rest with
    | none => none
    | some (width, _) =>
      let c₂ := c₁.advance width
      let c₃ := (c₂.skip 1).2
      if (c₂.skipExactly? 1).isSome || atLineEnd c₃.rest then
        let indent := indent + width + 1
        if blankToEnd c₃.rest then some (indent, c₃)
        else
          let (more, c₄) := c₃.skipUpTo 4
          if more < 4 then some (indent + more, c₄) else some (indent, c₃)
      else none

/-- Whether the list item that starts here may interrupt a paragraph: it starts a list at 1
or with a bullet, and it is not empty. -/
def mayInterrupt (s : List Char) : Bool :=
  match listMarkerWidth? s with
  | none => false
  | some (width, number) =>
    let rest := s.drop width
    (atLineEnd rest || rest.head?.any (fun c => c == ' ' || c == '\t')) &&
      number.getD 1 == 1 && !(blankToEnd rest && blankToEnd (afterLine rest))
where
  /-- The text behind the end of the line. -/
  afterLine (s : List Char) : List Char :=
    match s.dropWhile fun c => c != '\n' && c != '\r' with
    | '\r' :: '\n' :: r => r
    | _ :: r => r
    | [] => []

/-- Whether a list item starts here. -/
def isListItem (s : List Char) : Bool :=
  match listMarkerWidth? s with
  | none => false
  | some (width, _) =>
    atLineEnd (s.drop width) || (s.drop width).head?.any (fun c => c == ' ' || c == '\t')

/-- Whether the line ends a paragraph before it.  `inside` says whether the line lies in
all the containers of the paragraph. -/
def interruptsParagraph (inside : Bool) (s : List Char) : Bool :=
  atLineEnd s || isThematicBreak s || isHeading s || (openingFence? s).isSome
    || s.head? == some '>'
    || (if inside then mayInterrupt s else isListItem s)
    || match s with
      | '<' :: t => (htmlCloser? t).isSome || opensHtmlElement t
      | _ => false

end SpecLinkage.Markdown
