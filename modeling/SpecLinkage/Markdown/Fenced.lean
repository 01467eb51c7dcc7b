import SpecLinkage.Markdown.Opening
import SpecLinkage.Text.Utf8

/-! # Fenced code blocks of a markdown document

The byte ranges of the fenced code blocks of a document, in order.  A range starts at the
opening fence, behind indentation and container markers.  It ends behind the closing
fence; a block that is not closed ends where its container or the document does.

## Algorithm

The document is read line by line.  A `BlockState` holds the open containers (quotes and
list items, outermost first) and the open leaf.

* `matchContainers` finds how many containers a line continues.
* Inside a fence or an HTML block (`continueLeaf`) a line that continues all containers
  belongs to the leaf; otherwise the leaf is closed and the line starts a new block.
* A paragraph goes on over lines that open nothing, even outside its containers.
* `startBlock` opens the containers that a line asks for, and then its leaf. -/

namespace SpecLinkage.Markdown

open Text

/-- A block that holds other blocks. -/
inductive Container
  | quote
  /-- A list item whose content is indented by a number of columns. -/
  | item (indent : Nat)

/-- The open block that holds text. -/
inductive Leaf
  | none
  | paragraph
  /-- A fenced code block: the mark and length of its fence, the indentation of the fence
  and the byte where it starts. -/
  | fence (mark : Char) (length indent start : Nat)
  /-- An HTML block that ends with the line that holds a text. -/
  | htmlUntil (closer : List Char)
  /-- An HTML block that ends at a blank line. -/
  | html

/-- What is open between two lines. -/
structure BlockState where
  containers : List Container := []
  leaf : Leaf := .none
  /-- Whether the last line opened a list item and nothing in it. -/
  emptyItem : Bool := false

/-- What one line does. -/
structure LineResult where
  state : BlockState
  /-- Characters that belong to the line, its end included. -/
  consumed : Nat
  /-- The range of a fenced block that the line completes. -/
  range : Option (Nat × Nat) := none

/-! ## Containers -/

/-- The place behind the markers of the containers that a line continues, and their
number. -/
def matchContainers (c : Cursor) : List Container → Nat × Cursor
  | [] => (0, c)
  | .quote :: cs =>
    match quoteMarker? c with
    | some c' => let (n, c'') := matchContainers c' cs; (n + 1, c'')
    | none => (0, c)
  | .item indent :: cs =>
    let (missing, c') := c.skip indent
    if missing = 0 ∨ atLineEnd c'.rest = true then
      let (n, c'') := matchContainers c' cs; (n + 1, c'')
    else (0, c)

/-- Open the containers that stand at the cursor; `fuel` bounds their number.  The flag
says whether the last of them is a list item with nothing behind its marker. -/
def openContainers : (fuel : Nat) → Cursor → List Container → Cursor × List Container × Bool
  | 0, c, cs => (c, cs, false)
  | fuel + 1, c, cs =>
    match listMarker? c with
    | some (indent, c') =>
      if blankToEnd c'.rest then (c', cs ++ [.item indent], true)
      else openContainers fuel c' (cs ++ [.item indent])
    | none =>
      if (c.skipUpTo 4).1 = 4 then (c, cs, false)
      else match quoteMarker? c with
        | some c' => openContainers fuel c' (cs ++ [.quote])
        | none => (c, cs, false)

/-! ## Lengths of lines -/

/-- Characters up to and including the next newline. -/
def lineLength (s : List Char) : Nat :=
  let n := (s.takeWhile (· != '\n')).length
  if n < s.length then n + 1 else n

/-- Characters up to and including the next line end: newline, carriage return or both. -/
def rowLength (s : List Char) : Nat :=
  let n := (lineText s).length
  match s.drop n with
  | '\r' :: '\n' :: _ => n + 2
  | _ :: _ => n + 1
  | [] => n

/-- The byte of a cursor in a document, when `s` starts at byte `offset`. -/
def byteAt (offset : Nat) (s : List Char) (c : Cursor) : Nat :=
  offset + utf8Length (s.take (s.length - c.rest.length))

/-! ## Lines -/

/-- A list item that opened with nothing and goes on with a blank line is closed. -/
def closeEmptyItem (emptyItem : Bool) (cs : List Container) : List Container :=
  match emptyItem, cs.getLast? with
  | true, some (.item _) => cs.dropLast
  | _, _ => cs

/-- Open the leaf at a cursor in the line `s`, which starts at byte `offset`. -/
def startLeaf (offset : Nat) (s : List Char) (cs : List Container) (c : Cursor) : LineResult :=
  let (indent, c) := c.skipUpTo 4
  let row (leaf : Leaf) : LineResult := ⟨{ containers := cs, leaf }, rowLength s, none⟩
  let line (leaf : Leaf) : LineResult := ⟨{ containers := cs, leaf }, lineLength s, none⟩
  if indent = 4 then line .none
  else
    let htmlLeaf : Option Leaf :=
      match c.rest with
      | '<' :: t =>
        match htmlCloser? t with
        | some closer =>
          some (if occursIn closer (c.rest.take (lineLength c.rest)) then .none
            else .htmlUntil closer)
        | none => if opensHtmlElement t || opensHtmlTag t then some .html else none
      | _ => none
    match htmlLeaf with
    | some leaf => line leaf
    | none =>
      if isThematicBreak c.rest || isHeading c.rest then row .none
      else match openingFence? c.rest with
        | some (mark, length) => line (.fence mark length indent (byteAt offset s c))
        | none => row .paragraph

/-- Read a line with no open leaf. -/
def startBlock (offset : Nat) (s : List Char) (st : BlockState) : LineResult :=
  let (n, c) := matchContainers ⟨s, 0, 0⟩ st.containers
  let (c, cs, emptyItem) := openContainers s.length c (st.containers.take n)
  if emptyItem then ⟨{ containers := cs, emptyItem := true }, rowLength s, none⟩
  else if blankToEnd c.rest then
    let skipped := rowLength (c.rest.dropWhile isLineBlank) + (c.rest.takeWhile isLineBlank).length
    ⟨{ containers := closeEmptyItem st.emptyItem cs }, s.length - c.rest.length + skipped, none⟩
  else startLeaf offset s cs c

/-- Read a line with an open leaf. -/
def continueLeaf (offset : Nat) (s : List Char) (st : BlockState) : LineResult :=
  let (n, c) := matchContainers ⟨s, 0, 0⟩ st.containers
  let inside := n = st.containers.length
  match st.leaf with
  | .none => startBlock offset s st
  | .fence mark length indent start =>
    if inside then
      let (_, c) := c.skip indent
      let (missing, c') := c.skip (4 - indent)
      match if missing = 0 then none else closingFence? mark length c'.rest with
      | some k =>
        let c'' := c'.advance k
        ⟨{ st with leaf := .none }, s.length - c''.rest.length + rowLength c''.rest,
          some (start, byteAt offset s c'')⟩
      | none => ⟨st, lineLength s, none⟩
    else { startBlock offset s { st with leaf := .none } with range := some (start, offset) }
  | .htmlUntil closer =>
    if inside then
      if occursIn closer (c.rest.take (lineLength c.rest)) then
        ⟨{ st with leaf := .none }, lineLength s, none⟩
      else ⟨st, lineLength s, none⟩
    else startBlock offset s { st with leaf := .none }
  | .html =>
    if inside ∧ blankToEnd c.rest = false then ⟨st, lineLength s, none⟩
    else startBlock offset s { st with leaf := .none }
  | .paragraph =>
    let (missing, c') := c.skip 4
    if missing ≠ 0 ∧ inside ∧ isUnderline c'.rest = true then
      ⟨{ st with leaf := .none }, rowLength s, none⟩
    else if missing ≠ 0 ∧ interruptsParagraph inside c'.rest = true then
      startBlock offset s { st with leaf := .none }
    else if atLineEnd c'.skipAll.rest then startBlock offset s { st with leaf := .none }
    else ⟨st, rowLength s, none⟩

/-! ## The document -/

/-- The ranges of the fenced blocks in the rest of a document, which starts at byte
`offset`; `fuel` bounds the number of lines. -/
def fencedFrom : (fuel : Nat) → (offset : Nat) → BlockState → List Char → List (Nat × Nat)
  | 0, _, _, _ => []
  | _, offset, st, [] =>
    match st.leaf with
    | .fence _ _ _ start => [(start, offset)]
    | _ => []
  | fuel + 1, offset, st, s =>
    let r := continueLeaf offset s st
    let n := max r.consumed 1
    r.range.toList ++ fencedFrom fuel (offset + utf8Length (s.take n)) r.state (s.drop n)

/-- The byte ranges of the fenced code blocks of a document, in order. -/
def fencedRanges (s : List Char) : List (Nat × Nat) := fencedFrom (s.length + 1) 0 {} s

end SpecLinkage.Markdown
