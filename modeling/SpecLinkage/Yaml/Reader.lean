import SpecLinkage.Yaml.Scalar

/-! # Reading YAML

A reader for documents of lists, fields and scalars, in block style and in brackets, with
comments and quotes.  Anchors and type marks are passed over; references to anchors, keys
that are collections, and keys behind a question mark are refused.

Readers of block style leave the cursor at the next content; readers within brackets leave
the text directly behind the value. -/

namespace SpecLinkage.Yaml

/-! ## Within brackets -/

/-- Go to the next character that is neither blank nor in a comment. -/
def skipGaps : (fuel : Nat) → (apart : Bool) → List Char → List Char
  | 0, _, s => s
  | _, _, [] => []
  | fuel + 1, apart, c :: s =>
    if isGap c then skipGaps fuel true s
    else if c = '#' ∧ apart = true then skipGaps fuel true (s.dropWhile (· != '\n'))
    else c :: s

/-- The text behind anchors and type marks. -/
def skipMarks : (fuel : Nat) → List Char → List Char
  | 0, s => s
  | fuel + 1, s =>
    match s with
    | '&' :: r => skipMarks fuel ((r.dropWhile fun c => !isGap c).dropWhile isSpace)
    | '!' :: r => skipMarks fuel ((r.dropWhile fun c => !isGap c).dropWhile isSpace)
    | _ => s

/-- The text of a scalar, if the value is one. -/
def scalarText? : Yaml → Option String
  | plain s => some s
  | quoted s => some s
  | _ => none

mutual

/-- Read a value within brackets. -/
def readFlow? : (fuel : Nat) → List Char → Option (Yaml × List Char)
  | 0, _ => none
  | fuel + 1, s =>
    match skipMarks (s.length + 1) s with
    | '[' :: r => (readFlowItems? fuel r).map fun (l, t) => (.list l, t)
    | '\x7b' :: r => (readFlowFields? fuel r).map fun (l, t) => (.fields l, t)
    | '"' :: r => (readQuoted? ('"' :: r)).map fun x => (.quoted (String.ofList x.text), x.rest)
    | '\'' :: r => (readQuoted? ('\'' :: r)).map fun x => (.quoted (String.ofList x.text), x.rest)
    | r =>
      if startsPlain true r then
        let x := readPlain true 0 (r.length + 1) r
        some (.plain (String.ofList x.text), x.rest)
      else none

/-- Read the value of a key within brackets, if a colon follows. -/
def readFlowValue? : (fuel : Nat) → List Char → Option (Yaml × List Char)
  | 0, _ => none
  | fuel + 1, s =>
    match s with
    | ':' :: r =>
      match skipGaps (r.length + 1) true r with
      | ',' :: t => some (absent, ',' :: t)
      | '\x7d' :: t => some (absent, '\x7d' :: t)
      | ']' :: t => some (absent, ']' :: t)
      | t => readFlow? fuel t
    | _ => some (absent, s)

/-- Read the items of a list behind its bracket or behind a comma. -/
def readFlowItems? : (fuel : Nat) → List Char → Option (List Yaml × List Char)
  | 0, _ => none
  | fuel + 1, s =>
    match skipGaps (s.length + 1) true s with
    | ']' :: r => some ([], r)
    | r =>
      match readFlow? fuel r with
      | none => none
      | some (v, r) =>
        let r := skipGaps (r.length + 1) false r
        let item : Option (Yaml × List Char) := match r with
          | ':' :: _ =>
            match scalarText? v, readFlowValue? fuel r with
            | some key, some (x, t) => some (.fields [(key, x)], t)
            | _, _ => none
          | _ => some (v, r)
        match item with
        | none => none
        | some (v, r) =>
          match skipGaps (r.length + 1) false r with
          | ',' :: t => (readFlowItems? fuel t).map fun (l, u) => (v :: l, u)
          | ']' :: t => some ([v], t)
          | _ => none

/-- Read fields behind their bracket or behind a comma. -/
def readFlowFields? : (fuel : Nat) → List Char → Option (List (String × Yaml) × List Char)
  | 0, _ => none
  | fuel + 1, s =>
    match skipGaps (s.length + 1) true s with
    | '\x7d' :: r => some ([], r)
    | r =>
      match readFlow? fuel r with
      | none => none
      | some (key, r) =>
        match scalarText? key, readFlowValue? fuel (skipGaps (r.length + 1) false r) with
        | some key, some (v, r) =>
          match skipGaps (r.length + 1) false r with
          | ',' :: t => (readFlowFields? fuel t).map fun (l, u) => ((key, v) :: l, u)
          | '\x7d' :: t => some ([(key, v)], t)
          | _ => none
        | _, _ => none

end

/-! ## Block style -/

/-- The cursor behind something that was read from `c` up to `rest`. -/
def Cursor.upTo (c : Cursor) (rest : List Char) (spansLines : Bool) : Cursor where
  rest := rest
  column := if spansLines then 1 else c.column + (c.rest.length - rest.length)
  fresh := false

def Cursor.atItem (c : Cursor) : Bool :=
  match c.rest with
  | '-' :: s => gapFollows s
  | _ => false

/-- A scalar on one line that is followed by a colon: a key, with the cursor behind the
colon. -/
def readKey? (c : Cursor) : Option (String × Cursor) :=
  let scanned := match c.rest with
    | '"' :: _ => readQuoted? c.rest
    | '\'' :: _ => readQuoted? c.rest
    | s =>
      if startsPlain false s then
        let t := plainLine false s
        some ⟨t, s.drop t.length, false⟩
      else none
  match scanned with
  | none => none
  | some x =>
    if x.spansLines then none
    else
      let c := (c.upTo x.rest false).skipSpaces
      match c.rest with
      | ':' :: s => if gapFollows s then some (String.ofList x.text, c.skip 1) else none
      | _ => none

/-- Read a block of lines behind its first character. -/
def readBlockText? (folded : Bool) (least : Nat) (s : List Char) : Option (Yaml × Cursor) :=
  let (indent, chomping, r) := readHeader none .clip s
  if (Cursor.mk r 1 false).lineEnds then
    let (text, behind) := readBlock folded least indent chomping (Text.splitAll '\n' (afterLine r))
    (Cursor.contentFrom? (['\n'].intercalate behind)).map fun c =>
      (.quoted (String.ofList text), c)
  else none

mutual

/-- Read a value whose further lines stand at least at the column `least`. -/
def readNode? : (fuel least : Nat) → Cursor → Option (Yaml × Cursor)
  | 0, _, _ => none
  | fuel + 1, least, c =>
    if c.atItem then
      if c.fresh then (readItems? fuel c.column c).map fun (l, c) => (.list l, c) else none
    else match if c.fresh then readKey? c else none with
    | some (key, c') =>
      match readFieldValue? fuel c.column c' with
      | none => none
      | some (v, c') => (readFields? fuel c.column c').map fun (l, c) => (.fields ((key, v) :: l), c)
    | none =>
      let behind (v : Yaml) (rest : List Char) (spansLines : Bool) : Option (Yaml × Cursor) :=
        (c.upTo rest spansLines).atContent?.map fun c => (v, c)
      match c.rest with
      | [] => some (absent, c)
      | '|' :: s => readBlockText? false least s
      | '>' :: s => readBlockText? true least s
      | '&' :: _ => readMarked? fuel least c
      | '!' :: _ => readMarked? fuel least c
      | '[' :: _ => (readFlow? (4 * c.rest.length + 4) c.rest).bind fun (v, r) => behind v r true
      | '\x7b' :: _ => (readFlow? (4 * c.rest.length + 4) c.rest).bind fun (v, r) => behind v r true
      | '"' :: _ => (readQuoted? c.rest).bind fun x =>
        behind (.quoted (String.ofList x.text)) x.rest x.spansLines
      | '\'' :: _ => (readQuoted? c.rest).bind fun x =>
        behind (.quoted (String.ofList x.text)) x.rest x.spansLines
      | s =>
        if startsPlain false s then
          let x := readPlain false least (s.length + 1) s
          behind (.plain (String.ofList x.text)) x.rest x.spansLines
        else none

/-- Read a value behind anchors and type marks. -/
def readMarked? : (fuel least : Nat) → Cursor → Option (Yaml × Cursor)
  | 0, _, _ => none
  | fuel + 1, least, c =>
    let c' := { c.upTo (skipMarks (c.rest.length + 1) c.rest) false with fresh := c.fresh }
    if c'.lineEnds then
      match c'.atContent? with
      | none => none
      | some next =>
        if next.rest.isEmpty || next.column < least then some (absent, next)
        else readNode? fuel least next
    else readNode? fuel least c'

/-- Read the value of a key at a column, behind the colon. -/
def readFieldValue? : (fuel column : Nat) → Cursor → Option (Yaml × Cursor)
  | 0, _, _ => none
  | fuel + 1, column, c =>
    if c.lineEnds then
      match c.atContent? with
      | none => none
      | some next =>
        if next.rest.isEmpty || next.column < column then some (absent, next)
        else if next.column = column then
          if next.atItem then (readItems? fuel column next).map fun (l, c) => (.list l, c)
          else some (absent, next)
        else readNode? fuel (column + 1) next
    else readNode? fuel (column + 1) c.skipSpaces

def readFields? : (fuel column : Nat) → Cursor → Option (List (String × Yaml) × Cursor)
  | 0, _, _ => none
  | fuel + 1, column, c =>
    if c.rest.isEmpty || c.column < column then some ([], c)
    else if c.column ≠ column then none
    else match readKey? c with
    | none => none
    | some (key, c) =>
      match readFieldValue? fuel column c with
      | none => none
      | some (v, c) => (readFields? fuel column c).map fun (l, c) => ((key, v) :: l, c)

/-- Read the items at a column; something else at that column is not part of the list. -/
def readItems? : (fuel column : Nat) → Cursor → Option (List Yaml × Cursor)
  | 0, _, _ => none
  | fuel + 1, column, c =>
    if c.rest.isEmpty || c.column < column || (c.column = column && !c.atItem) then some ([], c)
    else if c.column ≠ column then none
    else
      let c := c.skip 1
      let item : Option (Yaml × Cursor) := if c.lineEnds then
          match c.atContent? with
          | none => none
          | some next =>
            if next.rest.isEmpty || next.column ≤ column then some (absent, next)
            else readNode? fuel (column + 1) next
        else readNode? fuel (column + 1) { c.skipSpaces with fresh := true }
      match item with
      | none => none
      | some (v, c) => (readItems? fuel column c).map fun (l, c) => (v :: l, c)

end

/-- The value of the first document in a text; a text without content has an absent
value. -/
def ofText? (s : String) : Option Yaml :=
  let text := documentChars s
  match Cursor.contentFrom? text with
  | none => none
  | some c =>
    if c.rest.isEmpty then some absent
    else match readNode? (4 * text.length + 8) 0 c with
    | some (v, c) => if c.rest.isEmpty then some v else none
    | none => none

end SpecLinkage.Yaml
