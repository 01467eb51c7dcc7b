import SpecLinkage.Yaml.Cursor
import SpecLinkage.Json.Reader

/-! # YAML scalars

The four ways of writing a text: plain, in single quotes, in double quotes, and as a block
of lines.  Within the first three a line end counts as a space, and further line ends are
kept. -/

namespace SpecLinkage.Yaml

/-! ## Line ends within a scalar -/

/-- The number of line ends in front, with blanks around them, and the text behind. -/
def takeBreaks : (fuel : Nat) → List Char → Nat × List Char
  | 0, s => (0, s)
  | fuel + 1, s =>
    match s.dropWhile isSpace with
    | '\n' :: r => let (n, r') := takeBreaks fuel r; (n + 1, r')
    | r => (0, r)

/-- What line ends count as. -/
def foldBreaks : Nat → List Char
  | 0 => []
  | 1 => [' ']
  | n + 1 => List.replicate n '\n'

/-- The text and what follows it, and whether it spans lines. -/
structure Scanned where
  /-- The text of the scalar. -/
  text : List Char
  /-- What follows the scalar. -/
  rest : List Char
  /-- Whether there is a line end in it. -/
  spansLines : Bool

/-- A scanned text with more in front. -/
def Scanned.cons (t : List Char) (x : Scanned) : Scanned := { x with text := t ++ x.text }

/-- A scanned text behind a line end. -/
def Scanned.behindBreak (t : List Char) (x : Scanned) : Scanned :=
  { x with text := t ++ x.text, spansLines := true }

/-! ## Quotes -/

/-- Read the text in single quotes behind the first; a quote is written twice. -/
def readSingle? : (fuel : Nat) → List Char → Option Scanned
  | 0, _ => none
  | _, [] => none
  | fuel + 1, '\'' :: '\'' :: s => (readSingle? fuel s).map (.cons ['\''])
  | _ + 1, '\'' :: s => some ⟨[], s, false⟩
  | fuel + 1, c :: s =>
    match (c :: s).dropWhile isSpace with
    | '\n' :: _ =>
      let (n, r) := takeBreaks (s.length + 1) (c :: s)
      (readSingle? fuel r).map (.behindBreak (foldBreaks n))
    | _ => (readSingle? fuel s).map (.cons [c])

def escapes : List (Char × Char) :=
  [('0', '\x00'), ('a', '\x07'), ('b', '\x08'), ('t', '\t'), ('\t', '\t'), ('n', '\n'),
    ('v', '\x0b'), ('f', '\x0c'), ('r', '\r'), ('e', '\x1b'), (' ', ' '), ('"', '"'),
    ('/', '/'), ('\\', '\\'), ('N', '\u0085'), ('_', '\u00a0'), ('L', '\u2028'),
    ('P', '\u2029')]

/-- The number of hexadecimal digits behind the letter of an escape. -/
def hexWidth? (c : Char) : Option Nat :=
  if c = 'x' then some 2 else if c = 'u' then some 4 else if c = 'U' then some 8 else none

/-- The character with the code that the digits write. -/
def ofHex? (digits : List Char) : Option Char :=
  match digits.mapM Json.hexDigit? with
  | none => none
  | some ds =>
    let n := ds.foldl (fun n d => n * 16 + d) 0
    if n.isValidChar then some (Char.ofNat n) else none

/-- Read an escape behind its backslash. -/
def readEscape? : List Char → Option (Char × List Char)
  | [] => none
  | c :: s =>
    match hexWidth? c with
    | some n =>
      if n ≤ s.length then (ofHex? (s.take n)).map fun x => (x, s.drop n) else none
    | none => (escapes.lookup c).map fun x => (x, s)

/-- Read the text in double quotes behind the first. -/
def readDouble? : (fuel : Nat) → List Char → Option Scanned
  | 0, _ => none
  | _, [] => none
  | _ + 1, '"' :: s => some ⟨[], s, false⟩
  | fuel + 1, '\\' :: '\n' :: s =>
    let (n, r) := takeBreaks (s.length + 1) s
    (readDouble? fuel r).map (.behindBreak (List.replicate n '\n'))
  | fuel + 1, '\\' :: s =>
    match readEscape? s with
    | none => none
    | some (x, r) => (readDouble? fuel r).map (.cons [x])
  | fuel + 1, c :: s =>
    match (c :: s).dropWhile isSpace with
    | '\n' :: _ =>
      let (n, r) := takeBreaks (s.length + 1) (c :: s)
      (readDouble? fuel r).map (.behindBreak (foldBreaks n))
    | _ => (readDouble? fuel s).map (.cons [c])

def readQuoted? : List Char → Option Scanned
  | '\'' :: s => readSingle? (s.length + 1) s
  | '"' :: s => readDouble? (s.length + 1) s
  | _ => none

/-! ## Plain scalars -/

/-- Whether a character has a meaning within brackets. -/
def isFlowIndicator (c : Char) : Bool :=
  c == ',' || c == '[' || c == ']' || c == '\x7b' || c == '\x7d'

/-- Whether a character in front of a scalar has a meaning of its own. -/
def isIndicator (c : Char) : Bool :=
  isFlowIndicator c || ['#', '&', '*', '!', '|', '>', '\'', '"', '%', '@', '\x60'].contains c

/-- Whether a colon in front of `s` stands between a key and a value. -/
def colonSeparates (flow : Bool) (s : List Char) : Bool :=
  gapFollows s || (flow && s.head?.any isFlowIndicator)

/-- Whether a plain scalar starts here. -/
def startsPlain (flow : Bool) : List Char → Bool
  | [] => false
  | c :: s =>
    !isGap c && !isIndicator c &&
      !((c == '-' || c == '?' || c == ':') && colonSeparates flow s)

/-- The characters of a plain scalar on one line; `apart` says whether a blank is in
front. -/
def plainChars (flow : Bool) : (apart : Bool) → List Char → List Char
  | _, [] => []
  | apart, c :: s =>
    if c = '\n' ∨ (c = ':' ∧ colonSeparates flow s = true) ∨ (c = '#' ∧ apart = true) ∨
        (flow = true ∧ isFlowIndicator c = true) then []
    else c :: plainChars flow (isSpace c) s

/-- The part of a plain scalar on one line, without the blanks at its end. -/
def plainLine (flow : Bool) (s : List Char) : List Char :=
  Text.dropEndWhile isSpace (plainChars flow false s)

/-- Read a plain scalar whose further lines stand at least at the column `least`. -/
def readPlain (flow : Bool) (least : Nat) : (fuel : Nat) → List Char → Scanned
  | 0, s => ⟨[], s, false⟩
  | fuel + 1, s =>
    let t := plainLine flow s
    let r := s.drop t.length
    match r.dropWhile isSpace with
    | '\n' :: _ =>
      let (n, next) := takeBreaks (r.length + 1) r
      let column := ((r.take (r.length - next.length)).reverse.takeWhile (· != '\n')).length
      if next.isEmpty || column < least || next.head? == some '#' ||
          (plainLine flow next).isEmpty then ⟨t, r, false⟩
      else (readPlain flow least fuel next).behindBreak (t ++ foldBreaks n)
    | _ => ⟨t, r, false⟩

/-! ## Blocks of lines -/

/-- What becomes of the line ends at the end of a block. -/
inductive Chomping
  /-- One is kept. -/
  | clip
  /-- None is kept. -/
  | strip
  /-- All are kept. -/
  | keep
  deriving DecidableEq

/-- The settings in the header of a block: its indentation and its end. -/
def readHeader (indent : Option Nat) (chomping : Chomping) :
    List Char → Option Nat × Chomping × List Char
  | [] => (indent, chomping, [])
  | c :: s =>
    if c = '+' then readHeader indent .keep s
    else if c = '-' then readHeader indent .strip s
    else if '1' ≤ c ∧ c ≤ '9' then readHeader (some (c.toNat - '0'.toNat)) chomping s
    else (indent, chomping, c :: s)

/-- The number of spaces in front of a line. -/
def indentOf (line : List Char) : Nat := (line.takeWhile (· == ' ')).length

/-- Whether a line has only spaces. -/
def isBlankLine (line : List Char) : Bool := line.all (· == ' ')

/-- Join the lines of a block in which single line ends count as spaces.  Lines that start
with a blank keep the line ends around them. -/
def foldLines : List (List Char) → List Char
  | [] => []
  | l :: ls => l ++ go (isSpaced l) 0 ls
where
  /-- Whether a line keeps the line ends around it. -/
  isSpaced (l : List Char) : Bool := l.head?.any isSpace
  /-- Go on behind a line and some empty lines. -/
  go (spaced : Bool) (empty : Nat) : List (List Char) → List Char
    | [] => []
    | [] :: ls => go spaced (empty + 1) ls
    | l :: ls =>
      (if spaced || isSpaced l then List.replicate (empty + 1) '\n'
        else if empty = 0 then [' '] else List.replicate empty '\n') ++
      l ++ go (isSpaced l) 0 ls

/-- The text of a block and the lines behind it; `least` is the least indentation. -/
def readBlock (folded : Bool) (least : Nat) (indent : Option Nat) (chomping : Chomping)
    (lines : List (List Char)) : List Char × List (List Char) :=
  let indent := match indent with
    | some n => (least - 1) + n
    | none => max least (((lines.find? fun l => !isBlankLine l).map indentOf).getD least)
  let inside (l : List Char) : Bool := indent ≤ indentOf l || isBlankLine l
  let behind := lines.dropWhile inside
  let body := (lines.takeWhile inside).map (·.drop indent)
  let body := if behind.isEmpty && body.getLast? == some [] then body.dropLast else body
  let kept := (body.reverse.dropWhile List.isEmpty).reverse
  let text := if folded then
      let blank := kept.takeWhile List.isEmpty
      List.replicate blank.length '\n' ++ foldLines (kept.drop blank.length)
    else ['\n'].intercalate kept
  let ending := match chomping with
    | .strip => []
    | .clip => if kept.isEmpty then [] else ['\n']
    | .keep => List.replicate (body.length - kept.length + if kept.isEmpty then 0 else 1) '\n'
  (text ++ ending, behind)

end SpecLinkage.Yaml
