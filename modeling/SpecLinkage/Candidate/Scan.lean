import SpecLinkage.Candidate
import SpecLinkage.Text.Affix
import SpecLinkage.Text.Utf8

/-! # Scanning text for tag candidates

A TAG lives in a comment and looks like `@CODE:SPEC-AUTH-001 impl - login handler` or
`@TAG SPEC-AUTH-001 verify`.  The scan goes line by line; on a line only the text from
the first comment marker on is looked at.

## Algorithm

* `commentText?` finds the comment of a line.
* `readClause` reads one TAG behind an `@` and gives back the text that follows it: first
  the head (`readHead`: keyword, separator and identifier), then an optional verb
  (`readVerb`), then an optional description (`readTail`).
* `scanComment` goes through a comment from `@` to `@` and resumes behind each TAG that
  it read; `scanLines` and `scan` do so for every line.

Every reader gives back a part of its input, so the scan ends: `length_readClause_le`. -/

namespace SpecLinkage.Candidate

open Text

/-! ## Comments -/

def commentMarkers : List (List Char) :=
  ["//".toList, "/*".toList, "<!--".toList, "--".toList, "#".toList, ";".toList]

/-- The text from the first comment marker on. -/
def fromMarker? : List Char → Option (List Char)
  | [] => none
  | c :: s => if commentMarkers.any (startsWith · (c :: s)) then some (c :: s) else fromMarker? s

/-- The comment of a line: from a `*` that opens the line, or from the first marker. -/
def commentText? (line : List Char) : Option (List Char) :=
  match trimStart line with
  | '*' :: s => some ('*' :: s)
  | _ => fromMarker? line

/-! ## The pieces of a TAG -/

/-- Remove one closer `*/` and then one closer `-->` from the end, and blanks around them. -/
def trimClosers (s : List Char) : List Char :=
  trimEnd (dropSuffix "-->".toList (dropSuffix "*/".toList (trimEnd s)))

/-- Punctuation that may be glued to an identifier. -/
def isTrailingPunctuation (c : Char) : Bool := c == ',' || c == '.' || c == ')' || c == ']'

/-- An identifier token without a closer and without punctuation glued to it. -/
def trimToken (s : List Char) : List Char := dropEndWhile isTrailingPunctuation (trimClosers s)

/-- Dashes that separate a TAG from its description: hyphen and em dash. -/
def isDash (c : Char) : Bool := c == '-' || c == '\u2014'

/-- Whether the text is only a comment closer. -/
def isCloser (s : List Char) : Bool :=
  let t := trimEnd s
  t == "*/".toList || t == "-->".toList

def startsWithDash : List Char → Bool
  | c :: _ => isDash c
  | [] => false

/-- Whether a TAG may end before this text: at the end, at a dash or at a closer. -/
def endsClause (s : List Char) : Bool := s.isEmpty || startsWithDash s || isCloser s

/-- The separator between keyword and identifier is a colon or a blank. -/
def readSeparator : List Char → Option (List Char)
  | [] => none
  | c :: s => if c = ':' then some s else if isBlank c then some (c :: s) else none

/-- Read keyword, separator and identifier. -/
def readHead (s : List Char) : Option ((Keyword × List Char) × List Char) :=
  match Keyword.ofText? (String.ofList (s.takeWhile Char.isUpper)) with
  | none => none
  | some keyword =>
    match readSeparator (s.dropWhile Char.isUpper) with
    | none => none
    | some t =>
      let id := trimToken (word (trimStart t))
      if id = [] then none else some ((keyword, id), afterWord (trimStart t))

/-- What stands in the place of the verb. -/
inductive VerbPart
  /-- No word that could be a verb. -/
  | absent
  /-- A verb, and the text after it. -/
  | written (verb rest : List Char)
  /-- An ordinary word: the TAG ends before it. -/
  | prose

/-- Read the verb: a word in small letters, known or at the end of the TAG. -/
def readVerb (s : List Char) : VerbPart :=
  let w := word (trimStart s)
  let rest := afterWord (trimStart s)
  if w ≠ [] ∧ w.all Char.isLower = true then
    if (Verb.ofText? (String.ofList w)).isSome || endsClause (trimStart rest) then .written w rest
    else .prose
  else .absent

/-- Read what follows identifier and verb: a description after a dash, a closer, or nothing
that belongs to the TAG. -/
def readTail (s : List Char) : Option (List Char) × List Char :=
  let rest := trimStart s
  if isCloser rest then (none, [])
  else if startsWithDash rest then
    let d := trim (trimClosers (rest.dropWhile isDash))
    (if d = [] then none else some d, [])
  else (none, s)

/-- Read one TAG from the text behind its `@`; also the text that follows it. -/
def readClause (s : List Char) : Option (Clause × List Char) :=
  match readHead s with
  | none => none
  | some ((keyword, id), rest) =>
    let clause (verb description : Option (List Char)) : Clause :=
      { keyword, specId := String.ofList id, verb := verb.map String.ofList,
        description := description.map String.ofList }
    match readVerb rest with
    | .prose => some (clause none none, rest)
    | .absent => some (clause none (readTail rest).1, (readTail rest).2)
    | .written verb rest' => some (clause (some verb) (readTail rest').1, (readTail rest').2)

/-! ## Every reader gives back a part of its input -/

theorem length_readSeparator_le {s t : List Char} (h : readSeparator s = some t) :
    t.length ≤ s.length := by
  cases s with
  | nil => cases h
  | cons c s =>
    rw [readSeparator] at h
    split at h
    · obtain rfl := Option.some.inj h; simp
    · split at h
      · obtain rfl := Option.some.inj h; simp
      · cases h

theorem length_readHead_le {s rest : List Char} {head : Keyword × List Char}
    (h : readHead s = some (head, rest)) : rest.length ≤ s.length := by
  unfold readHead at h
  split at h
  · cases h
  · split at h
    · cases h
    · next t ht =>
      simp only at h
      split at h
      · cases h
      · obtain ⟨-, rfl⟩ := Prod.mk.inj (Option.some.inj h)
        exact Nat.le_trans (length_afterWord_le _) <| Nat.le_trans (length_trimStart_le t) <|
          Nat.le_trans (length_readSeparator_le ht) (length_dropWhile_le _ s)

theorem length_readVerb_le {s verb rest : List Char} (h : readVerb s = .written verb rest) :
    rest.length ≤ s.length := by
  unfold readVerb at h
  simp only at h
  split at h
  · split at h
    · obtain ⟨-, rfl⟩ := VerbPart.written.inj h
      exact Nat.le_trans (length_afterWord_le _) (length_trimStart_le s)
    · cases h
  · cases h

theorem length_readTail_le (s : List Char) : (readTail s).2.length ≤ s.length := by
  unfold readTail
  simp only
  split
  · simp
  · split <;> simp

theorem length_readClause_le {s rest : List Char} {clause : Clause}
    (h : readClause s = some (clause, rest)) : rest.length ≤ s.length := by
  unfold readClause at h
  split at h
  · cases h
  · next hh =>
    have hle := length_readHead_le hh
    simp only at h
    split at h
    · obtain ⟨-, rfl⟩ := Prod.mk.inj (Option.some.inj h); exact hle
    · obtain ⟨-, rfl⟩ := Prod.mk.inj (Option.some.inj h)
      exact Nat.le_trans (length_readTail_le _) hle
    · next hv =>
      obtain ⟨-, rfl⟩ := Prod.mk.inj (Option.some.inj h)
      exact Nat.le_trans (length_readTail_le _) (Nat.le_trans (length_readVerb_le hv) hle)

/-! ## The scan -/

/-- Whether an `@` behind `before` can open a TAG; in `user@HOST` it cannot. -/
def opensTag (before : Option Char) : Bool := !before.any fun c => c.isAlphanum

/-- The TAGs of a comment.  `before` is the character in front of the text and `offset` the
number of bytes before it in the file. -/
def scanComment (before : Option Char) (offset : Nat) : List Char → List (Clause × Span)
  | [] => []
  | c :: s =>
    if c = '@' ∧ opensTag before = true then
      match _h : readClause s with
      | some (clause, rest) =>
        let length := utf8Length (c :: s) - utf8Length rest
        (clause, ⟨offset, length⟩) :: scanComment none (offset + length) rest
      | none => scanComment (some c) (offset + c.utf8Size) s
    else scanComment (some c) (offset + c.utf8Size) s
termination_by s => s.length
decreasing_by
  · exact Nat.lt_succ_of_le (length_readClause_le _h)
  · exact Nat.lt_succ_self _
  · exact Nat.lt_succ_self _

/-- The TAGs of a line that starts at byte `offset`; a carriage return at its end is not
part of it. -/
def scanLine (offset : Nat) (line : List Char) : List (Clause × Span) :=
  let line := dropSuffix ['\r'] line
  match commentText? line with
  | none => []
  | some comment => scanComment none (offset + (utf8Length line - utf8Length comment)) comment

/-- The candidates of consecutive lines, the first of which has number `number` and starts
at byte `offset`. -/
def scanLines (path : String) (number offset : Nat) : List (List Char) → List Candidate
  | [] => []
  | line :: lines =>
    (scanLine offset line).map (fun (clause, span) => ⟨clause, path, number, span⟩) ++
      scanLines path (number + 1) (offset + utf8Length line + 1) lines

/-- The candidates of a text, in order. -/
def scan (path content : String) : List Candidate :=
  scanLines path 1 0 (splitAll '\n' content.toList)

end SpecLinkage.Candidate
