import SpecLinkage.Glob.Basic

/-! # Reading globs

`parse?` reads a glob from its text.  It fails on a class or a group that is not closed,
on a closing brace without a group, on a range that goes backwards and on a backslash at
the end. -/

namespace SpecLinkage.Glob

/-! ## Classes -/

/-- Put the upper end of the last range, which is open; fails if the range goes backwards. -/
def closeRange? (c : Char) : List (Char × Char) → Option (List (Char × Char))
  | [] => none
  | (lo, _) :: rs => if c < lo then none else some ((lo, c) :: rs)

/-- Read the ranges of a class up to its bracket; the ranges read so far come last first.
`first` says that no character was read yet and `open_` that the last range waits for its
upper end. -/
def readRanges? (first open_ : Bool) (ranges : List (Char × Char)) :
    List Char → Option (List (Char × Char) × List Char)
  | [] => none
  | c :: s =>
    if c = ']' ∧ first = false then
      some ((if open_ then ('-', '-') :: ranges else ranges).reverse, s)
    else if c = '-' ∧ first = false ∧ open_ = false then readRanges? false true ranges s
    else if open_ ∧ c ≠ ']' then
      match closeRange? c ranges with
      | none => none
      | some ranges => readRanges? false false ranges s
    else readRanges? false open_ ((c, c) :: ranges) s

/-- Read a class behind its opening bracket. -/
def readClass? (s : List Char) : Option (Token × List Char) :=
  match s with
  | [] => none
  | c :: t =>
    let negated := c == '!' || c == '^'
    (readRanges? true false [] (if negated then t else c :: t)).map fun (ranges, rest) =>
      (.oneOf negated ranges, rest)

theorem length_readRanges?_lt {first open_ : Bool} {ranges out : List (Char × Char)}
    {s rest : List Char} (h : readRanges? first open_ ranges s = some (out, rest)) :
    rest.length < s.length := by
  induction s generalizing first open_ ranges with
  | nil => cases h
  | cons c s ih =>
    rw [readRanges?] at h
    split at h
    · obtain ⟨-, rfl⟩ := Prod.mk.inj (Option.some.inj h); simp
    · split at h
      · exact Nat.lt_succ_of_lt (ih h)
      · split at h
        · split at h
          · cases h
          · exact Nat.lt_succ_of_lt (ih h)
        · exact Nat.lt_succ_of_lt (ih h)

theorem length_readClass?_lt {s rest : List Char} {t : Token}
    (h : readClass? s = some (t, rest)) : rest.length < s.length := by
  unfold readClass? at h
  split at h
  · cases h
  · next c s =>
    obtain ⟨⟨ranges, rest'⟩, h', he⟩ := Option.map_eq_some_iff.1 h
    obtain ⟨-, rfl⟩ := Prod.mk.inj he
    have := length_readRanges?_lt h'
    split at this
    · simp only [List.length_cons]; omega
    · exact this

/-! ## The parser -/

/-- A group that is open: the sequences before it and the branches that are complete, each
last first. -/
structure Group where
  /-- The sequence that the group stands in. -/
  outer : List Token
  branches : List (List Token)

/-- What was read of a glob: the open groups, innermost first, and the current sequence,
last token first. -/
structure Progress where
  groups : List Group
  current : List Token

namespace Progress

/-- Add a token. -/
def push (p : Progress) (t : Token) : Progress := { p with current := t :: p.current }

/-- Add the tokens of a `**` that is not a whole component. -/
def pushStars (p : Progress) : Progress := (p.push .star).push .star

def openGroup (p : Progress) : Progress := ⟨⟨p.current, []⟩ :: p.groups, []⟩

/-- Start the next branch of the group. -/
def nextBranch (p : Progress) : Progress :=
  match p.groups with
  | [] => p.push (.literal ',')
  | g :: gs => ⟨{ g with branches := p.current.reverse :: g.branches } :: gs, []⟩

def closeGroup? (p : Progress) : Option Progress :=
  match p.groups with
  | [] => none
  | g :: gs =>
    some ⟨gs, .alternates (p.current.reverse :: g.branches).reverse :: g.outer⟩

/-- Replace the last token, the slash before a `**`, by the token for directories. -/
def pushDirs (p : Progress) (t : Token) : Progress :=
  match p.current with
  | .leadingDirs :: ts => { p with current := .leadingDirs :: ts }
  | .trailingDirs :: ts => { p with current := .trailingDirs :: ts }
  | _ :: ts => { p with current := t :: ts }
  | [] => p.push t

/-- A `**` was read between `before` and the text `s`.  The flag says whether the slash
behind it belongs to it. -/
def doubleStar (p : Progress) (before : Option Char) (s : List Char) : Progress × Bool :=
  if p.current.isEmpty then
    match s with
    | [] => (p.push .leadingDirs, false)
    | c :: _ => if c = '/' then (p.push .leadingDirs, true) else (p.pushStars, false)
  else if before ≠ some '/' ∧
      (p.groups.isEmpty = true ∨ (before ≠ some ',' ∧ before ≠ some '\x7b')) then
    (p.pushStars, false)
  else
    match s with
    | [] => (p.pushDirs .trailingDirs, false)
    | c :: _ =>
      if c = '/' then (p.pushDirs .innerDirs, true)
      else if (c = ',' ∨ c = '\x7d') ∧ p.groups.isEmpty = false then
        (p.pushDirs .trailingDirs, false)
      else (p.pushStars, false)

end Progress

/-- Read the rest of a glob.  `before` is the character in front of it. -/
def parseFrom? (before : Option Char) (p : Progress) (s : List Char) : Option (List Token) :=
  match s with
  | [] => if p.groups.isEmpty then some p.current.reverse else none
  | '?' :: s => parseFrom? (some '?') (p.push .anyByte) s
  | '*' :: '*' :: s =>
    match p.doubleStar before s with
    | (p, true) => parseFrom? (some '/') p (s.drop 1)
    | (p, false) => parseFrom? (some '*') p s
  | '*' :: s => parseFrom? (some '*') (p.push .star) s
  | '[' :: s =>
    match _h : readClass? s with
    | none => none
    | some (t, rest) => parseFrom? (some ']') (p.push t) rest
  | '\x7b' :: s => parseFrom? (some '\x7b') p.openGroup s
  | '\x7d' :: s =>
    match p.closeGroup? with
    | none => none
    | some p => parseFrom? (some '\x7d') p s
  | ',' :: s => parseFrom? (some ',') p.nextBranch s
  | ['\\'] => none
  | '\\' :: c :: s => parseFrom? (some c) (p.push (.literal c)) s
  | c :: s => parseFrom? (some c) (p.push (.literal c)) s
termination_by s.length
decreasing_by
  all_goals simp only [List.length_cons, List.length_drop]
  any_goals omega
  exact Nat.lt_succ_of_lt (length_readClass?_lt _h)

/-- At the end all groups have to be closed. -/
theorem parseFrom?_nil (before : Option Char) (read : List Token) :
    parseFrom? before ⟨[], read⟩ [] = some read.reverse := by
  rw [parseFrom?]
  rfl

/-- Read a glob. -/
def parse? (s : String) : Option (List Token) := parseFrom? none ⟨[], []⟩ s.toList

end SpecLinkage.Glob
