import SpecLinkage.Glob.Basic
import SpecLinkage.Text.Utf8

/-! # Matching globs

Paths are matched byte by byte, in UTF-8.  `Token.rests t s` lists what can be left of `s`
behind a part that `t` matches; a glob matches a path when nothing can be left. -/

namespace SpecLinkage.Glob

open Text

/-- The slash as a byte. -/
def slash : UInt8 := 0x2F

/-- The remainders behind any number of bytes other than slashes. -/
def withinComponent : List UInt8 → List (List UInt8)
  | [] => [[]]
  | b :: s => if b = slash then [b :: s] else (b :: s) :: withinComponent s

/-- The remainders behind each slash. -/
def behindSlashes : List UInt8 → List (List UInt8)
  | [] => []
  | b :: s => if b = slash then s :: behindSlashes s else behindSlashes s

def remainders : List UInt8 → List (List UInt8)
  | [] => [[]]
  | b :: s => (b :: s) :: remainders s

/-- The remainder behind a given text. -/
def behindBytes : (p s : List UInt8) → List (List UInt8)
  | [], s => [s]
  | _ :: _, [] => []
  | a :: p, b :: s => if a = b then behindBytes p s else []

/-- Whether a range of characters has the byte.  A character of several bytes counts as
its bytes: the range reaches from the last byte of its lower end to the first byte of its
upper end. -/
def rangeHas (b : UInt8) (r : Char × Char) : Bool :=
  let lo := String.utf8EncodeChar r.1
  let hi := String.utf8EncodeChar r.2
  if r.1 = r.2 then lo.contains b
  else lo.dropLast.contains b || hi.tail.contains b ||
    (lo.getLast?.any (· ≤ b) && hi.head?.any (b ≤ ·))

mutual

/-- Whether the token can only stand for nothing: a group whose branches are all empty. -/
def isBlankToken : Token → Bool
  | .alternates branches => allBlank branches
  | _ => false

def isBlankSequence : List Token → Bool
  | [] => true
  | t :: ts => isBlankToken t && isBlankSequence ts

/-- Whether all branches are blank. -/
def allBlank : List (List Token) → Bool
  | [] => true
  | b :: bs => isBlankSequence b && allBlank bs

end

mutual

/-- What can be left of `s` behind a part that the token matches. -/
def tokenRests (s : List UInt8) : Token → List (List UInt8)
  | .literal c => behindBytes (String.utf8EncodeChar c) s
  | .anyByte =>
    match s with
    | b :: r => if b = slash then [] else [r]
    | [] => []
  | .star => withinComponent s
  | .leadingDirs => s :: behindSlashes s
  | .trailingDirs =>
    match s with
    | b :: r => if b = slash then remainders r else []
    | [] => []
  | .innerDirs =>
    match s with
    | b :: r => if b = slash then r :: behindSlashes r else []
    | [] => []
  | .oneOf negated ranges =>
    match s with
    | b :: r => if ranges.any (rangeHas b) != negated then [r] else []
    | [] => []
  | .alternates branches => if allBlank branches then [s] else branchRests s branches

/-- What can be left of one of the texts behind a part that the sequence matches. -/
def sequenceRests (ss : List (List UInt8)) : List Token → List (List UInt8)
  | [] => ss
  | t :: ts => sequenceRests ((ss.flatMap fun s => tokenRests s t).eraseDups) ts

/-- What can be left of `s` behind a part that one of the branches matches; a blank branch
does not count. -/
def branchRests (s : List UInt8) : List (List Token) → List (List UInt8)
  | [] => []
  | b :: bs =>
    (if isBlankSequence b then [] else sequenceRests [s] b) ++ branchRests s bs

end

/-- Whether a glob matches a path.  The glob `**` alone matches every path. -/
def isMatch (glob : List Token) (path : String) : Bool :=
  match glob with
  | [.leadingDirs] => true
  | _ => (sequenceRests [utf8Bytes path.toList] glob).contains []

end SpecLinkage.Glob
