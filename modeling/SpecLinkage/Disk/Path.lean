import SpecLinkage.Text.Affix

/-! # Paths on a disk

Paths as texts with `/` between the components.  Repeated slashes, a slash at the end and
components `.` inside a path name nothing of their own, and `..` is a component like any
other.

* `DiskPath.join` puts a path below another; an absolute path stands for itself.
* `DiskPath.parent?` is the path without its last component.
* `DiskPath.relativeTo?` is what is left of a path below another one, as it is spelled.
* `DiskPath.extension?` is the part of the last component behind its last dot. -/

namespace SpecLinkage.DiskPath

open Text

def join (root p : String) : String :=
  if startsWith ['/'] p.toList then p
  else if root = "" ∨ endsWith ['/'] root.toList = true then root ++ p
  else root ++ "/" ++ p

/-- The pieces of a path between its slashes. -/
def pieces (p : String) : List (List Char) := splitAll '/' p.toList

/-- Whether a piece names nothing of its own. -/
def isInert (piece : List Char) : Bool := piece == [] || piece == ['.']

/-- Pieces without the inert ones at the end. -/
def trimPieces (ps : List (List Char)) : List (List Char) :=
  (ps.reverse.dropWhile isInert).reverse

/-- The path made of pieces; an empty piece alone is the root. -/
def ofPieces (first : List Char) (rest : List (List Char)) : String :=
  if first = [] ∧ rest = [] then "/"
  else String.ofList (['/'].intercalate (first :: rest))

/-- The path without its last component. -/
def parent? (p : String) : Option String :=
  match pieces p with
  | [] => none
  | first :: rest =>
    match trimPieces rest with
    | [] => if first = [] then none else some ""
    | named =>
      match trimPieces named.dropLast with
      | [] => if first = [] then some "/" else some (String.ofList first)
      | above => some (ofPieces first above)

/-- The last component of a path, if it is a name. -/
def fileName? (p : String) : Option (List Char) :=
  let name := match pieces p with
    | [] => none
    | first :: rest =>
      match (trimPieces rest).getLast? with
      | some name => some name
      | none => if isInert first then none else some first
  name.filter (· != ['.', '.'])

/-- What follows the last dot of the last component; a dot in front of the component does
not count. -/
def extension? (p : String) : Option String :=
  (fileName? p).bind fun name =>
    match splitLast? '.' name with
    | some (_ :: _, e) => some (String.ofList e)
    | _ => none

def components (p : String) : List (List Char) :=
  if p = "" then [] else
  match pieces p with
  | [] => []
  | first :: rest => (if first = [] then ['/'] else first) :: rest.filter fun q => !isInert q

/-- What is left of the pieces behind given components. -/
def dropComponents : List (List Char) → List (List Char) → Option (List (List Char))
  | [], ps => some ps
  | c :: cs, ps =>
    match ps.dropWhile isInert with
    | [] => none
    | p :: ps => if p = c then dropComponents cs ps else none

/-- What is left of `p` below `root`, if all components of `root` come first. -/
def relativeTo? (root p : String) : Option String :=
  match components root, pieces p with
  | [], [] => some ""
  | [], first :: rest =>
    some (if p = "" then "" else ofPieces first (trimPieces rest))
  | _, [] => none
  | c :: cs, first :: rest =>
    if p ≠ "" ∧ (if first = [] then ['/'] else first) = c then
      (dropComponents cs rest).map fun left =>
        match trimPieces (left.dropWhile isInert) with
        | [] => ""
        | q :: qs => ofPieces q qs
    else none

/-! ## Lemmas -/

/-- An absolute path stands for itself. -/
theorem join_of_absolute (root p : String) (h : startsWith ['/'] p.toList = true) :
    join root p = p := by
  simp [join, h]

end SpecLinkage.DiskPath
