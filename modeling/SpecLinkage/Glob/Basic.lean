/-! # Globs

A glob is a pattern for paths.  `*` and `?` stay within a component; `**` as a whole
component stands for any number of components. -/

namespace SpecLinkage.Glob

/-- A piece of a glob. -/
inductive Token
  | literal (c : Char)
  | anyByte
  | star
  /-- Nothing, or anything up to a slash: `**` at the start. -/
  | leadingDirs
  /-- A slash and anything: `**` at the end. -/
  | trailingDirs
  /-- A slash, or anything between two slashes: `**` in the middle. -/
  | innerDirs
  /-- One byte in the ranges, or outside them if negated. -/
  | oneOf (negated : Bool) (ranges : List (Char × Char))
  | alternates (branches : List (List Token))
  deriving Inhabited, Repr

end SpecLinkage.Glob
