import SpecLinkage.Category

/-! # Tag candidates

A candidate is a TAG as it stands in a comment, found but not yet validated: its keyword,
the identifier and verb exactly as written, and where it stands. -/

namespace SpecLinkage

/-- The keyword after `@`. -/
inductive Keyword
  /-- `@TAG`: the category is inferred. -/
  | generic
  /-- `@REQ`, `@CODE` and so on. -/
  | category (c : Category)
  deriving DecidableEq, Repr

namespace Keyword

/-- The keyword as written. -/
def text : Keyword → String
  | generic => "TAG"
  | category c => c.text

def ofText? (s : String) : Option Keyword :=
  if s = "TAG" then some generic else (Category.ofText? s).map category

/-- Exactly the written keywords are read. -/
theorem ofText?_eq_some_iff {s : String} {k : Keyword} : ofText? s = some k ↔ s = k.text := by
  unfold ofText?
  split
  · next h =>
    subst h
    cases k with
    | generic => simp [text]
    | category c => cases c <;> simp [text, Category.text]
  · next h =>
    cases k with
    | generic => simp [text, h]
    | category c => simp [text, Category.ofText?_eq_some_iff]

end Keyword

/-- A stretch of a file, in bytes. -/
structure Span where
  /-- Bytes before it. -/
  offset : Nat
  /-- Bytes in it. -/
  length : Nat
  deriving DecidableEq, Repr

/-- What a TAG says, exactly as written. -/
structure Clause where
  /-- The keyword after `@`. -/
  keyword : Keyword
  specId : String
  verb : Option String
  /-- The text after the dash, if there is any. -/
  description : Option String
  deriving DecidableEq, Repr

/-- A TAG found in a file. -/
structure Candidate where
  clause : Clause
  filePath : String
  /-- The line it stands on, counted from 1. -/
  line : Nat
  span : Span
  deriving DecidableEq, Repr

end SpecLinkage
