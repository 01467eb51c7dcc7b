import SpecLinkage.Markdown.Fenced

/-! # Markdown without its code examples

TAGs in the fenced code blocks of a document are examples, not links.  The blocks are
blanked before the document is scanned: of the text in them only the newlines are kept,
so that line numbers still hold. -/

namespace SpecLinkage.Markdown

/-- Remove everything but newlines inside the byte ranges, which are in order.  The text
starts at byte `offset`. -/
def blankRanges (ranges : List (Nat × Nat)) (offset : Nat) : List Char → List Char
  | [] => []
  | c :: s =>
    let ranges := ranges.dropWhile fun r => r.2 ≤ offset
    let inside := ranges.head?.any fun r => r.1 ≤ offset && offset < r.2
    let rest := blankRanges ranges (offset + c.utf8Size) s
    if inside && c != '\n' then rest else c :: rest

/-- Remove everything but newlines from the fenced code blocks of a document. -/
def stripFenced (markdown : String) : String :=
  String.ofList (blankRanges (fencedRanges markdown.toList) 0 markdown.toList)

end SpecLinkage.Markdown
