/-! # Marked-up text

Two kinds of text with marks in it, kept as pieces until they are written.

* `Markup` for HTML: raw pieces are written as they are, text pieces are escaped, so no
  text can add a tag.
* `Styled` for terminals: every piece has a style or none.  The same pieces give the plain
  text (`Styled.plain`) and the coloured text (`Styled.ansi`). -/

namespace SpecLinkage

/-! ## HTML -/

/-- A character of a text in HTML; the five characters with a meaning become entities. -/
def escapeHtmlChar (c : Char) : List Char :=
  if c = '&' then "&amp;".toList
  else if c = '<' then "&lt;".toList
  else if c = '>' then "&gt;".toList
  else if c = '"' then "&quot;".toList
  else if c = '\'' then "&#39;".toList
  else [c]

def escapeHtml (s : String) : String := String.ofList (s.toList.flatMap escapeHtmlChar)

/-- A piece of an HTML document. -/
inductive Markup
  /-- Markup, written as it is. -/
  | raw (s : String)
  /-- Text, escaped. -/
  | text (s : String)
  deriving DecidableEq, Repr

namespace Markup

/-- The piece as written. -/
def write : Markup → String
  | raw s => s
  | text s => escapeHtml s

/-- The pieces as written. -/
def writeAll (l : List Markup) : String := String.join (l.map write)

end Markup

/-! ## Terminal text -/

/-- The styles of pieces of a terminal text. -/
inductive Style
  | bold
  /-- The title: bold and cyan. -/
  | title
  | dim
  | alert
  | good
  | fair
  | bad
  deriving DecidableEq, Repr

/-- An escape sequence that selects a graphic rendition. -/
def graphicRendition (code : String) : String := "\x1b[" ++ code ++ "m"

namespace Style

/-- The codes that switch the style on, from the first to the last. -/
def openers : Style → List String
  | bold => ["1"]
  | title => ["1", "36"]
  | dim => ["2"]
  | alert => ["33"]
  | good => ["32"]
  | fair => ["33"]
  | bad => ["31"]

/-- The codes that switch the style off. -/
def closers : Style → List String
  | bold => ["0"]
  | title => ["39", "0"]
  | dim => ["0"]
  | alert => ["39"]
  | good => ["39"]
  | fair => ["39"]
  | bad => ["39"]

end Style

/-- A piece of a terminal text. -/
structure Styled where
  style : Option Style
  text : String
  deriving DecidableEq, Repr

namespace Styled

def paint (p : Styled) : String :=
  match p.style with
  | none => p.text
  | some s =>
    String.join (s.openers.map graphicRendition) ++ p.text ++
      String.join (s.closers.map graphicRendition)

/-- The pieces without styles. -/
def plain (l : List Styled) : String := String.join (l.map Styled.text)

/-- The pieces in their styles. -/
def ansi (l : List Styled) : String := String.join (l.map paint)

/-- A piece without a style. -/
def raw (s : String) : List Styled := [⟨none, s⟩]

/-- A piece with a style. -/
def styled (style : Style) (s : String) : List Styled := [⟨some style, s⟩]

end Styled

end SpecLinkage
