import SpecLinkage.Text.Affix
import SpecLinkage.Markdown.Cursor

/-! # HTML blocks in markdown

Which lines open an HTML block, and what closes it.  Inside such a block nothing else is
recognized, so a fence in it opens no code block.

* `htmlCloser?`: `<pre>`, `<style>`, `<script>`, `<textarea>`, comments, processing
  instructions, declarations and CDATA end at the line that holds their closer.
* `opensHtmlElement`: the tag of a block element; the block ends at a blank line.
* `opensHtmlTag`: any other tag that stands alone on its line; the block ends at a blank
  line, and it does not interrupt a paragraph. -/

namespace SpecLinkage.Markdown

open Text

/-- Elements whose content is raw text. -/
def rawElements : List String := ["pre", "style", "script", "textarea"]

def blockElements : List String :=
  ["address", "article", "aside", "base", "basefont", "blockquote", "body", "caption",
    "center", "col", "colgroup", "dd", "details", "dialog", "dir", "div", "dl", "dt",
    "fieldset", "figcaption", "figure", "footer", "form", "frame", "frameset", "h1", "h2",
    "h3", "h4", "h5", "h6", "head", "header", "hr", "html", "iframe", "legend", "li", "link",
    "main", "menu", "menuitem", "nav", "noframes", "ol", "optgroup", "option", "p", "param",
    "search", "section", "summary", "table", "tbody", "td", "tfoot", "th", "thead", "title",
    "tr", "track", "ul"]

/-- Blanks between the parts of a tag, line ends included. -/
def isTagBlank (c : Char) : Bool := isLineBlank c || c == '\n' || c == '\r'

/-- What closes the raw element that opens after a `<`. -/
def rawCloser? (s : List Char) : Option (List Char) :=
  rawElements.findSome? fun name =>
    let n := name.toList.length
    if (s.take n).map Char.toLower = name.toList ∧
        ((s.drop n).head?.all fun c => isTagBlank c || c == '>') = true
    then some ("</".toList ++ name.toList ++ ['>']) else none

/-- What closes the HTML block that opens after a `<`, if it is closed by a text. -/
def htmlCloser? (s : List Char) : Option (List Char) :=
  match rawCloser? s with
  | some closer => some closer
  | none =>
    if startsWith "!--".toList s then some "-->".toList
    else if startsWith ['?'] s then some "?>".toList
    else if startsWith "![CDATA[".toList s then some "]]>".toList
    else match s with
      | '!' :: c :: _ => if c.isAlpha then some ['>'] else none
      | _ => none

/-- Whether the tag of a block element opens after a `<`. -/
def opensHtmlElement (s : List Char) : Bool :=
  let s := dropPrefix ['/'] s
  let name := s.takeWhile Char.isAlphanum
  let rest := s.dropWhile Char.isAlphanum
  blockElements.contains (String.ofList (name.map Char.toLower)) &&
    match rest with
    | [] => true
    | '/' :: '>' :: _ => true
    | c :: _ => c == ' ' || c == '\t' || c == '\r' || c == '\n' || c == '>'

/-! ## Tags that stand alone -/

/-- Characters of an attribute name after the first. -/
def isAttributeChar (c : Char) : Bool :=
  c.isAlphanum || c == '_' || c == '.' || c == ':' || c == '-'

/-- Characters of an attribute value without quotes. -/
def isBareValueChar (c : Char) : Bool :=
  !isTagBlank c && c != '"' && c != '\'' && c != '=' && c != '<' && c != '>' && c != '\x60'

/-- Read a quoted value up to its closing quote, on one line. -/
def readQuotedValue? (quote : Char) : List Char → Option (List Char)
  | [] => none
  | c :: s => if c = quote then some s else if c == '\n' || c == '\r' then none
    else readQuotedValue? quote s

/-- Read the value after an equals sign. -/
def readAttributeValue? (s : List Char) : Option (List Char) :=
  match s.dropWhile isLineBlank with
  | '"' :: t => readQuotedValue? '"' t
  | '\'' :: t => readQuotedValue? '\'' t
  | t => if t.head?.any isBareValueChar then some (t.dropWhile isBareValueChar) else none

def readAttribute? : List Char → Option (List Char)
  | [] => none
  | c :: s =>
    if c.isAlpha || c == '_' || c == ':' then
      let t := s.dropWhile isAttributeChar
      match t.dropWhile isLineBlank with
      | '=' :: v => readAttributeValue? v
      | _ => some t
    else none

/-- Read attributes up to the end of an opening tag; `fuel` bounds their number. -/
def readAttributes? : (fuel : Nat) → List Char → Option (List Char)
  | 0, _ => none
  | fuel + 1, s =>
    let t := s.dropWhile isLineBlank
    match t with
    | '>' :: r => some r
    | '/' :: '>' :: r => some r
    | _ =>
      if t.length = s.length then none
      else match readAttribute? t with
        | none => none
        | some r => readAttributes? fuel r

/-- Whether a complete tag stands alone on the line after a `<`. -/
def opensHtmlTag (s : List Char) : Bool :=
  match s with
  | '/' :: t =>
    let rest := (t.dropWhile fun c => c.isAlphanum || c == '-').dropWhile isLineBlank
    (t.head?.any Char.isAlpha) &&
      match rest with
      | '>' :: r => blankToEnd r
      | _ => false
  | _ =>
    (s.head?.any Char.isAlpha) &&
      match readAttributes? (s.length + 1) (s.dropWhile fun c => c.isAlphanum || c == '-') with
      | some r => blankToEnd r
      | none => false

end SpecLinkage.Markdown
