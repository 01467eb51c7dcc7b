import SpecLinkage.Text.Printable

/-! # Quoting text in messages

Text that a user wrote is quoted in messages so that it cannot forge further lines or
hide: controls and invisible characters become escapes.

The escapes are `\t`, `\r`, `\n`, `\0`, `\'`, `\"`, `\\`, and `\u` with the code point in
braces, in lower-case hexadecimal without padding, for every other character that is not
printable.  A combining mark is escaped only as the first character, where it would
combine with the quote. -/

namespace SpecLinkage.Text

/-- The code point in braces. -/
def unicodeEscape (c : Char) : List Char :=
  "\\u\x7b".toList ++ Nat.toDigits 16 c.toNat ++ ['\x7d']

/-- The escape of one character; `first` says whether it opens the text. -/
def quoteChar (first : Bool) (c : Char) : List Char :=
  if c = '\x00' then ['\\', '0']
  else if c = '\t' then ['\\', 't']
  else if c = '\r' then ['\\', 'r']
  else if c = '\n' then ['\\', 'n']
  else if c = '\\' ∨ c = '"' ∨ c = '\'' then ['\\', c]
  else if (first && isExtender c) || !isPrintable c then unicodeEscape c
  else [c]

/-- The text with escapes. -/
def quoteChars : List Char → List Char
  | [] => []
  | c :: s => quoteChar true c ++ s.flatMap (quoteChar false)

/-- The text with escapes. -/
def quote (s : String) : String := String.ofList (quoteChars s.toList)

end SpecLinkage.Text
