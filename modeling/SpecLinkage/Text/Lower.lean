/-! # Lower-casing for comparison with ASCII names

Names written by a user (`Rust`, `HTML`, `HYBRID`) are compared with ASCII names after
lower-casing.  The only characters whose lower case consists of ASCII letters are `A` to
`Z` and the Kelvin sign U+212A, whose lower case is `k`; every other character can be
left alone, because its lower case still has a character outside ASCII and so still
differs from every ASCII name. -/

namespace SpecLinkage.Text

/-- Lower case of a character, as far as it is ASCII. -/
def lowerChar (c : Char) : Char := if c.toNat = 0x212A then 'k' else c.toLower

/-- Lower case of a text for comparison with an ASCII name. -/
def lower (s : String) : String := String.ofList (s.toList.map lowerChar)

end SpecLinkage.Text
