/-! # Blank characters

The characters that count as white space between the words of a comment, and the
trimming built on them.

* `isBlank` is the Unicode `White_Space` property.  Zero-width characters
  (U+200B, U+FEFF) and the separators U+001C to U+001F are not in it.
* `dropEndWhile` is `List.dropWhile` from the right; `trimStart`, `trimEnd` and `trim`
  remove blanks at one end or at both. -/

namespace SpecLinkage.Text

/-- The Unicode `White_Space` property. -/
def isBlank (c : Char) : Bool :=
  let n := c.toNat
  (0x09 ≤ n && n ≤ 0x0D) || n == 0x20 || n == 0x85 || n == 0xA0 || n == 0x1680
    || (0x2000 ≤ n && n ≤ 0x200A) || n == 0x2028 || n == 0x2029 || n == 0x202F
    || n == 0x205F || n == 0x3000

/-- Drop the longest tail whose characters all satisfy `p`. -/
def dropEndWhile (p : Char → Bool) (s : List Char) : List Char :=
  (s.reverse.dropWhile p).reverse

def trimStart (s : List Char) : List Char := s.dropWhile isBlank

def trimEnd (s : List Char) : List Char := dropEndWhile isBlank s

/-- Remove blanks at both ends. -/
def trim (s : List Char) : List Char := trimEnd (trimStart s)

/-- The leading word: everything up to the first blank. -/
def word (s : List Char) : List Char := s.takeWhile fun c => !isBlank c

/-- What follows the leading word. -/
def afterWord (s : List Char) : List Char := s.dropWhile fun c => !isBlank c

/-! ## Lemmas -/

/-- Every character that core counts as white space is a blank. -/
theorem isBlank_of_isWhitespace {c : Char} (h : c.isWhitespace = true) : isBlank c = true := by
  simp only [Char.isWhitespace, Bool.or_eq_true, decide_eq_true_eq] at h
  rcases h with ((rfl | rfl) | rfl) | rfl <;> decide

theorem word_append_afterWord (s : List Char) : word s ++ afterWord s = s :=
  List.takeWhile_append_dropWhile

theorem length_dropWhile_le (p : Char → Bool) (s : List Char) :
    (s.dropWhile p).length ≤ s.length :=
  (List.dropWhile_sublist p).length_le

theorem length_trimStart_le (s : List Char) : (trimStart s).length ≤ s.length :=
  length_dropWhile_le isBlank s

theorem length_afterWord_le (s : List Char) : (afterWord s).length ≤ s.length :=
  length_dropWhile_le _ s

/-- Trimming at the start twice trims once. -/
theorem trimStart_trimStart (s : List Char) : trimStart (trimStart s) = trimStart s := by
  induction s with
  | nil => rfl
  | cons c r ih =>
    by_cases h : isBlank c
    · simpa [trimStart, List.dropWhile_cons, h] using ih
    · simp [trimStart, h]

end SpecLinkage.Text
