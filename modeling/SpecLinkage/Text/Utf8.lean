/-! # UTF-8 lengths and bytes

Offsets and lengths of annotations count the bytes of the UTF-8 form of a text.
`utf8Length` adds over concatenation, so offsets can be computed piece by piece. -/

namespace SpecLinkage.Text

/-- Number of bytes of `s` written in UTF-8. -/
def utf8Length (s : List Char) : Nat := s.foldr (fun c n => c.utf8Size + n) 0

def utf8Bytes (s : List Char) : List UInt8 := s.flatMap String.utf8EncodeChar

/-! ## Lemmas -/

@[simp] theorem utf8Length_nil : utf8Length [] = 0 := rfl

@[simp] theorem utf8Length_cons (c : Char) (s : List Char) :
    utf8Length (c :: s) = c.utf8Size + utf8Length s := rfl

@[simp] theorem utf8Length_append (a b : List Char) :
    utf8Length (a ++ b) = utf8Length a + utf8Length b := by
  induction a with
  | nil => simp
  | cons c a ih =>
    rw [List.cons_append, utf8Length_cons, utf8Length_cons, ih, Nat.add_assoc]

@[simp] theorem utf8Bytes_append (a b : List Char) :
    utf8Bytes (a ++ b) = utf8Bytes a ++ utf8Bytes b := by
  simp [utf8Bytes]

/-- The length is the number of bytes. -/
theorem length_utf8Bytes (s : List Char) : (utf8Bytes s).length = utf8Length s := by
  induction s with
  | nil => rfl
  | cons c s ih =>
    have h : utf8Bytes (c :: s) = String.utf8EncodeChar c ++ utf8Bytes s := rfl
    rw [h, List.length_append, ih, utf8Length_cons, String.length_utf8EncodeChar]

end SpecLinkage.Text
