import SpecLinkage.Proofs.Text.Words
import SpecLinkage.Proofs.Text.Bytes

/-! # Slices of a text by bytes

A slice is named by the bytes at which it starts and ends.  There is none if a byte is not in the
text, or is one within a character.

* `cutAt?` cuts a text at a byte; `cutAt?_eq_some_iff`: exactly at the ends of its prefixes.
* `sliceFrom?`, `sliceTo?` and `slice?` are made of it.
* `place s t` is the byte at which an end `t` of `s` starts: `sliceFrom?_place`, `slice?_place`.
* `byteOf?` and `occurrence?` find a character and a text. -/

namespace SpecLinkage.Text

variable {c : Char} {p : Char → Bool} {n : Nat} {a b s t u : List Char}

/-! ## Slices -/

/-- The text cut at a byte, if the byte is in the text and not within a character. -/
def cutAt? : Nat → List Char → Option (List Char × List Char)
  | 0, s => some ([], s)
  | _ + 1, [] => none
  | n + 1, c :: s =>
    if c.utf8Size ≤ n + 1 then
      (cutAt? (n + 1 - c.utf8Size) s).map fun (a, b) => (c :: a, b)
    else none

/-- The text from a byte on. -/
def sliceFrom? (n : Nat) (s : List Char) : Option (List Char) := (cutAt? n s).map Prod.snd

/-- The text up to a byte. -/
def sliceTo? (n : Nat) (s : List Char) : Option (List Char) := (cutAt? n s).map Prod.fst

/-- The text between two bytes. -/
def slice? (m n : Nat) (s : List Char) : Option (List Char) :=
  if m ≤ n then (sliceFrom? m s).bind (sliceTo? (n - m)) else none

/-- The byte of `s` at which its end `t` starts. -/
def place (s t : List Char) : Nat := utf8Length s - utf8Length t

/-- The byte of the first character that satisfies the condition. -/
def byteOf? (p : Char → Bool) (s : List Char) : Option Nat :=
  if s.any p then some (utf8Length (s.takeWhile fun c => !p c)) else none

/-- The byte at which a text occurs first in another one. -/
def occurrence? (m : List Char) : List Char → Option Nat
  | [] => none
  | c :: s => if startsWith m (c :: s) then some 0 else (occurrence? m s).map (c.utf8Size + ·)

/-! ## Lemmas -/

theorem cutAt?_append (a b : List Char) : cutAt? (utf8Length a) (a ++ b) = some (a, b) := by
  induction a with
  | nil => rw [utf8Length_nil, cutAt?, List.nil_append]
  | cons c a ih =>
    obtain ⟨n, hn⟩ : ∃ n, c.utf8Size + utf8Length a = n + 1 :=
      Nat.exists_eq_add_one.2 (Nat.add_pos_left c.utf8Size_pos _)
    have hle : c.utf8Size ≤ n + 1 := by omega
    have hrest : n + 1 - c.utf8Size = utf8Length a := by omega
    rw [List.cons_append, utf8Length_cons, hn, cutAt?, if_pos hle, hrest, ih]
    rfl

/-- A text can be cut behind each of its prefixes, and nowhere else. -/
theorem cutAt?_eq_some_iff : cutAt? n s = some (a, b) ↔ s = a ++ b ∧ utf8Length a = n := by
  constructor
  · intro h
    fun_induction cutAt? n s generalizing a with
    | case1 s =>
      cases h
      exact ⟨rfl, rfl⟩
    | case2 => cases h
    | case3 n c s hle ih =>
      obtain ⟨⟨a', b'⟩, hcut, ⟨⟩⟩ := Option.map_eq_some_iff.1 h
      obtain ⟨rfl, ha⟩ := ih hcut
      exact ⟨rfl, by rw [utf8Length_cons, ha]; omega⟩
    | case4 => cases h
  · rintro ⟨rfl, rfl⟩
    exact cutAt?_append a b

theorem sliceFrom?_append (a b : List Char) : sliceFrom? (utf8Length a) (a ++ b) = some b := by
  rw [sliceFrom?, cutAt?_append, Option.map_some]

theorem sliceTo?_append (a b : List Char) : sliceTo? (utf8Length a) (a ++ b) = some a := by
  rw [sliceTo?, cutAt?_append, Option.map_some]

/-! ## Places -/

theorem utf8Length_le_of_suffix (h : t <:+ s) : utf8Length t ≤ utf8Length s := by
  obtain ⟨a, rfl⟩ := h
  rw [utf8Length_append]
  exact Nat.le_add_left _ _

theorem place_append (a b : List Char) : place (a ++ b) b = utf8Length a := by
  rw [place, utf8Length_append, Nat.add_sub_cancel]

theorem place_nil (s : List Char) : place s [] = utf8Length s := rfl

theorem sliceFrom?_place (h : t <:+ s) : sliceFrom? (place s t) s = some t := by
  obtain ⟨a, rfl⟩ := h
  rw [place_append, sliceFrom?_append]

/-- A text in front is added to the place. -/
theorem place_behind (u : List Char) (h : t <:+ s) :
    place (u ++ s) t = utf8Length u + place s t := by
  obtain ⟨a, rfl⟩ := h
  rw [← List.append_assoc, place_append, place_append, utf8Length_append]

/-- What is passed is added to the place. -/
theorem place_add (h : u ++ t <:+ s) : place s (u ++ t) + utf8Length u = place s t := by
  obtain ⟨a, rfl⟩ := h
  rw [place_append, ← List.append_assoc, place_append, utf8Length_append]

theorem place_cons (h : c :: t <:+ s) : place s (c :: t) + c.utf8Size = place s t :=
  place_add (u := [c]) h

theorem slice?_place (h : u ++ t <:+ s) : slice? (place s (u ++ t)) (place s t) s = some u := by
  rw [slice?, ← place_add h, if_pos (Nat.le_add_right _ _), sliceFrom?_place h, Option.bind_some,
    Nat.add_sub_cancel_left, sliceTo?_append]

/-! ## Searches -/

theorem byteOf?_append (hu : ∀ d ∈ u, p d = false) (hc : p c = true) (s : List Char) :
    byteOf? p (u ++ c :: s) = some (utf8Length u) := by
  have hany : (u ++ c :: s).any p = true := List.any_eq_true.2 ⟨c, by simp, hc⟩
  rw [byteOf?, if_pos hany, takeWhile_of_stop (fun d hd => by rw [hu d hd]; rfl)]
  rintro _ ⟨⟩
  rw [hc]
  rfl

theorem byteOf?_none (h : ∀ d ∈ s, p d = false) : byteOf? p s = none := by
  have hany : s.any p = false := List.any_eq_false.2 fun d hd => by simp [h d hd]
  rw [byteOf?, hany]
  rfl

/-- The first of a character is behind a text without it. -/
theorem byteOf?_char (h : c ∉ u) (s : List Char) :
    byteOf? (· == c) (u ++ c :: s) = some (utf8Length u) := by
  have hother : ∀ d ∈ u, (d == c) = false := by
    intro d hd
    rw [beq_eq_false_iff_ne]
    rintro rfl
    exact h hd
  exact byteOf?_append hother (BEq.rfl (a := c)) s

theorem byteOf?_char_none (h : c ∉ s) : byteOf? (· == c) s = none := by
  refine byteOf?_none fun d hd => ?_
  rw [beq_eq_false_iff_ne]
  rintro rfl
  exact h hd

end SpecLinkage.Text
