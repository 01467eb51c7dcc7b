import SpecLinkage.Text.Utf8

/-! # Characters and their bytes

What the bytes of a text say about its characters.

* `toNat_of_mem_utf8EncodeChar`: a byte below 128 is a character of its own.
* `exists_of_utf8Length_le`: two prefixes of a text are ordered like their lengths.
* `exists_of_utf8Bytes_prefix`: a prefix of the bytes that is a text is a prefix of the text.
* `exists_of_utf8Bytes_char`: a character of one byte in the bytes is one of the text. -/

namespace SpecLinkage.Text

variable {a b s : List Char} {bytes : List UInt8}

@[simp] theorem utf8Bytes_nil : utf8Bytes [] = [] := rfl

@[simp] theorem utf8Bytes_cons (c : Char) (s : List Char) :
    utf8Bytes (c :: s) = String.utf8EncodeChar c ++ utf8Bytes s := rfl

/-! ## Bytes of a character -/

theorem utf8EncodeChar_of_ascii {c : Char} (h : c.toNat < 128) :
    String.utf8EncodeChar c = [UInt8.ofNat c.toNat] := by
  have hle : c.val.toNat ≤ 127 := Nat.le_of_lt_succ h
  rw [String.utf8EncodeChar, if_pos hle]
  rfl

/-- A byte below 128 stands for the character with its number, and for no part of another one. -/
theorem toNat_of_mem_utf8EncodeChar {b : UInt8} {c : Char} (hb : b.toNat < 128)
    (h : b ∈ String.utf8EncodeChar c) : c.toNat = b.toNat := by
  have hlong : ∀ n k : Nat, 128 ≤ k → n + k < 256 → b ≠ UInt8.ofNat (n + k) := by
    rintro n k hk hlt rfl
    rw [UInt8.toNat_ofNat_of_lt' hlt] at hb
    omega
  have hvalue : c.val.toNat = c.toNat := rfl
  simp only [String.utf8EncodeChar] at h
  split at h
  · next hle =>
    rw [List.mem_singleton.1 h, UInt8.toNat_ofNat_of_lt' (by simp [UInt8.size]; omega), hvalue]
  · exfalso
    split at h
    · simp only [List.mem_cons, List.not_mem_nil, or_false] at h
      rcases h with h | h
      · exact hlong _ _ (by omega) (by omega) h
      · exact hlong _ _ (by omega) (by omega) h
    · split at h
      · simp only [List.mem_cons, List.not_mem_nil, or_false] at h
        rcases h with h | h | h
        · exact hlong _ _ (by omega) (by omega) h
        · exact hlong _ _ (by omega) (by omega) h
        · exact hlong _ _ (by omega) (by omega) h
      · simp only [List.mem_cons, List.not_mem_nil, or_false] at h
        rcases h with h | h | h | h
        · exact hlong _ _ (by omega) (by omega) h
        · exact hlong _ _ (by omega) (by omega) h
        · exact hlong _ _ (by omega) (by omega) h
        · exact hlong _ _ (by omega) (by omega) h

/-- The bytes of a character tell it, whatever follows them. -/
theorem utf8EncodeChar_append_inj {c d : Char} {r r' : List UInt8}
    (h : String.utf8EncodeChar c ++ r = String.utf8EncodeChar d ++ r') : c = d ∧ r = r' := by
  have hc := ByteArray.utf8DecodeChar?_utf8EncodeChar_append (b := r.toByteArray) (c := c)
  have hd := ByteArray.utf8DecodeChar?_utf8EncodeChar_append (b := r'.toByteArray) (c := d)
  rw [← List.toByteArray_append, h, List.toByteArray_append, hd] at hc
  obtain rfl := Option.some.inj hc
  exact ⟨rfl, List.append_cancel_left h⟩

/-! ## Prefixes and suffixes -/

theorem eq_nil_of_utf8Length (h : utf8Length s = 0) : s = [] := by
  cases s with
  | nil => rfl
  | cons c s =>
    have hsize := c.utf8Size_pos
    rw [utf8Length_cons] at h
    omega

/-- Of two prefixes of a text the one with fewer bytes is a prefix of the other. -/
theorem exists_of_utf8Length_le {c d : List Char} (h : a ++ b = c ++ d)
    (hle : utf8Length a ≤ utf8Length c) : ∃ m, c = a ++ m ∧ b = m ++ d := by
  rcases List.append_eq_append_iff.1 h with ⟨m, hc, hb⟩ | ⟨m, rfl, rfl⟩
  · exact ⟨m, hc, hb⟩
  · rw [utf8Length_append] at hle
    obtain rfl := eq_nil_of_utf8Length (s := m) (by omega)
    exact ⟨[], by simp, rfl⟩

/-- A prefix of the bytes of a text that is a text itself is a prefix of the text. -/
theorem exists_of_utf8Bytes_prefix (h : utf8Bytes s = utf8Bytes a ++ bytes) :
    ∃ t, s = a ++ t ∧ bytes = utf8Bytes t := by
  induction a generalizing s with
  | nil => exact ⟨s, rfl, h.symm⟩
  | cons c a ih =>
    cases s with
    | nil => exact absurd h.symm (by simp [String.utf8EncodeChar_ne_nil])
    | cons d s =>
      rw [utf8Bytes_cons, utf8Bytes_cons, List.append_assoc] at h
      obtain ⟨rfl, hrest⟩ := utf8EncodeChar_append_inj h
      obtain ⟨t, rfl, ht⟩ := ih hrest
      exact ⟨t, rfl, ht⟩

theorem utf8Bytes_injective (h : utf8Bytes s = utf8Bytes a) : s = a := by
  obtain ⟨t, rfl, ht⟩ := exists_of_utf8Bytes_prefix (h.trans (List.append_nil _).symm)
  cases t with
  | nil => exact List.append_nil a
  | cons c t => exact absurd ht.symm (by simp [String.utf8EncodeChar_ne_nil])

/-- A character of one byte in the bytes of a text is a character of the text. -/
theorem exists_of_utf8Bytes_char {d : Char} (hd : d.toNat < 128) {bytes' : List UInt8}
    (h : utf8Bytes s = bytes ++ (String.utf8EncodeChar d ++ bytes')) :
    ∃ t u, s = t ++ d :: u ∧ bytes = utf8Bytes t ∧ bytes' = utf8Bytes u := by
  induction s generalizing bytes with
  | nil =>
    obtain ⟨-, hd⟩ := List.append_eq_nil_iff.1 h.symm
    exact absurd (List.append_eq_nil_iff.1 hd).1 String.utf8EncodeChar_ne_nil
  | cons c s ih =>
    rw [utf8Bytes_cons] at h
    rcases List.append_eq_append_iff.1 h with ⟨m, rfl, hs⟩ | ⟨m, hc, hs⟩
    · obtain ⟨t, u, rfl, rfl, rfl⟩ := ih hs
      exact ⟨c :: t, u, rfl, rfl, rfl⟩
    -- the character starts in the bytes of `c`, so it is `c` or stands behind it
    · cases m with
      | nil =>
        obtain ⟨t, u, rfl, ht, rfl⟩ := ih (show utf8Bytes s = [] ++ _ from hs.symm)
        obtain rfl : t = [] := utf8Bytes_injective ht.symm
        exact ⟨[c], u, rfl, by simpa using hc.symm, rfl⟩
      | cons x m =>
        rw [utf8EncodeChar_of_ascii hd] at hs
        obtain ⟨hx, -⟩ := List.cons.inj hs
        have hnat : (UInt8.ofNat d.toNat).toNat = d.toNat :=
          UInt8.toNat_ofNat_of_lt' (by simp [UInt8.size]; omega)
        have hmem : UInt8.ofNat d.toNat ∈ String.utf8EncodeChar c := by
          rw [hc, hx]
          exact List.mem_append_right _ List.mem_cons_self
        have hcd := toNat_of_mem_utf8EncodeChar (by rw [hnat]; exact hd) hmem
        obtain rfl : c = d := Char.toNat_inj.1 (hcd.trans hnat)
        rw [utf8EncodeChar_of_ascii hd] at hc
        obtain ⟨rfl, -⟩ := (List.append_eq_singleton_iff.1 hc.symm).resolve_right (by simp)
        exact ⟨[], s, rfl, rfl, (utf8EncodeChar_append_inj h).2.symm⟩

end SpecLinkage.Text
