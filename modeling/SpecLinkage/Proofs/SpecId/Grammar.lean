import SpecLinkage.SpecId
import SpecLinkage.Number.Decimal
import SpecLinkage.Proofs.Text.Slices

/-! # The grammar of spec identifiers

A spec identifier is written `SPEC-{DOMAIN}-{NNN}`, the domain in capital letters and digits.

* `SpecId.Spells` is the grammar, and `SpecId.isSome_ofText?_iff` says that it is what is read.
* `SpecId.acceptsBytes` checks a text by the bytes of its parts; `acceptsBytes_eq`: it accepts the
  same texts, also where their characters have several bytes.
* `SpecId.keySlice?`, `domainSlice?` and `numberSlice?` cut the parts out of a text at fixed numbers
  of bytes from its ends.
* `SpecId.spells_text`, `SpecId.slices_text`: a spec identifier is what its text spells, and has the
  parts that are cut out of it.
* `SpecId.chars_text`: which characters a spec identifier has. -/

namespace SpecLinkage

open Text

variable {c : Char} {s : String} {domain digits : List Char} {n : Nat}

/-! ## Characters and their bytes -/

theorem isDigit_iff : c.isDigit = true ↔ '0' ≤ c ∧ c ≤ '9' := by
  rw [Char.isDigit, Bool.and_eq_true, decide_eq_true_eq, decide_eq_true_eq]
  rfl

theorem isDomainChar_iff : isDomainChar c = true ↔ ('A' ≤ c ∧ c ≤ 'Z') ∨ ('0' ≤ c ∧ c ≤ '9') := by
  rw [isDomainChar, Bool.or_eq_true, isDigit_iff]
  delta Char.isUpper
  rw [decide_eq_true_eq]
  rfl

/-- Numbers of the digits, as characters and as bytes. -/
def isDigitCode (n : Nat) : Bool := 48 ≤ n && n ≤ 57

/-- Numbers of the characters of a domain. -/
def isDomainCode (n : Nat) : Bool := (65 ≤ n && n ≤ 90) || isDigitCode n

theorem isDigitCode_toNat (c : Char) : isDigitCode c.toNat = c.isDigit := by
  rw [Bool.eq_iff_iff, isDigit_iff]
  simp [isDigitCode, Char.le_def, UInt32.le_iff_toNat_le]

theorem isDomainCode_toNat (c : Char) : isDomainCode c.toNat = isDomainChar c := by
  rw [Bool.eq_iff_iff, isDomainChar_iff, isDomainCode, isDigitCode_toNat]
  simp [isDigit_iff, Char.le_def, UInt32.le_iff_toNat_le]

theorem lt_of_isDigitCode (h : isDigitCode n = true) : n < 128 := by
  simp only [isDigitCode, Bool.and_eq_true, decide_eq_true_eq] at h
  omega

theorem lt_of_isDomainCode (h : isDomainCode n = true) : n < 128 := by
  simp only [isDomainCode, isDigitCode, Bool.or_eq_true, Bool.and_eq_true, decide_eq_true_eq] at h
  omega

namespace Text

/-- A condition on ASCII characters that all bytes satisfy is satisfied by all characters. -/
theorem all_utf8Bytes {p : Nat → Bool} (hp : ∀ {n}, p n = true → n < 128) (s : List Char) :
    (utf8Bytes s).all (fun b => p b.toNat) = s.all fun c => p c.toNat := by
  induction s with
  | nil => rfl
  | cons c s ih =>
    rw [utf8Bytes_cons, List.all_append, List.all_cons, ih, Bool.eq_iff_iff, Bool.and_eq_true,
      Bool.and_eq_true, and_congr_left_iff]
    intro _
    constructor
    · intro h
      obtain ⟨b, hb⟩ := List.exists_mem_of_ne_nil _ (String.utf8EncodeChar_ne_nil (c := c))
      have hpb := List.all_eq_true.1 h b hb
      rwa [toNat_of_mem_utf8EncodeChar (hp hpb) hb]
    · intro h
      have hlt := hp h
      rw [utf8EncodeChar_of_ascii hlt, List.all_cons, List.all_nil, Bool.and_true,
        UInt8.toNat_ofNat_of_lt' (Nat.lt_trans hlt (by decide)), h]

theorem utf8Length_of_ascii {s : List Char} (h : ∀ c ∈ s, c.toNat < 128) :
    utf8Length s = s.length := by
  induction s with
  | nil => rfl
  | cons c s ih =>
    have hsize : c.utf8Size = 1 := by
      rw [← String.length_utf8EncodeChar, utf8EncodeChar_of_ascii (h c List.mem_cons_self)]
      rfl
    rw [utf8Length_cons, hsize, ih fun d hd => h d (List.mem_cons_of_mem c hd), List.length_cons,
      Nat.add_comm]

end Text

theorem all_isDigitCode (s : List Char) :
    (utf8Bytes s).all (fun b => isDigitCode b.toNat) = s.all Char.isDigit := by
  simp only [all_utf8Bytes lt_of_isDigitCode, isDigitCode_toNat]

theorem all_isDomainCode (s : List Char) :
    (utf8Bytes s).all (fun b => isDomainCode b.toNat) = s.all isDomainChar := by
  simp only [all_utf8Bytes lt_of_isDomainCode, isDomainCode_toNat]

theorem utf8Length_digits (h : digits.all Char.isDigit = true) :
    utf8Length digits = digits.length := by
  refine utf8Length_of_ascii fun c hc => lt_of_isDigitCode ?_
  rw [isDigitCode_toNat]
  exact List.all_eq_true.1 h c hc

/-! ## Three digits -/

theorem isSome_readThreeDigits?_iff :
    (readThreeDigits? digits).isSome = true ↔
      digits.length = 3 ∧ digits.all Char.isDigit = true := by
  rcases digits with _ | ⟨a, _ | ⟨b, _ | ⟨c, _ | ⟨d, rest⟩⟩⟩⟩
  · simp [readThreeDigits?]
  · simp [readThreeDigits?]
  · simp [readThreeDigits?]
  · simp [readThreeDigits?, and_assoc]
  · simp [readThreeDigits?]

/-- A number below 1000 has at most three digits, and zeros are written in front of fewer. -/
theorem padZeros_toDigits (n : Fin 1000) :
    Decimal.padZeros 3 (Nat.toDigits 10 n.val) = threeDigits n := by
  obtain ⟨n, hn⟩ := n
  rw [threeDigits]
  by_cases h : n < 10
  · have hhundreds : n / 100 = 0 := by omega
    have htens : n / 10 % 10 = 0 := by omega
    have hones : n % 10 = n := by omega
    rw [Nat.toDigits_of_lt_base h, hhundreds, htens, hones]
    rfl
  · have hten : 10 ≤ n := by omega
    rw [Nat.toDigits_of_base_le (by decide) hten]
    by_cases h' : n / 10 < 10
    · have hhundreds : n / 100 = 0 := by omega
      have htens : n / 10 % 10 = n / 10 := by omega
      rw [Nat.toDigits_of_lt_base h', hhundreds, htens]
      rfl
    · have hhundreds : n / 10 / 10 = n / 100 := by omega
      have hlt : n / 100 < 10 := by omega
      rw [Nat.toDigits_of_base_le (by decide) (by omega), hhundreds, Nat.toDigits_of_lt_base hlt]
      rfl

theorem ofDigitChars_threeDigits (n : Fin 1000) : Nat.ofDigitChars 10 (threeDigits n) 0 = n.val := by
  rw [← padZeros_toDigits, Decimal.padZeros, Nat.ofDigitChars_append, Nat.ofDigitChars_replicate_zero,
    Nat.mul_zero, Nat.ofDigitChars_ten_toDigits]

namespace SpecId

/-! ## The grammar -/

/-- The text `s` is written `SPEC-{domain}-{digits}`. -/
structure Spells (s domain digits : String) : Prop where
  eq : s = "SPEC-" ++ domain ++ "-" ++ digits
  domain_ne : domain ≠ ""
  domain_chars : ∀ c ∈ domain.toList, ('A' ≤ c ∧ c ≤ 'Z') ∨ ('0' ≤ c ∧ c ≤ '9')
  three : digits.length = 3
  digits_chars : ∀ c ∈ digits.toList, '0' ≤ c ∧ c ≤ '9'

theorem spells_iff {domain digits : String} : Spells s domain digits ↔
    s = "SPEC-" ++ domain ++ "-" ++ digits ∧
      (domain.toList ≠ [] ∧ domain.toList.all isDomainChar = true) ∧
        digits.toList.length = 3 ∧ digits.toList.all Char.isDigit = true := by
  rw [List.all_eq_true, List.all_eq_true, String.length_toList, Ne, String.toList_eq_nil_iff]
  simp only [isDomainChar_iff, isDigit_iff]
  constructor
  · intro h
    exact ⟨h.eq, ⟨h.domain_ne, h.domain_chars⟩, h.three, h.digits_chars⟩
  · rintro ⟨heq, ⟨hne, hdomain⟩, hthree, hdigits⟩
    exact ⟨heq, hne, hdomain, hthree, hdigits⟩

/-- The number of a spec identifier with three digits. -/
def numeral (id : SpecId) : String :=
  String.ofList (Decimal.padZeros 3 (Nat.toDigits 10 id.number.val))

theorem toList_numeral (id : SpecId) : id.numeral.toList = threeDigits id.number := by
  rw [numeral, String.toList_ofList, padZeros_toDigits]

theorem text_eq (id : SpecId) : id.text = "SPEC-" ++ id.domain ++ "-" ++ id.numeral := by
  rw [← String.toList_inj]
  simp [text, lead, keyChars, toList_numeral]

theorem chainKey_eq (id : SpecId) : id.chainKey = id.domain ++ "-" ++ id.numeral := by
  rw [← String.toList_inj]
  simp [chainKey, keyChars, toList_numeral]

/-- A spec identifier is what its text spells. -/
theorem spells_text (id : SpecId) : Spells id.text id.domain id.numeral := by
  refine spells_iff.2 ⟨id.text_eq, id.domain_ok, ?_, ?_⟩
  · rw [toList_numeral]
    rfl
  · rw [toList_numeral]
    exact threeDigits_all_isDigit id.number

theorem Spells.exists_text {domain digits : String} (h : Spells s domain digits) :
    ∃ id : SpecId, s = id.text := by
  obtain ⟨rfl, hdomain, hdigits⟩ := spells_iff.1 h
  obtain ⟨n, hn⟩ := Option.isSome_iff_exists.1 (isSome_readThreeDigits?_iff.2 hdigits)
  rw [readThreeDigits?_eq_some_iff] at hn
  refine ⟨⟨domain, n, hdomain⟩, ?_⟩
  rw [text_eq, String.append_right_inj, ← String.toList_inj, toList_numeral, hn]

/-- Exactly the texts of the grammar are read. -/
theorem isSome_ofText?_iff :
    (ofText? s).isSome = true ↔ ∃ domain digits, Spells s domain digits := by
  rw [Option.isSome_iff_exists]
  simp only [ofText?_eq_some_iff]
  constructor
  · rintro ⟨id, rfl⟩
    exact ⟨_, _, id.spells_text⟩
  · rintro ⟨domain, digits, h⟩
    exact h.exists_text

/-! ## By bytes -/

/-- The check of a text by the bytes of its parts: those before the first dash after the lead, of
which there is one, and the three behind it. -/
def acceptsBytes (s : String) : Bool :=
  match (stripPrefix? lead s.toList).bind (splitFirst? '-') with
  | none => false
  | some (domain, digits) =>
    !domain.isEmpty && (utf8Bytes domain).all (fun b => isDomainCode b.toNat) &&
      ((utf8Bytes digits).length == 3 && (utf8Bytes digits).all fun b => isDigitCode b.toNat)

/-- The cut at the first dash gives the parts that a text spells. -/
theorem cut_eq_some_iff :
    (stripPrefix? lead s.toList).bind (splitFirst? '-') = some (domain, digits) ↔
      s = "SPEC-" ++ String.ofList domain ++ "-" ++ String.ofList digits ∧ '-' ∉ domain := by
  rw [Option.bind_eq_some_iff, ← String.toList_inj]
  simp only [stripPrefix?_eq_some_iff, splitFirst?_eq_some_iff]
  constructor
  · rintro ⟨rest, hs, rfl, hdash⟩
    exact ⟨by simp [hs, lead], hdash⟩
  · rintro ⟨hs, hdash⟩
    exact ⟨domain ++ '-' :: digits, by simp [hs, lead], rfl, hdash⟩

theorem acceptsBytes_of_cut
    (h : (stripPrefix? lead s.toList).bind (splitFirst? '-') = some (domain, digits)) :
    acceptsBytes s = true ↔ (domain ≠ [] ∧ domain.all isDomainChar = true) ∧
      digits.length = 3 ∧ digits.all Char.isDigit = true := by
  have hlength : utf8Length digits = 3 ∧ digits.all Char.isDigit = true ↔
      digits.length = 3 ∧ digits.all Char.isDigit = true :=
    and_congr_left fun hall => by rw [utf8Length_digits hall]
  rw [acceptsBytes, h, ← hlength]
  simp only [all_isDomainCode, all_isDigitCode, length_utf8Bytes, Bool.and_eq_true,
    Bool.not_eq_true', List.isEmpty_eq_false_iff, beq_iff_eq]

theorem acceptsBytes_iff : acceptsBytes s = true ↔ ∃ domain digits, Spells s domain digits := by
  constructor
  · intro h
    cases hcut : (stripPrefix? lead s.toList).bind (splitFirst? '-') with
    | none =>
      rw [acceptsBytes, hcut] at h
      cases h
    | some cut =>
      obtain ⟨domain, digits⟩ := cut
      have hok := (acceptsBytes_of_cut hcut).1 h
      rw [cut_eq_some_iff] at hcut
      exact ⟨String.ofList domain, String.ofList digits,
        spells_iff.2 ⟨hcut.1, by simpa only [String.toList_ofList] using hok⟩⟩
  · rintro ⟨domain, digits, h⟩
    obtain ⟨hs, hok⟩ := spells_iff.1 h
    have hdash : '-' ∉ domain.toList := fun hmem =>
      absurd (List.all_eq_true.1 hok.1.2 _ hmem) (by decide)
    have hcut : (stripPrefix? lead s.toList).bind (splitFirst? '-') =
        some (domain.toList, digits.toList) := by
      rw [cut_eq_some_iff, String.ofList_toList, String.ofList_toList]
      exact ⟨hs, hdash⟩
    exact (acceptsBytes_of_cut hcut).2 hok

/-- Checking bytes and checking characters accept the same texts. -/
theorem acceptsBytes_eq (s : String) : acceptsBytes s = (ofText? s).isSome := by
  rw [Bool.eq_iff_iff, acceptsBytes_iff, isSome_ofText?_iff]

-- three bytes are not enough
example : acceptsBytes "SPEC-AUTH-€" = false := by decide +kernel

/-- What a text has behind as many bytes as the lead. -/
def keySlice? (s : String) : Option (List Char) := sliceFrom? (utf8Length lead) s.toList

/-- What a text has behind the lead and before its last four bytes, those of a dash and three
digits. -/
def domainSlice? (s : String) : Option (List Char) :=
  (keySlice? s).bind fun rest => sliceTo? (utf8Length rest - 3 - 1) rest

/-- The number in the last three bytes of a text. -/
def numberSlice? (s : String) : Option Nat :=
  (sliceFrom? (utf8Length s.toList - 3) s.toList).map fun digits => Nat.ofDigitChars 10 digits 0

/-- The cuts are between characters, and give the parts of the spec identifier. -/
theorem slices_text (id : SpecId) :
    keySlice? id.text = some id.chainKey.toList ∧ domainSlice? id.text = some id.domain.toList ∧
      numberSlice? id.text = some id.number.val := by
  have hlength : utf8Length (threeDigits id.number) = 3 :=
    utf8Length_digits (threeDigits_all_isDigit id.number)
  have hkey : keySlice? id.text = some id.keyChars := by
    rw [keySlice?, text, String.toList_ofList, sliceFrom?_append]
  refine ⟨by rw [hkey, chainKey, String.toList_ofList], ?_, ?_⟩
  · have hcut : utf8Length id.keyChars - 3 - 1 = utf8Length id.domain.toList := by
      have hdash : '-'.utf8Size = 1 := by decide
      rw [keyChars, utf8Length_append, utf8Length_cons, hlength, hdash]
      omega
    rw [domainSlice?, hkey, Option.bind_some, hcut, keyChars, sliceTo?_append]
  · have hsuffix : threeDigits id.number <:+ id.text.toList := by
      rw [text, String.toList_ofList, keyChars]
      exact ⟨lead ++ (id.domain.toList ++ ['-']), by simp⟩
    have hslice := sliceFrom?_place hsuffix
    rw [place, hlength] at hslice
    rw [numberSlice?, hslice, Option.map_some, ofDigitChars_threeDigits]

/-! ## Characters -/

theorem toList_text (id : SpecId) :
    id.text.toList = 'S' :: 'P' :: 'E' :: 'C' :: '-' :: (id.domain.toList ++
      '-' :: threeDigits id.number) := by
  rw [text, String.toList_ofList]
  rfl

theorem text_ne (id : SpecId) : id.text ≠ "" := by
  rw [Ne, ← String.toList_eq_nil_iff, toList_text]
  exact List.cons_ne_nil _ _

/-- A spec identifier has capital letters, digits and dashes. -/
theorem chars_text (id : SpecId) : ∀ c ∈ id.text.toList, isDomainChar c = true ∨ c = '-' := by
  rw [toList_text]
  simp only [List.mem_cons, List.mem_append]
  rintro c (rfl | rfl | rfl | rfl | rfl | hdomain | rfl | hdigits)
  · decide
  · decide
  · decide
  · decide
  · decide
  · exact .inl (List.all_eq_true.1 id.domain_ok.2 c hdomain)
  · exact .inr rfl
  · have hdigit := List.all_eq_true.1 (threeDigits_all_isDigit id.number) c hdigits
    exact .inl (by rw [isDomainChar, hdigit, Bool.or_true])

/-- A spec identifier is one word. -/
theorem isBlank_text (id : SpecId) : ∀ c ∈ id.text.toList, isBlank c = false := by
  intro c hc
  rcases id.chars_text c hc with h | rfl
  · rw [isDomainChar, Bool.or_eq_true] at h
    rcases h with h | h
    · exact isBlank_of_isAlphanum (isAlphanum_of_isUpper h)
    · exact isBlank_of_isAlphanum (isAlphanum_of_isDigit h)
  · decide

/-- A spec identifier has neither a separator of paths nor a dot. -/
theorem notMem_text (id : SpecId) (hc : c = '/' ∨ c = '\\' ∨ c = '.') : c ∉ id.text.toList := by
  intro hmem
  have hchar := id.chars_text c hmem
  rcases hc with rfl | rfl | rfl <;> exact absurd hchar (by decide)

end SpecId

end SpecLinkage
