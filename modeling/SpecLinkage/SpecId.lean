import SpecLinkage.Text.Affix

/-! # Spec identifiers and chain keys

A spec identifier names one specification document: `SPEC-AUTH-001` is number 1 of the
domain `AUTH`.

* `SpecId` holds a domain (capital letters and digits, at least one) and a number below
  1000; `SpecId.text` writes it and `SpecId.ofText?` reads it.
* `SpecId.ofText?_eq_some_iff`: exactly the written forms are read.
* `chainKey` cuts the trailing `DOMAIN-NNN` off any identifier, so that the stages of one
  chain may carry different prefixes.  `SpecId.chainKey_text`: on a spec identifier this
  is the part after `SPEC-`. -/

namespace SpecLinkage

open Text

/-- Characters of a domain: ASCII capital letters and digits. -/
def isDomainChar (c : Char) : Bool := c.isUpper || c.isDigit

/-- Write a number below 1000 with three digits. -/
def threeDigits (n : Fin 1000) : List Char :=
  [Nat.digitChar (n.val / 100), Nat.digitChar (n.val / 10 % 10), Nat.digitChar (n.val % 10)]

def digitValue (c : Char) : Nat := c.toNat - '0'.toNat

/-- Read a number written with exactly three ASCII digits. -/
def readThreeDigits? : List Char → Option (Fin 1000)
  | [a, b, c] =>
    if a.isDigit && b.isDigit && c.isDigit then
      some (Fin.ofNat 1000 (digitValue a * 100 + digitValue b * 10 + digitValue c))
    else none
  | _ => none

/-- A well-formed spec identifier. -/
structure SpecId where
  /-- The domain, `AUTH` in `SPEC-AUTH-001`. -/
  domain : String
  /-- The number, 1 in `SPEC-AUTH-001`. -/
  number : Fin 1000
  /-- The domain is not empty and has only capital letters and digits. -/
  domain_ok : domain.toList ≠ [] ∧ domain.toList.all isDomainChar = true
  deriving DecidableEq

namespace SpecId

/-- What every spec identifier starts with. -/
def lead : List Char := ['S', 'P', 'E', 'C', '-']

def keyChars (id : SpecId) : List Char := id.domain.toList ++ '-' :: threeDigits id.number

/-- The written form, `SPEC-{DOMAIN}-{NNN}` with the number in three digits. -/
def text (id : SpecId) : String := String.ofList (lead ++ id.keyChars)

/-- The key shared by all stages of the chain of this spec, `AUTH-001`. -/
def chainKey (id : SpecId) : String := String.ofList id.keyChars

/-- Read a spec identifier. -/
def ofText? (s : String) : Option SpecId :=
  match (stripPrefix? lead s.toList).bind (splitFirst? '-') with
  | none => none
  | some (domain, digits) =>
    if h : domain ≠ [] ∧ domain.all isDomainChar = true then
      (readThreeDigits? digits).map fun n => ⟨String.ofList domain, n, by simpa using h⟩
    else none

end SpecId

/-- The trailing `DOMAIN-NNN` of an identifier with a numeric tail and at least two dashes;
any other identifier is its own key. -/
def chainKeyChars (s : List Char) : List Char :=
  match splitLast? '-' s with
  | none => s
  | some (head, number) =>
    if number = [] ∨ number.all Char.isDigit = false then s
    else match splitLast? '-' head with
      | none => s
      | some (_, domain) => domain ++ '-' :: number

/-- The chain an identifier belongs to. -/
def chainKey (id : String) : String := String.ofList (chainKeyChars id.toList)

/-! ## Lemmas -/

theorem isDigit_digitChar : ∀ n : Fin 10, (Nat.digitChar n.val).isDigit = true := by decide

theorem digitValue_digitChar : ∀ n : Fin 10, digitValue (Nat.digitChar n.val) = n.val := by decide

theorem digitChar_digitValue {c : Char} (h : c.isDigit = true) :
    digitValue c < 10 ∧ Nat.digitChar (digitValue c) = c := by
  simp only [Char.isDigit, Bool.and_eq_true, decide_eq_true_eq, UInt32.le_iff_toNat_le] at h
  have h1 : 48 ≤ c.toNat := h.1
  have h2 : c.toNat ≤ 57 := h.2
  have h3 : digitValue c = c.toNat - 48 := rfl
  have h4 : c = Char.ofNat c.toNat := (Char.ofNat_toNat c).symm
  generalize c.toNat = n at h1 h2 h3 h4
  subst h4
  rw [h3]
  have : n = 48 ∨ n = 49 ∨ n = 50 ∨ n = 51 ∨ n = 52 ∨ n = 53 ∨ n = 54 ∨ n = 55 ∨ n = 56 ∨ n = 57 := by
    omega
  rcases this with h | h | h | h | h | h | h | h | h | h <;> subst h <;> decide

/-- Exactly the three-digit forms are read. -/
theorem readThreeDigits?_eq_some_iff {s : List Char} {n : Fin 1000} :
    readThreeDigits? s = some n ↔ s = threeDigits n := by
  constructor
  · intro h
    unfold readThreeDigits? at h
    split at h
    · next a b c =>
      split at h
      · next hd =>
        simp only [Bool.and_eq_true] at hd
        obtain ⟨ha, ha'⟩ := digitChar_digitValue hd.1.1
        obtain ⟨hb, hb'⟩ := digitChar_digitValue hd.1.2
        obtain ⟨hc, hc'⟩ := digitChar_digitValue hd.2
        obtain rfl := Option.some.inj h
        have hn : (digitValue a * 100 + digitValue b * 10 + digitValue c) % 1000 =
            digitValue a * 100 + digitValue b * 10 + digitValue c := Nat.mod_eq_of_lt (by omega)
        simp only [threeDigits, Fin.ofNat, hn]
        rw [show (digitValue a * 100 + digitValue b * 10 + digitValue c) / 100 = digitValue a by omega,
          show (digitValue a * 100 + digitValue b * 10 + digitValue c) / 10 % 10 = digitValue b by omega,
          show (digitValue a * 100 + digitValue b * 10 + digitValue c) % 10 = digitValue c by omega,
          ha', hb', hc']
      · cases h
    · cases h
  · rintro rfl
    have h1 : n.val / 100 < 10 := by omega
    have h2 : n.val / 10 % 10 < 10 := by omega
    have h3 : n.val % 10 < 10 := by omega
    have d1 := isDigit_digitChar ⟨_, h1⟩
    have d2 := isDigit_digitChar ⟨_, h2⟩
    have d3 := isDigit_digitChar ⟨_, h3⟩
    have v1 := digitValue_digitChar ⟨_, h1⟩
    have v2 := digitValue_digitChar ⟨_, h2⟩
    have v3 := digitValue_digitChar ⟨_, h3⟩
    simp only at d1 d2 d3 v1 v2 v3
    simp only [threeDigits, readThreeDigits?, d1, d2, d3, v1, v2, v3, Bool.and_self, if_true,
      Option.some.injEq]
    apply Fin.ext
    simp only [Fin.ofNat]
    omega

theorem not_isDomainChar_dash : isDomainChar '-' = false := by decide

theorem dash_notMem_domain (id : SpecId) : '-' ∉ id.domain.toList := fun h => by
  have := List.all_eq_true.1 id.domain_ok.2 _ h
  rw [not_isDomainChar_dash] at this; cases this

/-- Exactly the written forms of spec identifiers are read. -/
theorem SpecId.ofText?_eq_some_iff {s : String} {id : SpecId} :
    ofText? s = some id ↔ s = id.text := by
  have hs : ∀ l : List Char, s = String.ofList l ↔ s.toList = l := fun l =>
    ⟨fun h => by rw [h, String.toList_ofList], fun h => by rw [← h, String.ofList_toList]⟩
  rw [text, hs]
  constructor
  · intro h
    unfold ofText? at h
    split at h
    · cases h
    · next domain digits hb =>
      obtain ⟨rest, hp, hsplit⟩ := Option.bind_eq_some_iff.1 hb
      rw [stripPrefix?_eq_some_iff] at hp
      obtain ⟨rfl, -⟩ := splitFirst?_eq_some_iff.1 hsplit
      split at h
      · obtain ⟨n, hn, rfl⟩ := Option.map_eq_some_iff.1 h
        rw [readThreeDigits?_eq_some_iff] at hn
        simp [hp, keyChars, hn]
      · cases h
  · intro h
    have hb : (stripPrefix? lead s.toList).bind (splitFirst? '-') =
        some (id.domain.toList, threeDigits id.number) := by
      rw [h, stripPrefix?_append]
      exact splitFirst?_eq_some_iff.2 ⟨rfl, dash_notMem_domain id⟩
    unfold ofText?
    rw [hb]
    simp only [dif_pos id.domain_ok, readThreeDigits?_eq_some_iff.2 rfl, Option.map_some,
      String.ofList_toList]

/-- A written spec identifier is read back. -/
theorem SpecId.ofText?_text (id : SpecId) : ofText? id.text = some id :=
  ofText?_eq_some_iff.2 rfl

theorem threeDigits_all_isDigit (n : Fin 1000) : (threeDigits n).all Char.isDigit = true := by
  have d1 := isDigit_digitChar ⟨n.val / 100, by omega⟩
  have d2 := isDigit_digitChar ⟨n.val / 10 % 10, by omega⟩
  have d3 := isDigit_digitChar ⟨n.val % 10, by omega⟩
  simp only at d1 d2 d3
  simp [threeDigits, d1, d2, d3]

/-- The chain key of a spec identifier is the part after `SPEC-`. -/
theorem SpecId.chainKey_text (id : SpecId) : SpecLinkage.chainKey id.text = id.chainKey := by
  have hd : '-' ∉ threeDigits id.number := fun h => by
    have := List.all_eq_true.1 (threeDigits_all_isDigit id.number) _ h
    revert this; decide
  have h1 : splitLast? '-' (lead ++ id.keyChars) =
      some (lead ++ id.domain.toList, threeDigits id.number) :=
    splitLast?_eq_some_iff.2 ⟨by simp [keyChars], hd⟩
  have h2 : splitLast? '-' (lead ++ id.domain.toList) =
      some (['S', 'P', 'E', 'C'], id.domain.toList) :=
    splitLast?_eq_some_iff.2 ⟨by simp [lead], dash_notMem_domain id⟩
  unfold SpecLinkage.chainKey chainKeyChars text chainKey
  rw [String.toList_ofList, h1]
  simp only [threeDigits_all_isDigit, h2]
  simp [threeDigits, keyChars]

theorem SpecId.text_injective {a b : SpecId} (h : a.text = b.text) : a = b := by
  have := ofText?_text a
  rw [h, ofText?_text] at this
  exact (Option.some.inj this).symm

end SpecLinkage
