import SpecLinkage.Chain.Link
import SpecLinkage.Proofs.Text.Words

/-! # Identifiers of one chain

The stages of a chain have identifiers with a lead of their own before a domain and a number that
they share: `USER-PAY-001`, `API-PAY-001` and `UNIT-PAY-001` belong to `PAY-001`.

* `StageId`: identifiers of this form; `StageId.chainKey_text`, `StageId.chainKey_key`: domain and
  number are their key, and are their own.
* `chainKey_ne_iff`: no other identifier has a key that differs from it.
* `behindTwoDashes`: the part of an identifier that decides to which chain it belongs.
* `chainKey_exact` is the result. -/

namespace SpecLinkage

open Text

/-- An identifier of one stage of a chain. -/
structure StageId where
  /-- What tells the stage, `USER` in `USER-PAY-001`; it may have dashes in it. -/
  lead : String
  /-- The domain, `PAY` in `USER-PAY-001`. -/
  domain : String
  /-- The number, `001` in `USER-PAY-001`, with all its digits. -/
  number : String
  domain_ok : '-' ∉ domain.toList
  number_ok : number ≠ "" ∧ number.toList.all Char.isDigit = true

/-- What stands behind the last dash but one: the last two of the pieces between the dashes. -/
def behindTwoDashes (id : String) : String :=
  let pieces := splitAll '-' id.toList
  String.ofList (['-'].intercalate (pieces.drop (pieces.length - 2)))

namespace StageId

/-- The part that the stages of a chain share. -/
def key (i : StageId) : String := i.domain ++ "-" ++ i.number

def text (i : StageId) : String := i.lead ++ "-" ++ i.key

theorem toList_key (i : StageId) : i.key.toList = i.domain.toList ++ '-' :: i.number.toList := by
  simp [key]

theorem toList_text (i : StageId) : i.text.toList = i.lead.toList ++ '-' :: i.key.toList := by
  simp [text]

theorem dash_notMem_number (i : StageId) : '-' ∉ i.number.toList := fun h =>
  absurd (List.all_eq_true.1 i.number_ok.2 _ h) (by decide)

/-- The number is cut off first. -/
theorem chainKeyChars_number (i : StageId) (head : List Char) :
    chainKeyChars (head ++ '-' :: i.number.toList) =
      (splitLast? '-' head).elim (head ++ '-' :: i.number.toList)
        fun cut => cut.2 ++ '-' :: i.number.toList := by
  have hsplit : splitLast? '-' (head ++ '-' :: i.number.toList) = some (head, i.number.toList) :=
    splitLast?_eq_some_iff.2 ⟨rfl, i.dash_notMem_number⟩
  have hnumber : ¬(i.number.toList = [] ∨ i.number.toList.all Char.isDigit = false) := by
    rw [String.toList_eq_nil_iff, i.number_ok.2]
    simp [i.number_ok.1]
  rw [chainKeyChars, hsplit]
  simp only [if_neg hnumber]
  cases splitLast? '-' head <;> rfl

theorem chainKey_text (i : StageId) : chainKey i.text = i.key := by
  have hsplit : splitLast? '-' (i.lead.toList ++ '-' :: i.domain.toList) =
      some (i.lead.toList, i.domain.toList) := splitLast?_eq_some_iff.2 ⟨rfl, i.domain_ok⟩
  have htext : i.text.toList =
      (i.lead.toList ++ '-' :: i.domain.toList) ++ '-' :: i.number.toList := by
    rw [toList_text, toList_key, List.append_assoc]
    rfl
  rw [chainKey, htext, chainKeyChars_number, hsplit, Option.elim_some, ← i.toList_key,
    String.ofList_toList]

theorem chainKey_key (i : StageId) : chainKey i.key = i.key := by
  rw [chainKey, toList_key, chainKeyChars_number, splitLast?_eq_none_iff.2 i.domain_ok,
    Option.elim_none, ← i.toList_key, String.ofList_toList]

theorem text_ne_key (i : StageId) : i.text ≠ i.key := fun h => by
  have hlength := congrArg List.length (congrArg String.toList h)
  rw [toList_text, List.length_append, List.length_cons] at hlength
  omega

theorem behindTwoDashes_text (i : StageId) : behindTwoDashes i.text = i.key := by
  have hpieces : splitAll '-' i.text.toList =
      splitAll '-' i.lead.toList ++ [i.domain.toList, i.number.toList] := by
    rw [toList_text, toList_key, splitAll_append_cons, splitAll_append_cons,
      splitAll_of_notMem i.domain_ok, splitAll_of_notMem i.dash_notMem_number]
    rfl
  rw [behindTwoDashes, hpieces]
  simp [← i.toList_key, List.intercalate]

end StageId

/-- Only the identifiers of stages have a key that differs from them. -/
theorem chainKey_ne_iff {id : String} : chainKey id ≠ id ↔ ∃ i : StageId, i.text = id := by
  constructor
  · intro h
    unfold chainKey chainKeyChars at h
    split at h
    · exact absurd String.ofList_toList h
    · next head number hlast =>
      obtain ⟨hid, hnumber⟩ := splitLast?_eq_some_iff.1 hlast
      split at h
      · exact absurd String.ofList_toList h
      · next hdigits =>
        rw [not_or, Bool.not_eq_false] at hdigits
        split at h
        · exact absurd String.ofList_toList h
        · next lead domain hlead =>
          obtain ⟨hhead, hdomain⟩ := splitLast?_eq_some_iff.1 hlead
          refine ⟨⟨.ofList lead, .ofList domain, .ofList number, ?_, ?_, ?_⟩, ?_⟩
          · rwa [String.toList_ofList]
          · rw [ne_eq, String.ofList_eq_empty_iff]
            exact hdigits.1
          · rw [String.toList_ofList]
            exact hdigits.2
          · rw [← String.toList_inj, StageId.toList_text, StageId.toList_key, hid, hhead]
            simp
  · rintro ⟨i, rfl⟩
    rw [i.chainKey_text]
    exact i.text_ne_key.symm

/-- The key of an identifier is its part from the domain on, if it is that of a stage; any other
identifier stands alone.  So stages are in one chain if they agree from their domains on. -/
theorem chainKey_exact :
    (∀ i : StageId, chainKey i.text = i.key ∧ chainKey i.key = i.key) ∧
    (∀ id, (∀ i : StageId, i.text ≠ id) → chainKey id = id) ∧
    (∀ id, chainKey (chainKey id) = chainKey id ∧ ∃ lead, id = lead ++ chainKey id) ∧
    ∀ a b : Link, a.chainKey ≠ a.id → b.chainKey ≠ b.id →
      (a.chainKey = b.chainKey ↔ behindTwoDashes a.id = behindTwoDashes b.id) := by
  have halone : ∀ id, (∀ i : StageId, i.text ≠ id) → chainKey id = id := fun id h =>
    Decidable.of_not_not fun hne => by
      obtain ⟨i, hi⟩ := chainKey_ne_iff.1 hne
      exact h i hi
  refine ⟨fun i => ⟨i.chainKey_text, i.chainKey_key⟩, halone, fun id => ?_, ?_⟩
  · by_cases h : chainKey id = id
    · rw [h, h]
      exact ⟨rfl, "", (String.empty_append).symm⟩
    · obtain ⟨i, rfl⟩ := chainKey_ne_iff.1 h
      rw [i.chainKey_text, i.chainKey_key]
      exact ⟨rfl, i.lead ++ "-", rfl⟩
  · rintro ⟨c, a⟩ ⟨d, b⟩ ha hb
    obtain ⟨i, rfl⟩ := chainKey_ne_iff.1 ha
    obtain ⟨j, rfl⟩ := chainKey_ne_iff.1 hb
    show chainKey i.text = chainKey j.text ↔ behindTwoDashes i.text = behindTwoDashes j.text
    rw [i.chainKey_text, j.chainKey_text, i.behindTwoDashes_text, j.behindTwoDashes_text]

theorem chainKey_exact_stages :
    (⟨.req, "USER-PAY-001"⟩ : Link).chainKey = (⟨.task, "API-PAY-001"⟩ : Link).chainKey :=
  (chainKey_exact.2.2.2 _ _ (by decide +kernel) (by decide +kernel)).2 (by decide +kernel)

end SpecLinkage
