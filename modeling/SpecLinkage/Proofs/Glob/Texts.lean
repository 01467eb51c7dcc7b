import SpecLinkage.Proofs.Glob.Meaning
import SpecLinkage.Proofs.SourcePath.Components

/-! # What a glob stands for, in characters

Globs are matched byte by byte.  As long as every wildcard is followed by a character of one byte,
or by nothing, the matched parts are texts themselves, and a sequence of tokens can be read off
character by character: there is one lemma for each way in which such a sequence goes on
(`standsForText_literals`, `standsForText_leadingDirs`, `standsForText_star` and so on). -/

namespace SpecLinkage

open Text

namespace Glob

/-! ## Sequences of tokens -/

/-- Whether a sequence of tokens stands for a text. -/
def StandsForText (s : List Char) (ts : List Token) : Prop := SequenceStandsFor (utf8Bytes s) ts

variable {s : List Char} {ts : List Token}

theorem slash_eq : [slash] = String.utf8EncodeChar '/' := by decide

theorem slash_mem_utf8Bytes_iff : slash ∈ utf8Bytes s ↔ '/' ∈ s := by
  constructor
  · intro h
    obtain ⟨a, b, hab⟩ := List.append_of_mem h
    rw [← List.singleton_append, slash_eq] at hab
    obtain ⟨t, u, rfl, -, -⟩ := exists_of_utf8Bytes_char (by decide) hab
    exact List.mem_append_right t List.mem_cons_self
  · intro h
    obtain ⟨t, u, rfl⟩ := List.append_of_mem h
    rw [utf8Bytes_append, utf8Bytes_cons, ← slash_eq]
    exact List.mem_append_right _ List.mem_cons_self

theorem standsForText_nil : StandsForText s [] ↔ s = [] :=
  ⟨fun h => utf8Bytes_injective h, fun h => by rw [h]; rfl⟩

theorem standsForText_literals {text : List Char} :
    StandsForText s (text.map .literal ++ ts) ↔ ∃ u, s = text ++ u ∧ StandsForText u ts := by
  rw [StandsForText, sequenceStandsFor_append]
  simp only [sequenceStandsFor_literals]
  constructor
  · rintro ⟨_, w, hs, rfl, hw⟩
    obtain ⟨u, rfl, rfl⟩ := exists_of_utf8Bytes_prefix hs
    exact ⟨u, rfl, hw⟩
  · rintro ⟨u, rfl, hu⟩
    exact ⟨_, _, utf8Bytes_append text u, rfl, hu⟩

theorem standsForText_leadingDirs :
    StandsForText s (.leadingDirs :: ts) ↔ ∃ u, IsBehind s u ∧ StandsForText u ts := by
  constructor
  · rintro ⟨_, w, hs, rfl | ⟨v, rfl⟩, hw⟩
    · obtain rfl : utf8Bytes s = w := hs
      exact ⟨s, .inl rfl, hw⟩
    · rw [List.append_assoc, slash_eq] at hs
      obtain ⟨t, u, rfl, -, rfl⟩ := exists_of_utf8Bytes_char (by decide) hs
      exact ⟨u, .inr ⟨t, rfl⟩, hw⟩
  · rintro ⟨u, rfl | ⟨t, rfl⟩, hu⟩
    · exact ⟨[], _, rfl, .inl rfl, hu⟩
    · refine ⟨utf8Bytes t ++ [slash], _, ?_, .inr ⟨_, rfl⟩, hu⟩
      rw [utf8Bytes_append, utf8Bytes_cons, slash_eq, List.append_assoc]

theorem standsForText_trailingDirs : StandsForText s [.trailingDirs] ↔ ∃ u, s = '/' :: u := by
  constructor
  · rintro ⟨_, _, hs, ⟨v, rfl⟩, rfl⟩
    rw [List.append_nil, ← List.singleton_append, slash_eq, ← List.append_nil
      (String.utf8EncodeChar '/')] at hs
    obtain ⟨u, rfl, -⟩ := exists_of_utf8Bytes_prefix (show utf8Bytes s = utf8Bytes ['/'] ++ v from hs)
    exact ⟨u, rfl⟩
  · rintro ⟨u, rfl⟩
    exact ⟨_, [], (List.append_nil _).symm, ⟨utf8Bytes u, rfl⟩, rfl⟩

theorem standsForText_star_nil : StandsForText s [.star] ↔ '/' ∉ s := by
  rw [← slash_mem_utf8Bytes_iff]
  constructor
  · rintro ⟨_, _, hs, hstar, rfl⟩
    rwa [hs, List.append_nil]
  · exact fun h => ⟨_, [], (List.append_nil _).symm, h, rfl⟩

/-- A star ends at an occurrence of the character behind it. -/
theorem standsForText_star {d : Char} (hd : d.toNat < 128) :
    StandsForText s (.star :: .literal d :: ts) ↔
      ∃ t u, s = t ++ d :: u ∧ '/' ∉ t ∧ StandsForText u ts := by
  simp only [← slash_mem_utf8Bytes_iff]
  constructor
  · rintro ⟨v, _, hs, hstar, _, w, rfl, rfl, hw⟩
    obtain ⟨t, u, rfl, rfl, rfl⟩ := exists_of_utf8Bytes_char hd hs
    exact ⟨t, u, rfl, hstar, hw⟩
  · rintro ⟨t, u, rfl, hstar, hu⟩
    exact ⟨_, _, utf8Bytes_append t (d :: u), hstar, _, _, rfl, rfl, hu⟩

end Glob

end SpecLinkage
