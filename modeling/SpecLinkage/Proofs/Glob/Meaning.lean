import SpecLinkage.Glob.Match
import SpecLinkage.Proofs.Text.Bytes

/-! # What a glob stands for

The matcher computes with remainders.  Here a glob is a set of byte sequences instead: a
token stands for some of them (`StandsFor`), a sequence of tokens for what its tokens
stand for, one behind the other.

* `mem_tokenRests`: the remainders of a token are what is left behind a part that the token
  stands for; `mem_sequenceRests` says the same of a sequence.
* `isMatch_iff`: a glob matches the paths that it stands for. -/

namespace SpecLinkage.Glob

open Text

variable {s u : List UInt8}

/-! ## Meaning -/

mutual

/-- Whether a token stands for the bytes. -/
def StandsFor (w : List UInt8) : Token → Prop
  | .literal c => w = String.utf8EncodeChar c
  | .anyByte => ∃ b, b ≠ slash ∧ w = [b]
  | .star => slash ∉ w
  | .leadingDirs => w = [] ∨ ∃ v, w = v ++ [slash]
  | .trailingDirs => ∃ v, w = slash :: v
  | .innerDirs => w = [slash] ∨ ∃ v, w = slash :: v ++ [slash]
  | .oneOf negated ranges => ∃ b, (ranges.any (rangeHas b) != negated) = true ∧ w = [b]
  | .alternates branches => if allBlank branches then w = [] else BranchStandsFor w branches

/-- Whether the tokens, one behind the other, stand for the bytes. -/
def SequenceStandsFor (w : List UInt8) : List Token → Prop
  | [] => w = []
  | t :: ts => ∃ v v', w = v ++ v' ∧ StandsFor v t ∧ SequenceStandsFor v' ts

/-- Whether a branch that is not blank stands for the bytes. -/
def BranchStandsFor (w : List UInt8) : List (List Token) → Prop
  | [] => False
  | b :: bs => (isBlankSequence b = false ∧ SequenceStandsFor w b) ∨ BranchStandsFor w bs

end

/-! ## Remainders of single tokens -/

theorem mem_behindBytes {p : List UInt8} : u ∈ behindBytes p s ↔ s = p ++ u := by
  induction p generalizing s with
  | nil => simp [behindBytes, eq_comm]
  | cons a p ih =>
    cases s with
    | nil => simp [behindBytes]
    | cons b s =>
      by_cases h : a = b
      · simp [behindBytes, h, ih]
      · simp [behindBytes, h, Ne.symm h]

theorem mem_withinComponent : u ∈ withinComponent s ↔ ∃ w, s = w ++ u ∧ slash ∉ w := by
  induction s with
  | nil => simp [withinComponent, and_assoc]
  | cons b s ih =>
    have hcons : (∃ w, b :: s = w ++ u ∧ slash ∉ w) ↔
        u = b :: s ∨ (b ≠ slash ∧ ∃ w, s = w ++ u ∧ slash ∉ w) := by
      constructor
      · rintro ⟨w, hw, hslash⟩
        cases w with
        | nil => exact Or.inl hw.symm
        | cons a w =>
          obtain ⟨rfl, rfl⟩ := List.cons.inj hw
          rw [List.mem_cons, not_or] at hslash
          exact Or.inr ⟨Ne.symm hslash.1, w, rfl, hslash.2⟩
      · rintro (rfl | ⟨hb, w, rfl, hslash⟩)
        · exact ⟨[], rfl, List.not_mem_nil⟩
        · exact ⟨b :: w, rfl, by simp [Ne.symm hb, hslash]⟩
    rw [hcons, ← ih, withinComponent]
    by_cases h : b = slash
    · simp [h]
    · simp [h]

theorem mem_behindSlashes : u ∈ behindSlashes s ↔ ∃ v, s = v ++ slash :: u := by
  induction s with
  | nil => simp [behindSlashes]
  | cons b s ih =>
    have hcons : (∃ v, b :: s = v ++ slash :: u) ↔
        (b = slash ∧ s = u) ∨ ∃ v, s = v ++ slash :: u := by
      constructor
      · rintro ⟨v, hv⟩
        cases v with
        | nil => exact Or.inl (List.cons.inj hv)
        | cons a v => exact Or.inr ⟨v, (List.cons.inj hv).2⟩
      · rintro (⟨rfl, rfl⟩ | ⟨v, rfl⟩)
        · exact ⟨[], rfl⟩
        · exact ⟨b :: v, rfl⟩
    rw [hcons, ← ih, behindSlashes]
    by_cases h : b = slash
    · simp [h, eq_comm]
    · simp [h]

theorem mem_remainders : u ∈ remainders s ↔ ∃ v, s = v ++ u := by
  induction s with
  | nil => simp [remainders]
  | cons b s ih =>
    rw [remainders, List.mem_cons, ih]
    constructor
    · rintro (rfl | ⟨v, rfl⟩)
      · exact ⟨[], rfl⟩
      · exact ⟨b :: v, rfl⟩
    · rintro ⟨v, hv⟩
      cases v with
      | nil => exact Or.inl hv.symm
      | cons a v => exact Or.inr ⟨v, (List.cons.inj hv).2⟩

/-- What is left behind one byte with a property. -/
theorem exists_append_of_byte {P : UInt8 → Prop} {b : UInt8} {r : List UInt8} :
    (∃ w, b :: r = w ++ u ∧ ∃ a, P a ∧ w = [a]) ↔ P b ∧ u = r := by
  constructor
  · rintro ⟨_, hw, a, ha, rfl⟩
    obtain ⟨rfl, rfl⟩ := List.cons.inj hw
    exact ⟨ha, rfl⟩
  · rintro ⟨hb, rfl⟩
    exact ⟨[b], rfl, b, hb, rfl⟩

/-! ## The matcher computes the meaning -/

mutual

/-- What a token leaves is what stands behind a part that the token stands for. -/
theorem mem_tokenRests {u : List UInt8} (s : List UInt8) (t : Token) :
    u ∈ tokenRests s t ↔ ∃ w, s = w ++ u ∧ StandsFor w t := by
  cases t with
  | literal c => simp [tokenRests, StandsFor, mem_behindBytes]
  | anyByte =>
    simp only [StandsFor]
    cases s with
    | nil => simp [tokenRests]
    | cons b r =>
      rw [exists_append_of_byte]
      by_cases h : b = slash <;> simp [tokenRests, h]
  | star => rw [tokenRests, mem_withinComponent]; rfl
  | leadingDirs =>
    rw [tokenRests, List.mem_cons, mem_behindSlashes]
    constructor
    · rintro (rfl | ⟨v, rfl⟩)
      · exact ⟨[], rfl, Or.inl rfl⟩
      · exact ⟨v ++ [slash], by simp, Or.inr ⟨v, rfl⟩⟩
    · rintro ⟨w, rfl, rfl | ⟨v, rfl⟩⟩
      · exact Or.inl rfl
      · exact Or.inr ⟨v, by simp⟩
  | trailingDirs =>
    have hmeaning : (∃ w, s = w ++ u ∧ StandsFor w .trailingDirs) ↔ ∃ v, s = slash :: (v ++ u) := by
      constructor
      · rintro ⟨_, rfl, v, rfl⟩
        exact ⟨v, rfl⟩
      · rintro ⟨v, rfl⟩
        exact ⟨slash :: v, rfl, v, rfl⟩
    rw [hmeaning]
    cases s with
    | nil => simp [tokenRests]
    | cons b r => by_cases h : b = slash <;> simp [tokenRests, h, mem_remainders]
  | innerDirs =>
    have hmeaning : (∃ w, s = w ++ u ∧ StandsFor w .innerDirs) ↔
        s = slash :: u ∨ ∃ v, s = slash :: (v ++ slash :: u) := by
      constructor
      · rintro ⟨_, rfl, rfl | ⟨v, rfl⟩⟩
        · exact Or.inl rfl
        · exact Or.inr ⟨v, by simp⟩
      · rintro (rfl | ⟨v, rfl⟩)
        · exact ⟨[slash], rfl, Or.inl rfl⟩
        · exact ⟨slash :: v ++ [slash], by simp, Or.inr ⟨v, rfl⟩⟩
    rw [hmeaning]
    cases s with
    | nil => simp [tokenRests]
    | cons b r => by_cases h : b = slash <;> simp [tokenRests, h, mem_behindSlashes, eq_comm]
  | oneOf negated ranges =>
    simp only [StandsFor]
    cases s with
    | nil => simp [tokenRests]
    | cons b r =>
      rw [exists_append_of_byte]
      cases h : ranges.any (rangeHas b) != negated <;> simp [tokenRests, h]
  | alternates branches =>
    simp only [tokenRests, StandsFor]
    split
    · simp [eq_comm]
    · exact mem_branchRests s branches

/-- What a sequence leaves is what stands behind a part that the sequence stands for. -/
theorem mem_sequenceRests {u : List UInt8} (ss : List (List UInt8)) (ts : List Token) :
    u ∈ sequenceRests ss ts ↔ ∃ s ∈ ss, ∃ w, s = w ++ u ∧ SequenceStandsFor w ts := by
  cases ts with
  | nil => simp [sequenceRests, SequenceStandsFor]
  | cons t ts =>
    rw [sequenceRests, mem_sequenceRests _ ts]
    simp only [List.mem_eraseDups, List.mem_flatMap, mem_tokenRests _ t]
    constructor
    · rintro ⟨_, ⟨s, hs, v, rfl, hv⟩, v', rfl, hv'⟩
      exact ⟨_, hs, v ++ v', (List.append_assoc v v' u).symm, v, v', rfl, hv, hv'⟩
    · rintro ⟨_, hs, _, rfl, v, v', rfl, hv, hv'⟩
      exact ⟨v' ++ u, ⟨_, hs, v, List.append_assoc v v' u, hv⟩, v', rfl, hv'⟩

theorem mem_branchRests {u : List UInt8} (s : List UInt8) (branches : List (List Token)) :
    u ∈ branchRests s branches ↔ ∃ w, s = w ++ u ∧ BranchStandsFor w branches := by
  cases branches with
  | nil => simp [branchRests, BranchStandsFor]
  | cons b bs =>
    have hb : u ∈ (if isBlankSequence b then [] else sequenceRests [s] b) ↔
        isBlankSequence b = false ∧ ∃ w, s = w ++ u ∧ SequenceStandsFor w b := by
      cases isBlankSequence b with
      | true => simp
      | false =>
        rw [if_neg Bool.false_ne_true, mem_sequenceRests [s] b]
        simp only [List.mem_singleton, exists_eq_left, true_and]
    rw [branchRests, List.mem_append, hb, mem_branchRests s bs]
    constructor
    · rintro (⟨hblank, w, rfl, hw⟩ | ⟨w, rfl, hw⟩)
      · exact ⟨w, rfl, Or.inl ⟨hblank, hw⟩⟩
      · exact ⟨w, rfl, Or.inr hw⟩
    · rintro ⟨w, rfl, ⟨hblank, hw⟩ | hw⟩
      · exact Or.inl ⟨hblank, w, rfl, hw⟩
      · exact Or.inr ⟨w, rfl, hw⟩

end

/-- A glob matches the paths that it stands for; `**` alone matches every path. -/
theorem isMatch_iff {glob : List Token} {path : String} :
    isMatch glob path = true ↔
      glob = [.leadingDirs] ∨ SequenceStandsFor (utf8Bytes path.toList) glob := by
  have hrests : (sequenceRests [utf8Bytes path.toList] glob).contains [] = true ↔
      SequenceStandsFor (utf8Bytes path.toList) glob := by
    rw [List.contains_iff_mem, mem_sequenceRests]
    simp
  rw [← hrests]
  unfold isMatch
  split
  · simp
  · next h => exact ⟨Or.inr, fun hor => hor.resolve_left h⟩

/-! ## Sequences -/

theorem sequenceStandsFor_append {w : List UInt8} {ts ts' : List Token} :
    SequenceStandsFor w (ts ++ ts') ↔
      ∃ v v', w = v ++ v' ∧ SequenceStandsFor v ts ∧ SequenceStandsFor v' ts' := by
  induction ts generalizing w with
  | nil =>
    constructor
    · intro h
      exact ⟨[], w, rfl, rfl, h⟩
    · rintro ⟨_, _, rfl, rfl, h⟩
      exact h
  | cons t ts ih =>
    simp only [List.cons_append, SequenceStandsFor, ih]
    constructor
    · rintro ⟨a, _, rfl, ha, b, c, rfl, hb, hc⟩
      exact ⟨a ++ b, c, (List.append_assoc a b c).symm, ⟨a, b, rfl, ha, hb⟩, hc⟩
    · rintro ⟨_, c, rfl, ⟨a, b, rfl, ha, hb⟩, hc⟩
      exact ⟨a, b ++ c, List.append_assoc a b c, ha, b, c, rfl, hb, hc⟩

/-- Plain text stands for itself. -/
theorem sequenceStandsFor_literals {w : List UInt8} {text : List Char} :
    SequenceStandsFor w (text.map .literal) ↔ w = utf8Bytes text := by
  induction text generalizing w with
  | nil => rfl
  | cons c text ih => simp [SequenceStandsFor, StandsFor, ih]

end SpecLinkage.Glob
