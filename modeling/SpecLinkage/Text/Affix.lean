import SpecLinkage.Text.Blank

/-! # Prefixes, suffixes and separators

Cutting a text at a known prefix or suffix, or at a separator character.

* `stripPrefix? p s` and `stripSuffix? p s` are what is left of `s` without the affix `p`.
* `splitFirst? c s` and `splitLast? c s` cut `s` at the first and at the last `c`,
  dropping that `c`; both fail exactly when `s` has no `c`.
* `splitAll c s` cuts at every `c`; the pieces joined by `c` give back `s`. -/

namespace SpecLinkage.Text

/-- What follows the prefix `p` in `s`, if `s` starts with `p`. -/
def stripPrefix? : (p s : List Char) → Option (List Char)
  | [], s => some s
  | _ :: _, [] => none
  | a :: p, c :: s => if a = c then stripPrefix? p s else none

/-- What precedes the suffix `p` in `s`, if `s` ends with `p`. -/
def stripSuffix? (p s : List Char) : Option (List Char) :=
  (stripPrefix? p.reverse s.reverse).map List.reverse

def startsWith (p s : List Char) : Bool := (stripPrefix? p s).isSome

def endsWith (p s : List Char) : Bool := (stripSuffix? p s).isSome

/-- `s` without the suffix `p`, or `s` itself. -/
def dropSuffix (p s : List Char) : List Char := (stripSuffix? p s).getD s

/-- `s` without the prefix `p`, or `s` itself. -/
def dropPrefix (p s : List Char) : List Char := (stripPrefix? p s).getD s

/-- Whether `p` occurs somewhere in `s`. -/
def occursIn (p : List Char) : List Char → Bool
  | [] => p.isEmpty
  | c :: s => startsWith p (c :: s) || occursIn p s

/-- The texts before and after the first `c`. -/
def splitFirst? (c : Char) : List Char → Option (List Char × List Char)
  | [] => none
  | x :: s =>
    if x = c then some ([], s) else (splitFirst? c s).map fun (a, b) => (x :: a, b)

/-- The texts before and after the last `c`. -/
def splitLast? (c : Char) : List Char → Option (List Char × List Char)
  | [] => none
  | x :: s =>
    match splitLast? c s with
    | some (a, b) => some (x :: a, b)
    | none => if x = c then some ([], s) else none

/-- The pieces between the occurrences of `c`; there is always at least one. -/
def splitAll (c : Char) : List Char → List (List Char)
  | [] => [[]]
  | x :: s =>
    if x = c then [] :: splitAll c s
    else match splitAll c s with
      | [] => [[x]]
      | piece :: pieces => (x :: piece) :: pieces

/-! ## Lemmas -/

theorem stripPrefix?_eq_some_iff {p s r : List Char} :
    stripPrefix? p s = some r ↔ s = p ++ r := by
  induction p generalizing s with
  | nil => simp [stripPrefix?]
  | cons a p ih =>
    cases s with
    | nil => simp [stripPrefix?]
    | cons c s =>
      by_cases h : a = c
      · subst h; simp [stripPrefix?, ih]
      · simp [stripPrefix?, h, Ne.symm h]

theorem stripPrefix?_append (p r : List Char) : stripPrefix? p (p ++ r) = some r :=
  stripPrefix?_eq_some_iff.2 rfl

theorem stripSuffix?_eq_some_iff {p s r : List Char} :
    stripSuffix? p s = some r ↔ s = r ++ p := by
  unfold stripSuffix?
  rw [Option.map_eq_some_iff]
  constructor
  · rintro ⟨t, ht, rfl⟩
    have := stripPrefix?_eq_some_iff.1 ht
    have := congrArg List.reverse this
    simpa using this
  · rintro rfl
    exact ⟨r.reverse, by rw [List.reverse_append, stripPrefix?_append], by simp⟩

theorem startsWith_iff {p s : List Char} : startsWith p s = true ↔ ∃ r, s = p ++ r := by
  simp [startsWith, Option.isSome_iff_exists, stripPrefix?_eq_some_iff]

theorem endsWith_iff {p s : List Char} : endsWith p s = true ↔ ∃ r, s = r ++ p := by
  simp [endsWith, Option.isSome_iff_exists, stripSuffix?_eq_some_iff]

/-- A cut at the first `c` gives back the text, and there is no `c` before it. -/
theorem splitFirst?_eq_some_iff {c : Char} {s a b : List Char} :
    splitFirst? c s = some (a, b) ↔ s = a ++ c :: b ∧ c ∉ a := by
  induction s generalizing a with
  | nil => simp [splitFirst?]
  | cons x s ih =>
    by_cases h : x = c
    · subst h
      simp only [splitFirst?, if_true, Option.some.injEq, Prod.mk.injEq]
      constructor
      · rintro ⟨rfl, rfl⟩; simp
      · rintro ⟨he, hn⟩
        cases a with
        | nil => simpa using he
        | cons y a => simp at he; simp [he.1] at hn
    · rw [splitFirst?, if_neg h, Option.map_eq_some_iff]
      constructor
      · rintro ⟨⟨a', b'⟩, h', he⟩
        obtain ⟨rfl, rfl⟩ := Prod.mk.inj he
        obtain ⟨rfl, hn⟩ := ih.1 h'
        exact ⟨rfl, by simp [Ne.symm h, hn]⟩
      · rintro ⟨he, hn⟩
        cases a with
        | nil => exact absurd (List.cons.inj he).1 h
        | cons y a =>
          obtain ⟨rfl, rfl⟩ := List.cons.inj he
          exact ⟨(a, b), ih.2 ⟨rfl, fun m => hn (List.mem_cons_of_mem _ m)⟩, rfl⟩

theorem splitFirst?_eq_none_iff {c : Char} {s : List Char} :
    splitFirst? c s = none ↔ c ∉ s := by
  induction s with
  | nil => simp [splitFirst?]
  | cons x s ih =>
    by_cases h : x = c
    · simp [splitFirst?, h]
    · simp [splitFirst?, h, ih, Ne.symm h]

theorem splitLast?_eq_none_iff {c : Char} {s : List Char} :
    splitLast? c s = none ↔ c ∉ s := by
  induction s with
  | nil => simp [splitLast?]
  | cons x s ih =>
    by_cases h : x = c
    · subst h
      simp only [splitLast?, if_true, List.mem_cons, true_or, not_true_eq_false, iff_false]
      split <;> simp
    · by_cases hs : splitLast? c s = none
      · simp [splitLast?, hs, h, Ne.symm h, ih.1 hs]
      · obtain ⟨⟨a, b⟩, hab⟩ := Option.ne_none_iff_exists'.1 hs
        have : c ∈ s := by
          by_cases m : c ∈ s
          · exact m
          · exact absurd (ih.2 m) hs
        simp [splitLast?, hab, this]

/-- A cut at the last `c` gives back the text, and there is no `c` after it. -/
theorem splitLast?_eq_some_iff {c : Char} {s a b : List Char} :
    splitLast? c s = some (a, b) ↔ s = a ++ c :: b ∧ c ∉ b := by
  induction s generalizing a b with
  | nil => simp [splitLast?]
  | cons x s ih =>
    by_cases hs : splitLast? c s = none
    · have hn := splitLast?_eq_none_iff.1 hs
      by_cases h : x = c
      · subst h
        simp only [splitLast?, hs, if_true, Option.some.injEq, Prod.mk.injEq]
        constructor
        · rintro ⟨rfl, rfl⟩; exact ⟨rfl, hn⟩
        · rintro ⟨he, _⟩
          cases a with
          | nil => simpa using he
          | cons y a => simp at he; simp [he.2] at hn
      · simp only [splitLast?, hs, if_neg h, reduceCtorEq, false_iff]
        rintro ⟨he, _⟩
        cases a with
        | nil => simp at he; exact h he.1
        | cons y a => simp at he; simp [he.2] at hn
    · obtain ⟨⟨a', b'⟩, hab⟩ := Option.ne_none_iff_exists'.1 hs
      simp only [splitLast?, hab, Option.some.injEq, Prod.mk.injEq]
      have hab' := ih.1 hab
      constructor
      · rintro ⟨rfl, rfl⟩; exact ⟨by simp [hab'.1], hab'.2⟩
      · rintro ⟨he, hn⟩
        cases a with
        | nil =>
          simp at he
          rw [← he.2] at hn
          exact absurd (by simp [hab'.1]) hn
        | cons y a =>
          simp at he
          obtain ⟨rfl, rfl⟩ := he
          have := ih.2 ⟨rfl, hn⟩
          rw [hab] at this
          simpa using this

theorem splitAll_ne_nil (c : Char) (s : List Char) : splitAll c s ≠ [] := by
  cases s with
  | nil => simp [splitAll]
  | cons x s =>
    unfold splitAll
    split
    · simp
    · split <;> simp

/-- The pieces joined by the separator give back the text. -/
theorem intercalate_splitAll (c : Char) (s : List Char) :
    [c].intercalate (splitAll c s) = s := by
  induction s with
  | nil => rfl
  | cons x s ih =>
    unfold splitAll
    split
    · next h =>
      subst h
      cases hs : splitAll x s with
      | nil => exact absurd hs (splitAll_ne_nil x s)
      | cons p ps => rw [← ih, hs]; simp [List.intercalate]
    · cases hs : splitAll c s with
      | nil => exact absurd hs (splitAll_ne_nil c s)
      | cons p ps =>
        rw [hs] at ih
        cases ps with
        | nil => simpa [List.intercalate] using ih
        | cons q ps => rw [← ih]; simp [List.intercalate]

/-- Splitting a text joined from two parts by the separator splits each part. -/
theorem splitAll_append_cons (c : Char) (a b : List Char) :
    splitAll c (a ++ c :: b) = splitAll c a ++ splitAll c b := by
  induction a with
  | nil => simp [splitAll]
  | cons x a ih =>
    by_cases h : x = c
    · simp [splitAll, h, ih]
    · simp only [List.cons_append, splitAll, if_neg h, ih]
      cases hs : splitAll c a with
      | nil => exact absurd hs (splitAll_ne_nil c a)
      | cons p ps => rfl

end SpecLinkage.Text
