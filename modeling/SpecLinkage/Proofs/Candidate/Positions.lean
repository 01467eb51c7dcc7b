import Mathlib.Data.List.Basic
import SpecLinkage.Proofs.Candidate.Spans
import SpecLinkage.Proofs.Text.Slices

/-! # Reading by positions

The readers of the scan once more, as they go over a text in place: each of them is given the byte
at which it starts, takes slices of the text, and gives back the byte at which it stops.  The outer
`Option` is `none` if a slice that it takes is not there.

* `headAt?`, `verbAt?`, `tailAt?` and `clauseAt?` are in the place of `readHead`, `readVerb`,
  `readTail` and `readClause`; `commentStart?` is in the place of `commentText?`.
* `headAt?_place`, `verbAt?_place`, `tailAt?_place`, `clauseAt?_place`: at the byte where an end of
  the text starts each of them reads what its counterpart reads from that end.
* `tagAt?_append`: so does the reader of one TAG.
* `commentStart?_eq`: the comment of a line starts at the first of its markers. -/

namespace SpecLinkage.Candidate

open Text

/-! ## Readers -/

/-- The first byte from `pos` on at which no blank stands. -/
def skipBlanks? (text : List Char) (pos : Nat) : Option Nat := do
  let rest ← sliceFrom? pos text
  some (pos + (utf8Length rest - utf8Length (trimStart rest)))

/-- The byte behind the word at byte `pos`. -/
def wordEnd? (text : List Char) (pos : Nat) : Option Nat := do
  let rest ← sliceFrom? pos text
  some (pos + (byteOf? isBlank rest).getD (utf8Length text - pos))

/-- The byte behind the separator at byte `pos`, if there is one; a blank is skipped later. -/
def separatorAt? (text : List Char) (pos : Nat) : Option (Option Nat) := do
  let rest ← sliceFrom? pos text
  match rest with
  | [] => some none
  | c :: _ => some (if c = ':' then some (pos + 1) else if isBlank c then some pos else none)

/-- Keyword and identifier behind the `@` at byte `start`, and the byte behind them. -/
def headAt? (text : List Char) (start : Nat) : Option (Option ((Keyword × List Char) × Nat)) := do
  let rest ← sliceFrom? (start + 1) text
  let length := utf8Length (rest.takeWhile Char.isUpper)
  let upper ← sliceTo? length rest
  match Keyword.ofText? (String.ofList upper) with
  | none => some none
  | some keyword =>
    let separator ← separatorAt? text (start + 1 + length)
    match separator with
    | none => some none
    | some pos =>
      let first ← skipBlanks? text pos
      let stop ← wordEnd? text first
      let token ← slice? first stop text
      let id := trimToken token
      some (if id = [] then none else some ((keyword, id), stop))

/-- What stands in the place of the verb, by positions. -/
inductive VerbPlace
  | absent
  /-- A verb, and the byte behind it. -/
  | written (verb : List Char) (stop : Nat)
  | prose

/-- The word behind byte `pos`, if it is a verb. -/
def verbAt? (text : List Char) (pos : Nat) : Option VerbPlace := do
  let first ← skipBlanks? text pos
  let stop ← wordEnd? text first
  let word ← slice? first stop text
  if word ≠ [] ∧ word.all Char.isLower = true then
    let next ← skipBlanks? text stop
    let rest ← sliceFrom? next text
    some (if (Verb.ofText? (String.ofList word)).isSome || endsClause rest then .written word stop
      else .prose)
  else some .absent

/-- The description behind byte `pos`, and the byte behind what belongs to the TAG. -/
def tailAt? (text : List Char) (pos : Nat) : Option (Option (List Char) × Nat) := do
  let first ← skipBlanks? text pos
  let rest ← sliceFrom? first text
  if isCloser rest then some (none, utf8Length text)
  else if startsWithDash rest then
    let d := trim (trimClosers (rest.dropWhile isDash))
    some (if d = [] then none else some d, utf8Length text)
  else some (none, pos)

/-- One TAG behind the `@` at byte `start`, and the byte behind it. -/
def clauseAt? (text : List Char) (start : Nat) : Option (Option (Clause × Nat)) := do
  let head ← headAt? text start
  match head with
  | none => some none
  | some ((keyword, id), pos) =>
    let clause (verb description : Option (List Char)) : Clause :=
      { keyword, specId := String.ofList id, verb := verb.map String.ofList,
        description := description.map String.ofList }
    let verb ← verbAt? text pos
    match verb with
    | .prose => some (some (clause none none, pos))
    | .absent =>
      let (description, stop) ← tailAt? text pos
      some (some (clause none description, stop))
    | .written verb pos =>
      let (description, stop) ← tailAt? text pos
      some (some (clause (some verb) description, stop))

/-- The TAG at the `@` at byte `start`.  In `user@HOST` there is none. -/
def tagAt? (text : List Char) (start : Nat) : Option (Option (Clause × Nat)) := do
  let before ← sliceTo? start text
  if opensTag before.getLast? then clauseAt? text start else some none

/-- The byte at which the comment of a line starts. -/
def commentStart? (line : List Char) : Option Nat :=
  match trimStart line with
  | '*' :: s => some (utf8Length line - utf8Length ('*' :: s))
  | _ => (commentMarkers.filterMap fun m => occurrence? m line).min?

/-! ## What the readers read -/

variable {text s t : List Char}

theorem skipBlanks?_place (h : s <:+ text) :
    skipBlanks? text (place text s) = some (place text (trimStart s)) := by
  obtain ⟨u, hu⟩ := trimStart_suffix s
  have hplace : place text s + (utf8Length s - utf8Length (trimStart s)) =
      place text (trimStart s) := by
    have hadd := place_add (u := u) (hu.symm ▸ h)
    have hlength := congrArg utf8Length hu
    rw [hu] at hadd
    rw [utf8Length_append] at hlength
    omega
  rw [skipBlanks?, sliceFrom?_place h]
  exact congrArg some hplace

theorem place_afterWord (h : s <:+ text) :
    place text s + utf8Length (word s) = place text (afterWord s) := by
  have hadd := place_add (u := word s) ((word_append_afterWord s).symm ▸ h)
  rwa [word_append_afterWord] at hadd

/-- A word ends before the first blank. -/
theorem byteOf?_isBlank (s : List Char) :
    (byteOf? isBlank s).getD (utf8Length s) = utf8Length (word s) := by
  rcases hs : afterWord s with _ | ⟨c, t⟩
  · have hword : word s = s := by
      have happend := word_append_afterWord s
      rwa [hs, List.append_nil] at happend
    rw [byteOf?_none fun c hc => isBlank_word c (hword.symm ▸ hc), Option.getD_none, hword]
  · have hblank : isBlank c = true := startsBlank_afterWord s c (by rw [hs]; rfl)
    have hbyte := byteOf?_append (u := word s) isBlank_word hblank t
    rw [← hs, word_append_afterWord] at hbyte
    rw [hbyte, Option.getD_some]

theorem wordEnd?_place (h : s <:+ text) :
    wordEnd? text (place text s) = some (place text (afterWord s)) := by
  have hlength : utf8Length text - place text s = utf8Length s := by
    obtain ⟨u, rfl⟩ := h
    rw [place_append, utf8Length_append, Nat.add_sub_cancel_left]
  rw [wordEnd?, sliceFrom?_place h, ← place_afterWord h, ← byteOf?_isBlank, ← hlength]
  rfl

theorem slice?_word (h : s <:+ text) :
    slice? (place text s) (place text (afterWord s)) text = some (word s) := by
  have hslice := slice?_place (u := word s) ((word_append_afterWord s).symm ▸ h)
  rwa [word_append_afterWord] at hslice

theorem separatorAt?_place (h : s <:+ text) :
    separatorAt? text (place text s) = some ((readSeparator s).map (place text)) := by
  rw [separatorAt?, sliceFrom?_place h]
  cases s with
  | nil => rfl
  | cons c t =>
    have hcons := place_cons h
    show some (if c = ':' then some (place text (c :: t) + 1) else _) = _
    rw [readSeparator]
    by_cases hc : c = ':'
    · subst hc
      rw [if_pos rfl, if_pos rfl, Option.map_some, ← hcons]
      rfl
    · rw [if_neg hc, if_neg hc]
      split <;> rfl

/-- The head is read as from the text behind the `@`. -/
theorem headAt?_place (h : '@' :: s <:+ text) :
    headAt? text (place text ('@' :: s)) =
      some ((readHead s).map fun x => (x.1, place text x.2)) := by
  have hs : s <:+ text := (List.suffix_cons '@' s).trans h
  have hstart : place text ('@' :: s) + 1 = place text s := place_cons h
  have hupper : s.takeWhile Char.isUpper ++ s.dropWhile Char.isUpper = s :=
    List.takeWhile_append_dropWhile
  have hseparator : place text s + utf8Length (s.takeWhile Char.isUpper) =
      place text (s.dropWhile Char.isUpper) := by
    have hadd := place_add (u := s.takeWhile Char.isUpper) (hupper.symm ▸ hs)
    rwa [hupper] at hadd
  have hslice : sliceTo? (utf8Length (s.takeWhile Char.isUpper)) s =
      some (s.takeWhile Char.isUpper) := by
    have hto := sliceTo?_append (s.takeWhile Char.isUpper) (s.dropWhile Char.isUpper)
    rwa [hupper] at hto
  have hdrop : s.dropWhile Char.isUpper <:+ text := (List.dropWhile_suffix _).trans hs
  simp only [headAt?, hstart, sliceFrom?_place hs, hslice, hseparator, separatorAt?_place hdrop,
    Option.bind_eq_bind, Option.bind_some, readHead]
  cases Keyword.ofText? (String.ofList (s.takeWhile Char.isUpper)) with
  | none => rfl
  | some keyword =>
    cases ht : readSeparator (s.dropWhile Char.isUpper) with
    | none => rfl
    | some t =>
      have htrim : trimStart t <:+ text :=
        (trimStart_suffix t).trans ((readSeparator_suffix ht).trans hdrop)
      simp only [Option.map_some, skipBlanks?_place ((readSeparator_suffix ht).trans hdrop),
        wordEnd?_place htrim, slice?_word htrim, Option.bind_some]
      split <;> rfl

/-- What stands in the place of the verb, with the byte behind it. -/
def VerbPart.placed (text : List Char) : VerbPart → VerbPlace
  | .absent => .absent
  | .written verb rest => .written verb (place text rest)
  | .prose => .prose

theorem verbAt?_place (h : s <:+ text) :
    verbAt? text (place text s) = some ((readVerb s).placed text) := by
  have hword : trimStart s <:+ text := (trimStart_suffix s).trans h
  have hafter : afterWord (trimStart s) <:+ text := (afterWord_suffix _).trans hword
  have hnext : trimStart (afterWord (trimStart s)) <:+ text := (trimStart_suffix _).trans hafter
  simp only [verbAt?, skipBlanks?_place h, wordEnd?_place hword, slice?_word hword,
    skipBlanks?_place hafter, sliceFrom?_place hnext, Option.bind_eq_bind, Option.bind_some,
    readVerb]
  split
  · split <;> rfl
  · rfl

theorem tailAt?_place (h : s <:+ text) :
    tailAt? text (place text s) = some ((readTail s).1, place text (readTail s).2) := by
  have hstart : trimStart s <:+ text := (trimStart_suffix s).trans h
  simp only [tailAt?, skipBlanks?_place h, sliceFrom?_place hstart, Option.bind_eq_bind,
    Option.bind_some, readTail]
  split
  · rfl
  · split <;> rfl

theorem clauseAt?_place (h : '@' :: s <:+ text) :
    clauseAt? text (place text ('@' :: s)) =
      some ((readClause s).map fun x => (x.1, place text x.2)) := by
  have hs : s <:+ text := (List.suffix_cons '@' s).trans h
  rw [clauseAt?, headAt?_place h, readClause]
  cases hhead : readHead s with
  | none => rfl
  | some x =>
    obtain ⟨⟨keyword, id⟩, rest⟩ := x
    have hrest : rest <:+ text := (readHead_suffix hhead).trans hs
    simp only [Option.map_some, Option.bind_eq_bind, Option.bind_some, verbAt?_place hrest]
    cases hverb : readVerb rest with
    | prose => rfl
    | absent => simp only [VerbPart.placed, tailAt?_place hrest, Option.bind_some, Option.map_some]
    | written verb rest' =>
      simp only [VerbPart.placed, tailAt?_place ((readVerb_suffix hverb).trans hrest),
        Option.bind_some, Option.map_some]

theorem tagAt?_append (u s : List Char) :
    tagAt? (u ++ '@' :: s) (utf8Length u) =
      some (if opensTag u.getLast? then
        (readClause s).map fun x => (x.1, place (u ++ '@' :: s) x.2) else none) := by
  have hclause := clauseAt?_place (List.suffix_append u ('@' :: s))
  rw [place_append] at hclause
  simp only [tagAt?, sliceTo?_append, Option.bind_eq_bind, Option.bind_some, hclause]
  split <;> rfl

/-- The first of the markers, each searched on its own, is where the comment starts. -/
theorem min?_occurrence? (s : List Char) :
    (commentMarkers.filterMap fun m => occurrence? m s).min? = (fromMarker? s).map (place s) := by
  -- along the line, while no marker starts
  induction s with
  | nil => rfl
  | cons c s ih =>
    rw [fromMarker?]
    split
    · next hany =>
      obtain ⟨m, hm, hstarts⟩ := List.any_eq_true.1 hany
      have hzero : occurrence? m (c :: s) = some 0 := by rw [occurrence?, if_pos hstarts]
      refine (List.min?_eq_some_iff).2 ⟨List.mem_filterMap.2 ⟨m, hm, ?_⟩, fun b _ => ?_⟩
      · rw [hzero, place, Nat.sub_self]
      · rw [place, Nat.sub_self]
        exact Nat.zero_le b
    · next hany =>
      have hlater : (commentMarkers.filterMap fun m => occurrence? m (c :: s)) =
          (commentMarkers.filterMap fun m => occurrence? m s).map (c.utf8Size + ·) := by
        rw [List.map_filterMap]
        refine List.filterMap_congr fun m hm => ?_
        rw [occurrence?, if_neg fun h => hany (List.any_eq_true.2 ⟨m, hm, h⟩)]
      rw [hlater]
      cases hmarker : fromMarker? s with
      | none =>
        rw [hmarker, Option.map_none, List.min?_eq_none_iff] at ih
        rw [ih]
        rfl
      | some t =>
        rw [hmarker, Option.map_some, List.min?_eq_some_iff] at ih
        have hplace : place (c :: s) t = c.utf8Size + place s t :=
          place_behind [c] (fromMarker?_suffix hmarker)
        rw [Option.map_some, List.min?_eq_some_iff, hplace]
        refine ⟨List.mem_map_of_mem ih.1, ?_⟩
        intro n hn
        obtain ⟨b, hb, rfl⟩ := List.mem_map.1 hn
        exact Nat.add_le_add_left (ih.2 b hb) _

theorem commentStart?_eq (line : List Char) :
    commentStart? line = (commentText? line).map (place line) := by
  by_cases hstar : ∃ s, trimStart line = '*' :: s
  · obtain ⟨s, hs⟩ := hstar
    simp only [commentStart?, commentText?, hs]
    rfl
  · have hstart : commentStart? line =
        (commentMarkers.filterMap fun m => occurrence? m line).min? := by
      unfold commentStart?
      split
      · next s hs => exact absurd ⟨s, hs⟩ hstar
      · rfl
    have htext : commentText? line = fromMarker? line := by
      unfold commentText?
      split
      · next s hs => exact absurd ⟨s, hs⟩ hstar
      · rfl
    rw [hstart, htext, min?_occurrence?]

end SpecLinkage.Candidate
