import SpecLinkage.Markdown.Strip
import SpecLinkage.Proofs.Text.Words

/-! # A comment on the first line of a markdown document

A comment of one line at the start of a document is an HTML block of its own: nothing of it lies in
a fenced code block, whatever follows it, so it stays when the fenced code is removed.

* `LineResult.From`: what a line opens and completes starts at some byte or behind it.
  `from_continueLeaf` is the step, and `from_fencedFrom` the document.
* `continueLeaf_comment`: a comment line opens and completes nothing.
* `toList_stripFenced_comment` is the result. -/

namespace SpecLinkage.Markdown

open Text

variable {lo offset : Nat} {s : List Char}

/-! ## Where fenced blocks start -/

/-- An open fence starts at byte `lo` or behind it. -/
def Leaf.From (lo : Nat) : Leaf → Prop
  | fence _ _ _ start => lo ≤ start
  | _ => True

/-- A line opens and completes no fenced block that starts before byte `lo`. -/
structure LineResult.From (lo : Nat) (r : LineResult) : Prop where
  leaf : r.state.leaf.From lo
  range : ∀ x ∈ r.range, lo ≤ x.1

theorem from_startLeaf (h : lo ≤ offset) (s : List Char) (cs : List Container) (c : Cursor) :
    (startLeaf offset s cs c).From lo := by
  have hplain : ∀ leaf consumed, leaf.From lo →
      LineResult.From lo ⟨{ containers := cs, leaf }, consumed, none⟩ :=
    fun leaf consumed hleaf => ⟨hleaf, by rintro x ⟨⟩⟩
  unfold startLeaf
  dsimp only
  split
  · exact hplain _ _ trivial
  · split
    · next leaf hleaf =>
      refine hplain _ _ ?_
      split at hleaf
      · split at hleaf
        · obtain rfl := Option.some.inj hleaf
          split <;> trivial
        · split at hleaf
          · obtain rfl := Option.some.inj hleaf
            trivial
          · cases hleaf
      · cases hleaf
    · split
      · exact hplain _ _ trivial
      · split
        · exact hplain _ _ (Nat.le_trans h (Nat.le_add_right _ _))
        · exact hplain _ _ trivial

theorem from_startBlock (h : lo ≤ offset) (s : List Char) (st : BlockState) :
    (startBlock offset s st).From lo := by
  unfold startBlock
  dsimp only
  split
  · exact ⟨trivial, by rintro x ⟨⟩⟩
  · split
    · exact ⟨trivial, by rintro x ⟨⟩⟩
    · exact from_startLeaf h _ _ _

/-- A line does not reach back behind the fence that is open before it. -/
theorem from_continueLeaf (h : lo ≤ offset) (s : List Char) {st : BlockState}
    (hst : st.leaf.From lo) : (continueLeaf offset s st).From lo := by
  have hkeep : ∀ consumed, LineResult.From lo ⟨st, consumed, none⟩ := fun _ => ⟨hst, by rintro x ⟨⟩⟩
  have hclose : ∀ consumed, LineResult.From lo ⟨{ st with leaf := .none }, consumed, none⟩ :=
    fun _ => ⟨trivial, by rintro x ⟨⟩⟩
  unfold continueLeaf
  dsimp only
  -- one case for each leaf that may be open
  split
  · exact from_startBlock h _ _
  · next mark length indent start hleaf =>
    have hstart : lo ≤ start := by rwa [hleaf] at hst
    split
    · split
      · exact ⟨trivial, by rintro x ⟨⟩; exact hstart⟩
      · exact hkeep _
    · exact ⟨(from_startBlock h _ _).leaf, by rintro x ⟨⟩; exact hstart⟩
  · split
    · split
      · exact hclose _
      · exact hkeep _
    · exact from_startBlock h _ _
  · split
    · exact hkeep _
    · exact from_startBlock h _ _
  · split
    · exact hclose _
    · split
      · exact from_startBlock h _ _
      · split
        · exact from_startBlock h _ _
        · exact hkeep _

/-- In the rest of a document no fenced block starts before the rest does, or the open fence. -/
theorem from_fencedFrom (fuel : Nat) (h : lo ≤ offset) (s : List Char) {st : BlockState}
    (hst : st.leaf.From lo) : ∀ x ∈ fencedFrom fuel offset st s, lo ≤ x.1 := by
  -- on the number of lines; the open leaf carries the bound from one line to the next
  induction fuel generalizing offset st s with
  | zero => rintro x ⟨⟩
  | succ fuel ih =>
    cases s with
    | nil =>
      intro x hx
      simp only [fencedFrom] at hx
      split at hx
      · next hleaf =>
        obtain rfl := List.mem_singleton.1 hx
        rwa [hleaf] at hst
      · cases hx
    | cons c s =>
      have hline := from_continueLeaf h (c :: s) hst
      intro x hx
      simp only [fencedFrom, List.mem_append, Option.mem_toList] at hx
      rcases hx with hx | hx
      · exact hline.range x hx
      · exact ih (Nat.le_trans h (Nat.le_add_right _ _)) _ hline.leaf x hx

/-- What lies before all ranges is kept. -/
theorem exists_blankRanges {ranges : List (Nat × Nat)} {s : List Char}
    (h : ∀ x ∈ ranges, offset + utf8Length s ≤ x.1) (t : List Char) :
    ∃ t', blankRanges ranges offset (s ++ t) = s ++ t' := by
  induction s generalizing ranges offset with
  | nil => exact ⟨_, rfl⟩
  | cons c s ih =>
    let next := ranges.dropWhile fun r => r.2 ≤ offset
    have hnext : ∀ x ∈ next, offset + c.utf8Size + utf8Length s ≤ x.1 := by
      intro x hx
      have hx := h x ((List.dropWhile_sublist _).subset hx)
      rw [utf8Length_cons] at hx
      omega
    have houtside : (next.head?.any fun r => r.1 ≤ offset && offset < r.2) = false := by
      rw [Option.any_eq_false]
      intro x hx
      have hx := hnext x (List.mem_of_mem_head? hx)
      have hsize := c.utf8Size_pos
      have hlt : ¬x.1 ≤ offset := by omega
      simp [hlt]
    obtain ⟨t', ht'⟩ := ih hnext
    refine ⟨t', ?_⟩
    rw [List.cons_append, blankRanges]
    simp only [next] at houtside ht'
    simp only [houtside, Bool.false_and, Bool.false_eq_true, if_false, ht', List.cons_append]

/-! ## Comments -/

/-- A comment of one line. -/
def commentLine (body : List Char) : List Char := "<!--".toList ++ (body ++ "-->".toList)

variable {body : List Char}

theorem newline_notMem_commentLine (h : '\n' ∉ body) : '\n' ∉ commentLine body := by
  simp [commentLine, h]

theorem lineLength_append {line : List Char} (h : '\n' ∉ line) (rest : List Char) :
    lineLength (line ++ '\n' :: rest) = line.length + 1 := by
  have htake : (line ++ '\n' :: rest).takeWhile (· != '\n') = line :=
    takeWhile_of_stop (fun c hc => bne_iff_ne.2 fun heq => h (heq ▸ hc)) (by rintro _ ⟨⟩; rfl)
  rw [lineLength, htake]
  simp

theorem take_line (line rest : List Char) :
    (line ++ '\n' :: rest).take (line.length + 1) = line ++ ['\n'] := by
  have htext : line ++ '\n' :: rest = (line ++ ['\n']) ++ rest := by simp
  rw [htext, List.take_left' (by simp)]

theorem htmlCloser?_comment (s : List Char) :
    htmlCloser? ("!--".toList ++ s) = some "-->".toList := by
  have hraw : rawCloser? ("!--".toList ++ s) = none := by
    rw [rawCloser?, List.findSome?_eq_none_iff]
    intro name hname
    simp only [rawElements, List.mem_cons, List.not_mem_nil, or_false] at hname
    rcases hname with rfl | rfl | rfl | rfl <;> simp
  unfold htmlCloser?
  simp only [hraw]
  simp only [startsWith, stripPrefix?_append, Option.isSome_some, if_true]

/-- No container opens at a `<`. -/
theorem openContainers_tag (fuel : Nat) (s : List Char) :
    openContainers fuel ⟨'<' :: s, 0, 0⟩ [] = (⟨'<' :: s, 0, 0⟩, [], false) := by
  cases fuel with
  | zero => rfl
  | succ fuel =>
    have hmarker : listMarker? ⟨'<' :: s, 0, 0⟩ = none := rfl
    have hquote : quoteMarker? ⟨'<' :: s, 0, 0⟩ = none := rfl
    have hindent : (Cursor.skipUpTo 4 ⟨'<' :: s, 0, 0⟩).1 = 0 := rfl
    simp [openContainers, hmarker, hquote, hindent]

/-- At the start of a document a comment line is a block of its own. -/
theorem continueLeaf_comment (h : '\n' ∉ body) (offset : Nat) (rest : List Char) :
    continueLeaf offset (commentLine body ++ '\n' :: rest) {} =
      ⟨{}, (commentLine body).length + 1, none⟩ := by
  have hlength := lineLength_append (newline_notMem_commentLine h) rest
  have hclosed : occursIn "-->".toList
      ((commentLine body ++ '\n' :: rest).take ((commentLine body).length + 1)) = true := by
    rw [take_line, commentLine, ← List.append_assoc, List.append_assoc]
    exact occursIn_append _ _ _
  have htext : commentLine body ++ '\n' :: rest =
      '<' :: ("!--".toList ++ (body ++ ("-->".toList ++ '\n' :: rest))) := by
    simp [commentLine]
  have hcloser := htmlCloser?_comment (body ++ ("-->".toList ++ '\n' :: rest))
  rw [htext] at hlength hclosed ⊢
  generalize "!--".toList ++ (body ++ ("-->".toList ++ '\n' :: rest)) = t at *
  have hblank : blankToEnd ('<' :: t) = false := rfl
  have hskip : Cursor.skipUpTo 4 ⟨'<' :: t, 0, 0⟩ = (0, ⟨'<' :: t, 0, 0⟩) := rfl
  simp only [continueLeaf, startBlock, matchContainers, List.take_nil, openContainers_tag, hblank,
    Bool.false_eq_true, if_false, startLeaf, hskip, hcloser, hlength, hclosed, if_true]
  rfl

/-- No fenced block starts in a comment line at the start of a document. -/
theorem from_fencedRanges_comment (h : '\n' ∉ body) (rest : List Char) :
    ∀ x ∈ fencedRanges (commentLine body ++ '\n' :: rest),
      utf8Length (commentLine body ++ ['\n']) ≤ x.1 := by
  have hline := continueLeaf_comment h 0 rest
  have hsplit := take_line (commentLine body) rest
  intro x hx
  rw [fencedRanges] at hx
  obtain ⟨c, s, hs⟩ := List.exists_cons_of_ne_nil
    (List.append_ne_nil_of_right_ne_nil (commentLine body) (List.cons_ne_nil '\n' rest))
  rw [hs] at hx hline hsplit
  simp only [fencedFrom, hline, Option.toList_none, List.nil_append] at hx
  rw [Nat.max_eq_left (Nat.le_add_left 1 _), hsplit, Nat.zero_add] at hx
  have hnone : Leaf.none.From (utf8Length (commentLine body ++ ['\n'])) := trivial
  exact from_fencedFrom _ (Nat.le_refl _) _ hnone x hx

/-- A comment line at the start of a document stays when the fenced code is removed. -/
theorem toList_stripFenced_comment (h : '\n' ∉ body) (rest : List Char) :
    ∃ rest', (stripFenced (String.ofList (commentLine body ++ '\n' :: rest))).toList =
      commentLine body ++ '\n' :: rest' := by
  have hranges : ∀ x ∈ fencedRanges (commentLine body ++ '\n' :: rest),
      0 + utf8Length (commentLine body ++ ['\n']) ≤ x.1 := by
    simpa only [Nat.zero_add] using from_fencedRanges_comment h rest
  obtain ⟨rest', hrest⟩ := exists_blankRanges hranges rest
  refine ⟨rest', ?_⟩
  rw [stripFenced, String.toList_ofList, String.toList_ofList]
  simpa using hrest

end SpecLinkage.Markdown
