import SpecLinkage.Markdown.Strip
import SpecLinkage.Proofs.Candidate.Spans
import SpecLinkage.Proofs.Text.Bytes

/-! # What is left when the fenced code is removed

For any ranges that a reader of blocks may report, a document without its blocks has the same lines,
the bytes outside of the blocks, and the TAGs that start outside of them.

* `BlockRanges` says what is assumed of the ranges.
* `blankRanges_eq`: the cursor over the ranges runs in step with the characters, so a character is
  removed exactly if it lies in some range.
* `BlockRanges.line`: a line is free of blocks, or all of its `@` lie in blocks.
* `utf8Bytes_blanked` and `scanFrom_blanked`: bytes and candidates, from any place on.
* `blankRanges_exact` is the result; `stripFenced` is the case of the ranges of `fencedRanges`. -/

namespace SpecLinkage.Markdown

open Text Candidate

/-! ## Ranges of blocks -/

/-- Whether a byte lies in one of the ranges. -/
def isFenced (ranges : List (Nat × Nat)) (i : Nat) : Bool :=
  ranges.any fun r => r.1 ≤ i && i < r.2

/-- The text behind the last newline. -/
def lastLine (s : List Char) : List Char := (s.reverse.takeWhile (· != '\n')).reverse

/-- The text before the first newline. -/
def firstLine (s : List Char) : List Char := s.takeWhile (· != '\n')

/-- A range of bytes is that of a block: whole characters of the text, with no `@` before them on
their first line, which end with a line or have only blanks behind them on their last line. -/
def IsBlock (text : List Char) (range : Nat × Nat) : Prop :=
  ∃ before block after : List Char, text = before ++ block ++ after ∧
    range = (utf8Length before, utf8Length (before ++ block)) ∧ '@' ∉ lastLine before ∧
    ((∀ c ∈ (before ++ block).getLast?, c = '\n') ∨ ∀ c ∈ firstLine after, isBlank c = true)

/-- Ranges as a reader of blocks reports them: in order, and apart from each other. -/
structure BlockRanges (ranges : List (Nat × Nat)) (text : List Char) : Prop where
  ascending : ranges.Pairwise fun r r' => r.2 ≤ r'.1
  isBlock : ∀ r ∈ ranges, IsBlock text r

/-- The bytes outside of blocks, and all newlines; the first byte has number `offset`. -/
def keptBytes (fenced : Nat → Bool) (offset : Nat) (bytes : List UInt8) : List UInt8 :=
  ((bytes.zipIdx offset).filter fun x => !fenced x.2 || x.1 == 0x0A).map Prod.fst

variable {ranges : List (Nat × Nat)} {text pre l s : List Char} {fenced : Nat → Bool}
  {offset : Nat}

/-! ## The cursor over the ranges -/

/-- Ranges that end before a byte do not matter for it. -/
theorem isFenced_dropWhile (ranges : List (Nat × Nat)) {i : Nat} (h : offset ≤ i) :
    isFenced (ranges.dropWhile fun r => r.2 ≤ offset) i = isFenced ranges i := by
  induction ranges with
  | nil => rfl
  | cons r ranges ih =>
    by_cases hr : r.2 ≤ offset
    · have hi : ¬i < r.2 := by omega
      rw [List.dropWhile_cons_of_pos (by simpa using hr), ih]
      simp [isFenced, hi]
    · rw [List.dropWhile_cons_of_neg (by simpa using hr)]

/-- Of the ranges that do not end before a byte the first decides. -/
theorem head?_dropWhile_ranges (h : ranges.Pairwise fun r r' => r.2 ≤ r'.1) (offset : Nat) :
    ((ranges.dropWhile fun r => r.2 ≤ offset).head?.any fun r => r.1 ≤ offset && offset < r.2) =
      isFenced ranges offset := by
  induction ranges with
  | nil => rfl
  | cons r ranges ih =>
    rw [List.pairwise_cons] at h
    by_cases hr : r.2 ≤ offset
    · have hi : ¬offset < r.2 := by omega
      rw [List.dropWhile_cons_of_pos (by simpa using hr), ih h.2]
      simp [isFenced, hi]
    · have hlater : isFenced ranges offset = false := by
        rw [isFenced, List.any_eq_false]
        intro r' hr'
        have hle := h.1 r' hr'
        have hlt : ¬r'.1 ≤ offset := by omega
        simp [hlt]
      rw [List.dropWhile_cons_of_neg (by simpa using hr), List.head?_cons, Option.any_some]
      rw [isFenced] at hlater ⊢
      rw [List.any_cons, hlater, Bool.or_false]

/-- The text without what lies in blocks, newlines apart.  The text starts at byte `offset`. -/
def blanked (fenced : Nat → Bool) (offset : Nat) : List Char → List Char
  | [] => []
  | c :: s =>
    if fenced offset && c != '\n' then blanked fenced (offset + c.utf8Size) s
    else c :: blanked fenced (offset + c.utf8Size) s

theorem blankRanges_eq (h : ranges.Pairwise fun r r' => r.2 ≤ r'.1)
    (hfenced : ∀ i, offset ≤ i → isFenced ranges i = fenced i) (s : List Char) :
    blankRanges ranges offset s = blanked fenced offset s := by
  -- the ranges that were passed are dropped; the others still tell what lies ahead
  induction s generalizing ranges offset with
  | nil => rfl
  | cons c s ih =>
    have hnext : ∀ i, offset + c.utf8Size ≤ i →
        isFenced (ranges.dropWhile fun r => r.2 ≤ offset) i = fenced i := fun i hi =>
      (isFenced_dropWhile ranges (by omega)).trans (hfenced i (by omega))
    have hrest := ih (h.sublist (List.dropWhile_sublist _)) hnext
    rw [blankRanges, blanked]
    simp only [head?_dropWhile_ranges h, hfenced offset (Nat.le_refl offset), hrest]

/-! ## Texts without blocks -/

theorem blanked_append (fenced : Nat → Bool) (offset : Nat) (a b : List Char) :
    blanked fenced offset (a ++ b) =
      blanked fenced offset a ++ blanked fenced (offset + utf8Length a) b := by
  induction a generalizing offset with
  | nil => rfl
  | cons c a ih =>
    rw [List.cons_append, blanked, blanked, ih, utf8Length_cons, Nat.add_assoc]
    split <;> rfl

theorem blanked_sublist (fenced : Nat → Bool) (offset : Nat) (s : List Char) :
    (blanked fenced offset s).Sublist s := by
  induction s generalizing offset with
  | nil => exact List.Sublist.refl _
  | cons c s ih =>
    rw [blanked]
    split
    · exact (ih _).trans (List.sublist_cons_self c s)
    · exact (ih _).cons_cons c

/-- A stretch with no byte in a block stays. -/
theorem blanked_of_outside (h : ∀ i, offset ≤ i → i < offset + utf8Length s → fenced i = false) :
    blanked fenced offset s = s := by
  induction s generalizing offset with
  | nil => rfl
  | cons c s ih =>
    have hsize := c.utf8Size_pos
    rw [utf8Length_cons] at h
    rw [blanked, h offset (Nat.le_refl offset) (by omega), Bool.false_and,
      if_neg Bool.false_ne_true, ih fun i hle hlt => h i (by omega) (by omega)]

/-- A character other than a newline that only occurs in blocks is gone. -/
theorem notMem_blanked {d : Char} (hd : d ≠ '\n')
    (h : ∀ u v, s = u ++ d :: v → fenced (offset + utf8Length u) = true) :
    d ∉ blanked fenced offset s := by
  induction s generalizing offset with
  | nil => exact List.not_mem_nil
  | cons c s ih =>
    have hrest : d ∉ blanked fenced (offset + c.utf8Size) s := ih fun u v hs => by
      rw [Nat.add_assoc, ← utf8Length_cons]
      exact h (c :: u) v (by rw [hs]; rfl)
    rw [blanked]
    split
    · exact hrest
    · next hkept =>
      rw [List.mem_cons, not_or]
      refine ⟨?_, hrest⟩
      rintro rfl
      have hfenced := h [] s rfl
      rw [utf8Length_nil, Nat.add_zero] at hfenced
      exact hkept (by rw [hfenced, Bool.true_and]; exact bne_iff_ne.2 hd)

/-- The newlines stay. -/
theorem count_blanked (fenced : Nat → Bool) (offset : Nat) (s : List Char) :
    (blanked fenced offset s).count '\n' = s.count '\n' := by
  induction s generalizing offset with
  | nil => rfl
  | cons c s ih =>
    rw [blanked]
    split
    · next hgone =>
      have hc : c ≠ '\n' := bne_iff_ne.1 (Bool.and_eq_true_iff.1 hgone).2
      rw [ih, List.count_cons_of_ne hc]
    · rw [List.count_cons, List.count_cons, ih]

/-! ## Bytes -/

/-- A character lies on one side of the end of a range. -/
theorem le_or_le_of_append {a b post : List Char} {c : Char} (h : a ++ b = pre ++ c :: post) :
    utf8Length a ≤ utf8Length pre ∨ utf8Length pre + c.utf8Size ≤ utf8Length a := by
  rcases Nat.le_total (utf8Length a) (utf8Length pre) with hle | hle
  · exact .inl hle
  · obtain ⟨m, rfl, hm⟩ := exists_of_utf8Length_le h.symm hle
    cases m with
    | nil => exact .inl (by simp)
    | cons d m =>
      obtain ⟨rfl, -⟩ := List.cons.inj hm
      exact .inr (by rw [utf8Length_append, utf8Length_cons]; omega)

/-- All bytes of a character lie in the same blocks. -/
theorem BlockRanges.isFenced_eq (h : BlockRanges ranges text) {c : Char} {post : List Char}
    (htext : text = pre ++ c :: post) {i : Nat} (hle : utf8Length pre ≤ i)
    (hlt : i < utf8Length pre + c.utf8Size) :
    isFenced ranges i = isFenced ranges (utf8Length pre) := by
  rw [isFenced, isFenced, Bool.eq_iff_iff, List.any_eq_true, List.any_eq_true]
  refine exists_congr fun r => and_congr_right fun hr => ?_
  obtain ⟨before, block, after, hsplit, rfl, -, -⟩ := h.isBlock r hr
  have hbegin := le_or_le_of_append ((List.append_assoc ..).symm.trans (hsplit.symm.trans htext))
  have hend := le_or_le_of_append (hsplit.symm.trans htext)
  simp only [Bool.and_eq_true, decide_eq_true_eq]
  omega

theorem keptBytes_append (fenced : Nat → Bool) (offset : Nat) (a b : List UInt8) :
    keptBytes fenced offset (a ++ b) =
      keptBytes fenced offset a ++ keptBytes fenced (offset + a.length) b := by
  rw [keptBytes, List.zipIdx_append, List.filter_append, List.map_append]
  rfl

theorem keptBytes_of_kept {bytes : List UInt8}
    (h : ∀ x ∈ bytes.zipIdx offset, (!fenced x.2 || x.1 == 0x0A) = true) :
    keptBytes fenced offset bytes = bytes := by
  rw [keptBytes, List.filter_eq_self.2 h, List.zipIdx_map_fst]

/-- Exactly the bytes outside of blocks and the newlines are left. -/
theorem utf8Bytes_blanked (h : BlockRanges ranges text) (htext : text = pre ++ s) :
    utf8Bytes (blanked (isFenced ranges) (utf8Length pre) s) =
      keptBytes (isFenced ranges) (utf8Length pre) (utf8Bytes s) := by
  induction s generalizing pre with
  | nil => rfl
  | cons c s ih =>
    have hnext : text = (pre ++ [c]) ++ s := by rw [htext]; simp
    have hrest := ih hnext
    have hpre : utf8Length (pre ++ [c]) = utf8Length pre + c.utf8Size := by simp
    have hfenced : ∀ x ∈ (String.utf8EncodeChar c).zipIdx (utf8Length pre),
        isFenced ranges x.2 = isFenced ranges (utf8Length pre) := by
      intro x hx
      have hle := List.le_snd_of_mem_zipIdx hx
      have hlt := List.snd_lt_add_of_mem_zipIdx hx
      rw [String.length_utf8EncodeChar] at hlt
      exact h.isFenced_eq htext hle (by omega)
    rw [hpre] at hrest
    rw [utf8Bytes_cons, keptBytes_append, String.length_utf8EncodeChar, ← hrest, blanked]
    split
    · next hgone =>
      obtain ⟨hin, hc⟩ := Bool.and_eq_true_iff.1 hgone
      have hnone : keptBytes (isFenced ranges) (utf8Length pre) (String.utf8EncodeChar c) = [] := by
        rw [keptBytes, List.map_eq_nil_iff, List.filter_eq_nil_iff]
        intro x hx hkept
        rw [hfenced x hx, hin, Bool.not_true, Bool.false_or, beq_iff_eq] at hkept
        have hnat := toNat_of_mem_utf8EncodeChar (b := x.1) (by rw [hkept]; decide)
          (List.fst_mem_of_mem_zipIdx hx)
        rw [hkept] at hnat
        exact bne_iff_ne.1 hc (Char.toNat_inj.1 hnat)
      rw [hnone, List.nil_append]
    · next hkept =>
      rw [keptBytes_of_kept, utf8Bytes_cons]
      intro x hx
      by_cases hc : c = '\n'
      · subst hc
        have hx := List.mem_singleton.1 (show x.1 ∈ [(0x0A : UInt8)] from
          List.fst_mem_of_mem_zipIdx hx)
        rw [hx]
        simp
      · have hout : isFenced ranges (utf8Length pre) = false := by
          simpa [hc] using hkept
        rw [hfenced x hx, hout]
        rfl

/-! ## Candidates -/

theorem mem_lastLine {u v : List Char} {c : Char} (hc : c ≠ '\n') (hv : '\n' ∉ v) :
    c ∈ lastLine (u ++ c :: v) := by
  have hstop : ∀ d ∈ v.reverse, (d != '\n') = true := fun d hd =>
    bne_iff_ne.2 fun heq => hv (heq ▸ List.mem_reverse.1 hd)
  rw [lastLine, List.reverse_append, List.reverse_cons, List.append_assoc,
    List.takeWhile_append_of_pos hstop, List.singleton_append, List.takeWhile_cons,
    if_pos (bne_iff_ne.2 hc)]
  simp

theorem mem_firstLine {u v : List Char} {c : Char} (hc : c ≠ '\n') (hu : '\n' ∉ u) :
    c ∈ firstLine (u ++ c :: v) := by
  have hstop : ∀ d ∈ u, (d != '\n') = true := fun d hd => bne_iff_ne.2 fun heq => hu (heq ▸ hd)
  rw [firstLine, List.takeWhile_append_of_pos hstop, List.takeWhile_cons,
    if_pos (bne_iff_ne.2 hc)]
  simp

/-- A block that reaches into a line takes every `@` of it. -/
theorem IsBlock.reaches {post u v : List Char} {r : Nat × Nat} (h : IsBlock text r)
    (htext : text = pre ++ (u ++ '@' :: v) ++ post) (hl : '\n' ∉ u ++ '@' :: v)
    (hbegin : r.1 < utf8Length (pre ++ (u ++ '@' :: v))) (hend : utf8Length pre < r.2) :
    r.1 ≤ utf8Length (pre ++ u) ∧ utf8Length (pre ++ u) < r.2 := by
  obtain ⟨before, block, after, hsplit, rfl, hat, hlast⟩ := h
  simp only [List.mem_append, List.mem_cons, not_or] at hl
  dsimp only at hbegin hend ⊢
  constructor
  -- otherwise the `@` stands before the block, on its first line
  · refine Nat.le_of_not_lt fun hlt => hat ?_
    have hhead : (pre ++ u) ++ ('@' :: (v ++ post)) = before ++ (block ++ after) := by
      rw [← List.append_assoc before, ← hsplit, htext]
      simp
    obtain ⟨m, rfl, hm⟩ := exists_of_utf8Length_le hhead (Nat.le_of_lt hlt)
    cases m with
    | nil => simp at hlt
    | cons c w =>
      obtain ⟨rfl, hw⟩ := List.cons.inj hm
      have hshort : utf8Length w ≤ utf8Length v := by
        simp only [utf8Length_append, utf8Length_cons] at hbegin
        omega
      obtain ⟨x, rfl, -⟩ := exists_of_utf8Length_le hw.symm hshort
      exact mem_lastLine (by decide) fun hnewline => hl.2.2 (List.mem_append_left x hnewline)
  -- otherwise the `@` stands behind the block, on its last line
  · refine Nat.lt_of_not_le fun hle => ?_
    have hhead : (before ++ block) ++ after = (pre ++ u) ++ ('@' :: (v ++ post)) := by
      rw [← hsplit, htext]
      simp
    obtain ⟨x, hu, rfl⟩ := exists_of_utf8Length_le hhead hle
    obtain ⟨w, hw, rfl⟩ := exists_of_utf8Length_le hu (Nat.le_of_lt hend)
    simp only [List.mem_append, not_or] at hl
    rcases hlast with hlast | hlast
    · obtain ⟨c, hc⟩ : ∃ c, w.getLast? = some c := by
        cases w with
        | nil => rw [hw] at hend; simp at hend
        | cons d w => exact ⟨_, List.getLast?_eq_some_getLast (List.cons_ne_nil d w)⟩
      rw [hw, List.getLast?_append, hc] at hlast
      obtain rfl := hlast c rfl
      exact hl.1.1 (List.mem_of_getLast? hc)
    · have hblank := hlast '@' (mem_firstLine (by decide) hl.1.2)
      revert hblank
      decide

/-- A line is free of blocks, or all of its `@` lie in blocks. -/
theorem BlockRanges.line (h : BlockRanges ranges text) {post : List Char}
    (htext : text = pre ++ l ++ post) (hl : '\n' ∉ l) :
    (∀ i, utf8Length pre ≤ i → i < utf8Length pre + utf8Length l → isFenced ranges i = false) ∨
      ∀ u v, l = u ++ '@' :: v → isFenced ranges (utf8Length pre + utf8Length u) = true := by
  by_cases hreach : ∃ r ∈ ranges, r.1 < utf8Length (pre ++ l) ∧ utf8Length pre < r.2
  · obtain ⟨r, hr, hbegin, hend⟩ := hreach
    refine .inr ?_
    rintro u v rfl
    rw [isFenced, List.any_eq_true]
    obtain ⟨hle, hlt⟩ := (h.isBlock r hr).reaches htext hl hbegin hend
    rw [utf8Length_append] at hle hlt
    exact ⟨r, hr, by simp [hle, hlt]⟩
  · refine .inl fun i hle hlt => ?_
    rw [isFenced, List.any_eq_false]
    intro r hr hin
    simp only [Bool.and_eq_true, decide_eq_true_eq] at hin
    exact hreach ⟨r, hr, by rw [utf8Length_append]; omega, by omega⟩

theorem onLine_blanked (h : BlockRanges ranges text) {post : List Char}
    (htext : text = pre ++ l ++ post) (hl : '\n' ∉ l) (path : String) (number offset : Nat) :
    (onLine path number offset (blanked (isFenced ranges) (utf8Length pre) l)).map unplaced =
      ((onLine path number (utf8Length pre) l).filter
        fun c => !isFenced ranges c.span.offset).map unplaced := by
  rcases h.line htext hl with hout | hin
  · have hall : ∀ c ∈ onLine path number (utf8Length pre) l,
        (!isFenced ranges c.span.offset) = true := by
      intro c hc
      obtain ⟨u, v, rfl, hoffset⟩ := exists_at_of_mem_onLine hc
      have hsize := ('@' : Char).utf8Size_pos
      rw [hoffset, hout _ (Nat.le_add_right _ _)
        (by rw [utf8Length_append, utf8Length_cons]; omega)]
      rfl
    rw [blanked_of_outside hout, List.filter_eq_self.2 hall, unplaced_onLine,
      unplaced_onLine path number (utf8Length pre)]
  · have hgone := notMem_blanked (d := '@') (by decide) hin
    have hnone : onLine path number offset (blanked (isFenced ranges) (utf8Length pre) l) = [] := by
      rw [List.eq_nil_iff_forall_not_mem]
      intro c hc
      obtain ⟨u, v, hline, -⟩ := exists_at_of_mem_onLine hc
      exact hgone (by rw [hline]; simp)
    have hfiltered : (onLine path number (utf8Length pre) l).filter
        (fun c => !isFenced ranges c.span.offset) = [] := by
      rw [List.filter_eq_nil_iff]
      intro c hc
      obtain ⟨u, v, hline, hoffset⟩ := exists_at_of_mem_onLine hc
      rw [hoffset, hin u v hline]
      exact Bool.false_ne_true
    rw [hnone, hfiltered]

/-- Exactly the candidates that start outside of blocks are left, on their lines. -/
theorem scanFrom_blanked (h : BlockRanges ranges text) (htext : text = pre ++ s) (path : String)
    (number offset : Nat) :
    (scanFrom path number offset (blanked (isFenced ranges) (utf8Length pre) s)).map unplaced =
      ((scanFrom path number (utf8Length pre) s).filter
        fun c => !isFenced ranges c.span.offset).map unplaced := by
  have hnewline : ∀ {l : List Char} (fenced : Nat → Bool) (offset : Nat), '\n' ∉ l →
      '\n' ∉ blanked fenced offset l := fun fenced offset hl hmem =>
    hl ((blanked_sublist fenced offset _).subset hmem)
  induction s using lines_induction generalizing pre number offset with
  | line l hl =>
    have hwhole : text = pre ++ l ++ [] := by rw [htext, List.append_nil]
    rw [scanFrom_line (hnewline _ _ hl), scanFrom_line hl]
    exact onLine_blanked h hwhole hl path number offset
  | cons l s hl ih =>
    have hfirst : text = pre ++ l ++ '\n' :: s := by rw [htext]; simp
    have hnext : text = (pre ++ (l ++ ['\n'])) ++ s := by rw [htext]; simp
    have hline := onLine_blanked h hfirst hl path number offset
    have hbreak : utf8Length (pre ++ (l ++ ['\n'])) = utf8Length pre + utf8Length l + 1 := by
      rw [utf8Length_append, utf8Length_append, Nat.add_assoc]
      rfl
    have hrest := ih hnext (number + 1) (offset +
      utf8Length (blanked (isFenced ranges) (utf8Length pre) l) + 1)
    rw [hbreak] at hrest
    have hkept : blanked (isFenced ranges) (utf8Length pre) (l ++ '\n' :: s) =
        blanked (isFenced ranges) (utf8Length pre) l ++
          '\n' :: blanked (isFenced ranges) (utf8Length pre + utf8Length l + 1) s := by
      rw [blanked_append, blanked, if_neg (by simp)]
      rfl
    rw [hkept, scanFrom_cons (hnewline _ _ hl), scanFrom_cons hl, List.map_append, hline, hrest,
      List.filter_append, List.map_append]

/-- **Removing the fenced code removes its TAGs and nothing else.**  Whatever ranges of blocks are
given, the document without them has the same number of newlines, and its bytes are those outside of
the blocks and the newlines, in order.  Its candidates are those of the document whose `@` lies
outside of the blocks, in order and on the same lines. -/
theorem blankRanges_exact (path : String) {text : List Char} (h : BlockRanges ranges text) :
    (blankRanges ranges 0 text).count '\n' = text.count '\n' ∧
    utf8Bytes (blankRanges ranges 0 text) = keptBytes (isFenced ranges) 0 (utf8Bytes text) ∧
    (scan path (String.ofList (blankRanges ranges 0 text))).map unplaced =
      ((scan path (String.ofList text)).filter fun c => !isFenced ranges c.span.offset).map
        unplaced := by
  have hblanked : blankRanges ranges 0 text = blanked (isFenced ranges) 0 text :=
    blankRanges_eq h.ascending (fun _ _ => rfl) text
  have htext : text = [] ++ text := rfl
  refine ⟨?_, ?_, ?_⟩
  · rw [hblanked, count_blanked]
  · rw [hblanked]
    exact utf8Bytes_blanked h htext
  · rw [hblanked, scan, scan, String.toList_ofList, String.toList_ofList]
    exact scanFrom_blanked h htext path 1 0

/-- A document with a block in a quote and one in a list item that is not closed. -/
def codeExamples : String :=
  "> ``` // @TAG SPEC-X-001\n> ``` \n- ~~~\n  # @TEST:SPEC-A-003\n\n# @DOCS:SPEC-B-002 impl - ```\n"

/-- The stretch between two places of a text is a block if it looks like one at its ends. -/
theorem isBlock_of_take {a b : Nat} (hle : a ≤ b) (hat : '@' ∉ lastLine (text.take a))
    (hend : (∀ c ∈ (text.take b).getLast?, c = '\n') ∨
      ∀ c ∈ firstLine (text.drop b), isBlank c = true) :
    IsBlock text (utf8Length (text.take a), utf8Length (text.take b)) := by
  have hblock : text.take a ++ (text.drop a).take (b - a) = text.take b := by
    rw [← List.take_add, Nat.add_sub_cancel' hle]
  refine ⟨text.take a, (text.drop a).take (b - a), text.drop b, ?_, ?_, hat, ?_⟩
  · rw [hblock, List.take_append_drop]
  · rw [hblock]
  · rwa [hblock]

theorem blockRanges_codeExamples :
    BlockRanges (fencedRanges codeExamples.toList) codeExamples.toList := by
  generalize htext : codeExamples.toList = text
  have hquoted : '@' ∉ lastLine (codeExamples.toList.take 2) ∧
      (firstLine (codeExamples.toList.drop 31)).all isBlank = true := by decide +kernel
  have hitem : '@' ∉ lastLine (codeExamples.toList.take 34) ∧
      (codeExamples.toList.take 60).getLast? = some '\n' := by decide +kernel
  have hranges : fencedRanges codeExamples.toList =
      [(utf8Length (codeExamples.toList.take 2), utf8Length (codeExamples.toList.take 31)),
        (utf8Length (codeExamples.toList.take 34), utf8Length (codeExamples.toList.take 60))] ∧
      utf8Length (codeExamples.toList.take 31) ≤ utf8Length (codeExamples.toList.take 34) := by
    decide +kernel
  rw [htext] at hquoted hitem hranges
  rw [hranges.1]
  refine ⟨List.pairwise_pair.2 hranges.2,
    List.forall_mem_cons.2 ⟨?_, List.forall_mem_singleton.2 ?_⟩⟩
  · exact isBlock_of_take (by decide) hquoted.1 (.inr (List.all_eq_true.1 hquoted.2))
  · exact isBlock_of_take (by decide) hitem.1
      (.inl fun c hc => (Option.some.inj (hitem.2.symm.trans hc)).symm)

/-- Of the TAGs of a document the one outside of its blocks is left. -/
theorem blankRanges_exact_codeExamples :
    BlockRanges (fencedRanges codeExamples.toList) codeExamples.toList ∧
    (scan "a.md" (stripFenced codeExamples)).map unplaced =
      [⟨⟨.category .docs, "SPEC-B-002", some "impl", some "```"⟩, "a.md", 6, ⟨0, 27⟩⟩] :=
  ⟨blockRanges_codeExamples,
    (blankRanges_exact "a.md" blockRanges_codeExamples).2.2.trans (by decide +kernel)⟩

end SpecLinkage.Markdown
