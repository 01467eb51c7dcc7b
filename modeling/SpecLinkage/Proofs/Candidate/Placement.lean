import SpecLinkage.Proofs.Candidate.Cursor

/-! # Where the candidates of a text stand

Each candidate stands where its line and span say, and the spans follow each other.

* `Stands`: a text is cut around a candidate into the lines above its line, the line and the lines
  below it.
* `exists_stands`: so a text can be cut around each of its candidates.
* `pairwise_scanFrom`: each span ends before the next one starts.
* `scan_positions` is the result, together with the run of the scan. -/

namespace SpecLinkage

open Text

/-! ## Spans -/

/-- One span ends before another one starts. -/
def Span.Before (a b : Span) : Prop := a.offset < b.offset ∧ a.offset + a.length ≤ b.offset

theorem Span.before_of_le {a b : Span} (hlength : 0 < a.length)
    (h : a.offset + a.length ≤ b.offset) : a.Before b :=
  ⟨Nat.lt_of_lt_of_le (Nat.lt_add_of_pos_right hlength) h, h⟩

theorem Span.before_shift {a b : Span} (bytes : Nat) (h : a.Before b) :
    (a.shift bytes).Before (b.shift bytes) := by
  obtain ⟨hlt, hle⟩ := h
  refine ⟨Nat.add_lt_add_right hlt bytes, ?_⟩
  rw [shift, shift]
  dsimp only
  omega

namespace Candidate

variable {path : String} {l s above below : List Char} {cut : Cut} {c : Candidate}

/-! ## Lines -/

/-- A candidate in its text: its line is the text of the cut. -/
structure Stands (c : Candidate) (above : List Char) (cut : Cut) (below : List Char) : Prop where
  one_line : '\n' ∉ cut.text
  above_line : ∀ d ∈ above.getLast?, d = '\n'
  below_line : ∀ d ∈ below.head?, d = '\n'
  line : c.line = 1 + (above ++ cut.before).count '\n'
  fits : cut.Fits (utf8Length above) c.clause c.span
  /-- In `user@HOST` there is no TAG. -/
  free : ∀ d ∈ cut.before.getLast?, d.isAlphanum = false
  comment : OpensComment cut.before

/-- Lines above move a candidate. -/
theorem Stands.shift (h : c.Stands above cut below) (hl : '\n' ∉ l) :
    (c.shift 1 (utf8Length l + 1)).Stands (l ++ '\n' :: above) cut below where
  one_line := h.one_line
  above_line := by
    intro d hd
    rw [List.getLast?_append, List.getLast?_cons, Option.some_or, Option.mem_some_iff] at hd
    cases hlast : above.getLast? with
    | none => rw [← hd, hlast, Option.getD_none]
    | some e => rw [← hd, hlast, Option.getD_some, h.above_line e hlast]
  below_line := h.below_line
  line := by
    have hcount : ∀ t, (l ++ t).count '\n' = t.count '\n' := fun t => by
      rw [List.count_append, List.count_eq_zero_of_not_mem hl, Nat.zero_add]
    show c.line + 1 = _
    rw [h.line, List.append_assoc, hcount, List.cons_append, List.count_cons_self, Nat.add_assoc]
  fits := { h.fits with
    offset := by
      show c.span.offset + (utf8Length l + 1) = _
      have hbreak : ('\n' : Char).utf8Size = 1 := rfl
      rw [h.fits.offset, utf8Length_append, utf8Length_cons, hbreak]
      omega }
  free := h.free
  comment := h.comment

theorem scanFrom_cons_shift (hl : '\n' ∉ l) (path : String) (s : List Char) :
    scanFrom path 1 0 (l ++ '\n' :: s) = onLine path 1 0 l ++
      (scanFrom path 1 0 s).map (shift 1 (utf8Length l + 1)) := by
  rw [scanFrom_cons hl, Nat.add_assoc]
  exact congrArg _ (scanLines_shift path 1 _ 1 0 _)

theorem stands_of_mem_onLine (below : List Char) (hl : '\n' ∉ l)
    (hbelow : ∀ d ∈ below.head?, d = '\n')
    (h : c ∈ onLine path 1 0 l) : ∃ cut, l = cut.text ∧ c.Stands [] cut below := by
  obtain ⟨cut, rfl, hfits, hfree, hcomment⟩ := exists_cut_of_mem_onLine h
  have hline : c.line = 1 := by
    obtain ⟨x, -, rfl⟩ := List.mem_map.1 h
    rfl
  have hbefore : '\n' ∉ cut.before := fun hb => hl (List.mem_append_left _ hb)
  exact ⟨cut, rfl, hl, by rintro d ⟨⟩, hbelow,
    by rw [hline, List.nil_append, List.count_eq_zero_of_not_mem hbefore], hfits, hfree, hcomment⟩

/-- A text can be cut around each of its candidates. -/
theorem exists_stands (h : c ∈ scanFrom path 1 0 s) :
    ∃ above cut below, s = above ++ (cut.text ++ below) ∧ c.Stands above cut below := by
  induction s using lines_induction generalizing c with
  | line l hl =>
    rw [scanFrom_line hl] at h
    obtain ⟨cut, rfl, hstands⟩ := stands_of_mem_onLine [] hl (by rintro d ⟨⟩) h
    exact ⟨[], cut, [], by simp, hstands⟩
  | cons l s hl ih =>
    rw [scanFrom_cons_shift hl] at h
    rcases List.mem_append.1 h with h | h
    · obtain ⟨cut, rfl, hstands⟩ := stands_of_mem_onLine ('\n' :: s) hl
        (by rintro d ⟨⟩; rfl) h
      exact ⟨[], cut, '\n' :: s, rfl, hstands⟩
    · obtain ⟨d, hd, rfl⟩ := List.mem_map.1 h
      obtain ⟨above, cut, below, rfl, hstands⟩ := ih hd
      exact ⟨l ++ '\n' :: above, cut, below, by simp, hstands.shift hl⟩

/-! ## Order -/

/-- A TAG lies within the text of its cut. -/
theorem Cut.Fits.bounds {start : Nat} {clause : Clause} {span : Span}
    (h : cut.Fits start clause span) :
    start ≤ span.offset ∧ 0 < span.length ∧
      span.offset + span.length ≤ start + utf8Length cut.text := by
  have hpos := ('@' : Char).utf8Size_pos
  rw [h.offset, h.length, Cut.text, utf8Length_append, utf8Length_cons, utf8Length_cons,
    utf8Length_append]
  omega

theorem pairwise_scanComment (before : Option Char) (offset : Nat) (s : List Char) :
    (scanComment before offset s).Pairwise fun x y => x.2.Before y.2 := by
  fun_induction scanComment before offset s with
  | case1 => exact .nil
  | case2 before offset c s hat clause rest hread length ih =>
    refine .cons (fun y hy => ?_) ih
    obtain ⟨cut, -, hfits, -⟩ := exists_cut_of_mem_scanComment hy
    have hrest := utf8Length_le_of_suffix (readClause_suffix hread)
    have hlength : 0 < length := by
      have hpos := c.utf8Size_pos
      show 0 < utf8Length (c :: s) - utf8Length rest
      rw [utf8Length_cons]
      omega
    exact Span.before_of_le hlength hfits.bounds.1
  | case3 before offset c s hat hread ih => exact ih
  | case4 before offset c s hat ih => exact ih

/-- Each candidate of a text ends before the next one starts. -/
theorem pairwise_scanFrom (path : String) (s : List Char) :
    (scanFrom path 1 0 s).Pairwise fun a b => a.span.Before b.span := by
  have honLine : ∀ l, (onLine path 1 0 l).Pairwise fun a b => a.span.Before b.span := by
    intro l
    rw [onLine, List.pairwise_map, scanLine]
    dsimp only
    split
    · exact .nil
    · exact pairwise_scanComment _ _ _
  induction s using lines_induction with
  | line l hl =>
    rw [scanFrom_line hl]
    exact honLine l
  | cons l s hl ih =>
    rw [scanFrom_cons_shift hl, List.pairwise_append, List.pairwise_map]
    refine ⟨honLine l, ih.imp fun h => Span.before_shift _ h, fun a ha b hb => ?_⟩
    obtain ⟨b, -, rfl⟩ := List.mem_map.1 hb
    obtain ⟨cut, rfl, hfits, -⟩ := exists_cut_of_mem_onLine ha
    obtain ⟨-, hlength, hend⟩ := hfits.bounds
    refine Span.before_of_le hlength ?_
    show _ ≤ b.span.offset + (utf8Length cut.text + 1)
    omega

/-- **The scan is safe and its positions are right.**  From the start of a file there is one run to
its end, which takes no slice that is not there and finds the candidates of the file.  Each of them
stands on its line in a comment, at an `@` that no letter or digit precedes and its keyword follows;
its identifier is not empty and has no blank in it.  Each ends before the next one starts. -/
theorem scan_positions (path content : String) :
    (∀ cs, Reads path content.toList .start cs ↔ cs = scan path content) ∧
    (∀ c ∈ scan path content, ∃ above cut below,
      content.toList = above ++ (cut.text ++ below) ∧ c.Stands above cut below) ∧
    (scan path content).Pairwise fun a b => a.span.Before b.span :=
  ⟨reads_scan_iff path content, fun _ h => exists_stands h, pairwise_scanFrom path content.toList⟩

/-- A TAG on the second line, behind characters of several bytes and an address. -/
theorem scan_positions_secondLine :
    (⟨⟨.category .code, "SPEC-A-001", some "impl", none⟩, "a.rs", 2, ⟨22, 21⟩⟩ : Candidate) ∈
      scan "a.rs" "é\n  // é user@REQ:X @CODE:SPEC-A-001 impl" ∧
    ∃ above cut below,
      "é\n  // é user@REQ:X @CODE:SPEC-A-001 impl".toList = above ++ (cut.text ++ below) ∧
        Stands ⟨⟨.category .code, "SPEC-A-001", some "impl", none⟩, "a.rs", 2, ⟨22, 21⟩⟩ above cut
          below := by
  have hmem : (⟨⟨.category .code, "SPEC-A-001", some "impl", none⟩, "a.rs", 2, ⟨22, 21⟩⟩ :
      Candidate) ∈ scan "a.rs" "é\n  // é user@REQ:X @CODE:SPEC-A-001 impl" := by decide +kernel
  exact ⟨hmem, (scan_positions "a.rs" _).2.1 _ hmem⟩

end Candidate

end SpecLinkage
