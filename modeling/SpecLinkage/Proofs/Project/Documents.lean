import SpecLinkage.Extraction
import SpecLinkage.Proofs.Store.Reopen

/-! # The tags of a document

Where the tags of a document stand: under the normalized path, and on the lines of the document.

* `Candidate.place_of_mem_scan`: candidates.
* `TagSet.place_of_mem_ofDocument`: tags; the code examples of a markdown document do not matter.
* `TagSet.proper_ofDocument`: the tags of a document can be written and read back. -/

namespace SpecLinkage

open Text

/-! ## Lines -/

theorem Text.length_splitAll_le (c : Char) (s : List Char) :
    (splitAll c s).length ≤ s.length + 1 := by
  induction s with
  | nil => exact Nat.le_refl 1
  | cons x s ih =>
    rw [splitAll]
    split
    · rw [List.length_cons, List.length_cons]
      omega
    · cases hs : splitAll c s with
      | nil => exact absurd hs (splitAll_ne_nil c s)
      | cons p ps =>
        rw [hs] at ih
        simp only [List.length_cons] at ih ⊢
        omega

theorem Candidate.place_of_mem_scanLines {path : String} {number offset : Nat}
    {lines : List (List Char)} {c : Candidate} (h : c ∈ scanLines path number offset lines) :
    c.filePath = path ∧ number ≤ c.line ∧ c.line < number + lines.length := by
  induction lines generalizing number offset with
  | nil => cases h
  | cons line lines ih =>
    rw [scanLines, List.mem_append, List.mem_map] at h
    rw [List.length_cons]
    rcases h with ⟨⟨clause, span⟩, -, rfl⟩ | h
    · exact ⟨rfl, Nat.le_refl number, by show number < _; omega⟩
    · obtain ⟨hpath, hle, hlt⟩ := ih h
      exact ⟨hpath, by omega, by omega⟩

/-- A candidate stands in the scanned file, on one of its lines. -/
theorem Candidate.place_of_mem_scan {path content : String} {c : Candidate}
    (h : c ∈ scan path content) : c.filePath = path ∧ c.line ≤ content.length + 1 := by
  obtain ⟨hpath, -, hlt⟩ := place_of_mem_scanLines h
  have hlines := length_splitAll_le '\n' content.toList
  rw [String.length_toList] at hlines
  exact ⟨hpath, by omega⟩

/-! ## Tags -/

theorem Markdown.length_blankRanges_le (ranges : List (Nat × Nat)) (offset : Nat)
    (s : List Char) : (blankRanges ranges offset s).length ≤ s.length := by
  induction s generalizing ranges offset with
  | nil => exact Nat.le_refl 0
  | cons c s ih =>
    rw [blankRanges]
    have := ih (ranges.dropWhile fun r => decide (r.2 ≤ offset)) (offset + c.utf8Size)
    split
    · rw [List.length_cons]
      omega
    · rw [List.length_cons, List.length_cons]
      omega

theorem Markdown.length_stripFenced_le (markdown : String) :
    (stripFenced markdown).length ≤ markdown.length := by
  rw [stripFenced, String.length_ofList, ← String.length_toList]
  exact length_blankRanges_le _ _ _

/-- A tag of a document stands under the normalized path, on one of the lines. -/
theorem TagSet.place_of_mem_ofDocument {path content : String} {t : Tag}
    (h : t ∈ (ofDocument path content).tags) :
    t.filePath = normalizePath (normalizePath path) ∧ t.line ≤ content.length + 1 := by
  obtain ⟨c, hc, ht⟩ := List.mem_filterMap.1 h
  obtain ⟨hpath, hline⟩ := Candidate.place_of_mem_scan hc
  have hlength : (if isMarkdownPath path then Markdown.stripFenced content else content).length ≤
      content.length := by
    split
    · exact Markdown.length_stripFenced_le content
    · exact Nat.le_refl _
  rw [Candidate.tag?] at ht
  split at ht
  · cases ht
    exact ⟨by rw [← hpath]; rfl, by show c.line ≤ _; omega⟩
  · cases ht

/-- The tags of a document under a normalized path stand under this path, and they can be written
and read back if the lines of the document can be numbered with 64 bits. -/
theorem TagSet.proper_ofDocument {path content : String} (hpath : normalizePath path = path)
    (hsize : content.length + 1 < UInt64.size) {t : Tag} (h : t ∈ (ofDocument path content).tags) :
    t.filePath = path ∧ t.Proper := by
  obtain ⟨hfile, hline⟩ := place_of_mem_ofDocument h
  rw [hpath, hpath] at hfile
  refine ⟨hfile, ?_, ?_⟩
  · rw [hfile, hpath]
  · omega

end SpecLinkage
