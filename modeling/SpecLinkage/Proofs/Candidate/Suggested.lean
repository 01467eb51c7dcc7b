import SpecLinkage.Extraction
import SpecLinkage.Policy.Basic
import SpecLinkage.Proofs.Candidate.RoundTrip
import SpecLinkage.Proofs.Markdown.Comment

/-! # Suggested TAG lines

The line that is suggested for a file without a TAG is a written line, so it is read back, whatever
the file is called; and in front of any content it is the first line of the document.

* `exists_opener`: what frames a comment opens and closes one.
* `Policy.exists_placeholder`: the suggested identifier is well formed.
* `exists_suggestedLine`: the suggested line is a written line.
* `TagSet.tag_mem_ofContent`: the TAGs of a first line are found, whatever follows it.
* `TagSet.exists_mem_ofDocument` is the result. -/

namespace SpecLinkage

open Text

/-! ## Comments -/

theorem Language.exists_opener (l : Language) :
    ∃ o : CommentOpener, l.commentMarker.toList = o.text ∧ o.closer = [] := by
  cases l
  case python | ruby | shell => exact ⟨.hash, rfl, rfl⟩
  case sql => exact ⟨.dashes, rfl, rfl⟩
  all_goals exact ⟨.slashes, rfl, rfl⟩

theorem endsWith_lower {path : String} (h : isMarkdownPath path = true) :
    endsWith ".md".toList (lower path).toList = true := by
  obtain ⟨r, hr⟩ := endsWith_iff.1 h
  refine endsWith_iff.2 ⟨r.map lowerChar, ?_⟩
  rw [lower, String.toList_ofList, hr, List.map_append]
  rfl

/-- What frames the comments of a file opens a comment and closes it; in a markdown document it is a
markup comment. -/
theorem CommentFrame.exists_opener (path : String) :
    ∃ o : CommentOpener, (CommentFrame.ofPath path).opener.toList = o.text ∧
      (CommentFrame.ofPath path).closer.toList = o.closer ∧
      (isMarkdownPath path = true → o = .markup) := by
  unfold CommentFrame.ofPath
  dsimp only
  split
  · exact ⟨.markup, rfl, rfl, fun _ => rfl⟩
  · next hother =>
    have hmarkdown : isMarkdownPath path ≠ true := fun h =>
      hother (List.any_eq_true.2 ⟨".md", List.mem_cons_self, endsWith_lower h⟩)
    split
    · exact ⟨.hash, rfl, rfl, fun h => absurd h hmarkdown⟩
    · cases Language.ofPath? (lower path) with
      | none => exact ⟨.slashes, rfl, rfl, fun h => absurd h hmarkdown⟩
      | some l =>
        obtain ⟨o, ho, hcloser⟩ := l.exists_opener
        exact ⟨o, ho, hcloser.symm, fun h => absurd h hmarkdown⟩

/-! ## Identifiers -/

theorem isDomainChar_toUpper {c : Char} (h : c.isAlphanum = true) :
    isDomainChar c.toUpper = true := by
  have hall : ∀ n, n < 128 → (Char.ofNat n).isAlphanum = true →
      isDomainChar (Char.ofNat n).toUpper = true := by
    decide +kernel
  have hascii : c.toNat < 128 := by
    delta Char.isAlphanum Char.isAlpha Char.isUpper Char.isLower Char.isDigit at h
    simp only [Bool.or_eq_true, Bool.and_eq_true, decide_eq_true_eq, UInt32.le_iff_toNat_le,
      Char.toNat_val, Char.reduceToNat] at h
    omega
  have hc := hall c.toNat hascii
  rw [Char.ofNat_toNat] at hc
  exact hc h

/-- The identifier that is suggested for a file is well formed. -/
theorem Policy.exists_placeholder (path : String) :
    ∃ id : SpecId, id.text = placeholderSpecId path := by
  unfold placeholderSpecId
  dsimp only
  generalize fileStem ((pathComponents path).getLast?.getD []) = stem
  split
  · exact ⟨⟨"DOMAIN", 1, by decide +kernel⟩, by decide +kernel⟩
  · next hne =>
    refine ⟨⟨String.ofList ((stem.filter Char.isAlphanum).map Char.toUpper), 1, ?_⟩, ?_⟩
    · rw [String.toList_ofList]
      refine ⟨fun h => hne (by rw [h]; rfl), ?_⟩
      rw [List.all_map, List.all_eq_true]
      intro c hc
      exact isDomainChar_toUpper (List.mem_filter.1 hc).2
    · have hnumber : threeDigits 1 = ['0', '0', '1'] := by decide
      rw [← String.toList_inj, SpecId.toList_text]
      simp [hnumber]

/-! ## The line -/

/-- A line with one TAG for an identifier. -/
def AnnotatedLine.suggested (o : CommentOpener) (id : SpecId) : AnnotatedLine where
  indent := []
  indent_blank := List.forall_mem_nil _
  opener := o
  tags := [⟨.category .code, .colon, id, some .impl⟩]
  tagged := List.cons_ne_nil _ _
  remark := none

/-- What is suggested for a file is a written line; in a markdown document it is a comment. -/
theorem exists_suggestedLine (path : String) (id : SpecId) :
    ∃ o, (suggestedTagLine path .code id.text).toList = (AnnotatedLine.suggested o id).text ∧
      (isMarkdownPath path = true → o = .markup) := by
  obtain ⟨o, hopener, hcloser, hmarkup⟩ := CommentFrame.exists_opener path
  refine ⟨o, ?_, hmarkup⟩
  simp [suggestedTagLine, AnnotatedLine.suggested, AnnotatedLine.text, WrittenTag.textOf,
    WrittenTag.body, WrittenTag.verbText, Remark.textOf, Keyword.text, HeadSeparator.char, hopener,
    hcloser, Category.text, Verb.text]

theorem exists_commentLine (id : SpecId) :
    ∃ body, '\n' ∉ body ∧ (AnnotatedLine.suggested .markup id).text = Markdown.commentLine body := by
  have hline := (AnnotatedLine.suggested .markup id).newline_notMem_text
  have htext : (AnnotatedLine.suggested .markup id).text =
      Markdown.commentLine (WrittenTag.textOf (AnnotatedLine.suggested .markup id).tags ++ [' ']) := by
    simp [AnnotatedLine.text, AnnotatedLine.suggested, Markdown.commentLine, Remark.textOf,
      CommentOpener.text, CommentOpener.closer]
  refine ⟨_, fun h => hline ?_, htext⟩
  rw [htext, Markdown.commentLine]
  exact List.mem_append_right _ (List.mem_append_left _ h)

namespace TagSet

/-- The TAGs of a first line are found, whatever follows it. -/
theorem tag_mem_ofContent (path : String) (l : AnnotatedLine) (rest : List Char)
    {a : WrittenTag} {r : Option Remark} (h : (a, r) ∈ l.statements) :
    a.tag r (normalizePath path) 1 ∈
      (ofContent path (String.ofList (l.text ++ '\n' :: rest))).tags := by
  have hline : splitAll '\n' l.text = [l.text] := by
    have hsplit : splitAll '\n' (['\n'].intercalate [l.text]) = [l.text] :=
      splitAll_intercalate (List.cons_ne_nil _ _)
        (List.forall_mem_singleton.2 l.newline_notMem_text)
    simpa using hsplit
  have hclause : a.clause r ∈ (Candidate.scanLine 0 l.text).map Prod.fst := by
    rw [Candidate.scanLine_text]
    exact List.mem_map.2 ⟨(a, r), h, rfl⟩
  obtain ⟨⟨clause, span⟩, hspan, rfl⟩ := List.mem_map.1 hclause
  refine List.mem_filterMap.2 ⟨⟨a.clause r, normalizePath path, 1, span⟩, ?_,
    Candidate.tag?_clause a r _ 1 span⟩
  rw [Candidate.scan, String.toList_ofList, splitAll_append_cons, hline, List.singleton_append,
    Candidate.scanLines]
  exact List.mem_append_left _ (List.mem_map.2 ⟨_, hspan, rfl⟩)

/-- In a document with a suggested line in front, the suggested TAG stands on the first line. -/
theorem exists_mem_ofDocument (path content : String) (id : SpecId) :
    ∃ t ∈ (ofDocument path (suggestedTagLine path .code id.text ++ "\n" ++ content)).tags,
      t.line = 1 ∧ t.specId = id := by
  obtain ⟨o, htext, hmarkup⟩ := exists_suggestedLine path id
  have hfound : ∀ rest, ∃ t ∈ (ofContent path
      (String.ofList ((AnnotatedLine.suggested o id).text ++ '\n' :: rest))).tags,
      t.line = 1 ∧ t.specId = id := fun rest =>
    ⟨_, tag_mem_ofContent path _ rest (List.mem_singleton.2 rfl), rfl, rfl⟩
  have hdocument : suggestedTagLine path .code id.text ++ "\n" ++ content =
      String.ofList ((AnnotatedLine.suggested o id).text ++ '\n' :: content.toList) := by
    rw [← String.toList_inj, String.toList_ofList, ← htext]
    simp
  rw [ofDocument]
  split
  · -- the line is a comment here, so it stays when the fenced code is removed
    next hmarkdown =>
    obtain rfl := hmarkup hmarkdown
    obtain ⟨body, hbody, hcomment⟩ := exists_commentLine id
    obtain ⟨rest, hrest⟩ := Markdown.toList_stripFenced_comment hbody content.toList
    have hstripped : Markdown.stripFenced (suggestedTagLine path .code id.text ++ "\n" ++ content) =
        String.ofList ((AnnotatedLine.suggested .markup id).text ++ '\n' :: rest) := by
      rw [hdocument, hcomment, ← String.toList_inj, String.toList_ofList, hrest]
    rw [hstripped]
    exact hfound rest
  · rw [hdocument]
    exact hfound content.toList

end TagSet

end SpecLinkage
