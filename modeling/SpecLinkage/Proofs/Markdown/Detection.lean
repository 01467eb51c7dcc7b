import SpecLinkage.Extraction
import SpecLinkage.Proofs.Disk.Spelling
import SpecLinkage.Proofs.Text.Words

/-! # Which files are markdown documents

Files on disk are told by the extension of their name, proposed documents by the end of their path.
The two tests agree on every path that can be read, so both find the same tags, but for a file that
is named `.md`: its name has no extension.

* `FileTree.isInert_of_readText`: a path that can be read ends with the name of the file.
* `DiskPath.extension?_eq_md_iff`: the two tests, for such a path.
* `Extraction.ofFiles_eq_ofDocument` is the result, and `Extraction.ofFiles_bareExtension` the file
  for which the tests differ. -/

namespace SpecLinkage

open Text

/-! ## Paths that can be read -/

namespace FileTree

variable {t : FileTree} {here l : Location} {ps : List (List Char)} {path content : String}

/-- Along pieces of which the last names nothing, a walk ends at a directory. -/
theorem node?_of_walk (hhere : ∀ above, above <+: here → t.node? above = some .directory)
    (h : t.walk here ps = .ok l) (hlast : ∀ p ∈ ps.getLast?, DiskPath.isInert p = true) :
    t.node? l = some .directory := by
  -- all that the walk has come through are directories
  induction ps generalizing here with
  | nil =>
    cases h
    exact hhere l (List.prefix_refl l)
  | cons p ps ih =>
    have hrest : ∀ q ∈ ps.getLast?, DiskPath.isInert q = true := by
      intro q hq
      refine hlast q ?_
      rw [List.getLast?_cons, hq]
      rfl
    rw [walk] at h
    split at h
    · exact ih hhere h hrest
    · next hp =>
      split at h
      · exact ih (fun above habove => hhere above (habove.trans (List.dropLast_prefix here))) h
          hrest
      · dsimp only at h
        split at h
        · next hempty =>
          obtain rfl := List.isEmpty_iff.1 hempty
          exact absurd (hlast p rfl) hp
        · split at h
          · cases h
          · cases h
          · next hnode =>
            refine ih (fun above habove => ?_) h hrest
            rcases List.prefix_concat_iff.1 habove with rfl | habove
            · exact hnode
            · exact hhere above habove

/-- A path that can be read ends with the name of the file. -/
theorem isInert_of_readText (h : t.readText path = .ok content) :
    ∀ p ∈ (DiskPath.pieces path).getLast?, DiskPath.isInert p = false := by
  intro p hp
  rw [Bool.eq_false_iff]
  intro hinert
  cases hl : t.locate path with
  | error e => simp [readText, readBytes, find, hl] at h
  | ok l =>
    have hroot : ∀ above, above <+: [] → t.node? above = some .directory := by
      intro above habove
      obtain rfl := List.prefix_nil.1 habove
      rfl
    have hnode : t.node? l = some .directory :=
      node?_of_walk hroot hl fun q hq => by
        obtain rfl := Option.some.inj (hp.symm.trans hq)
        exact hinert
    rw [readText_of_locate hl, hnode] at h
    cases h

end FileTree

/-! ## The two tests -/

namespace DiskPath

variable {p : String} {above : List (List Char)} {last : List Char}

theorem fileName?_of_last (hp : pieces p = above ++ [last]) (hlast : isInert last = false) :
    fileName? p = (some last).filter (· != ['.', '.']) := by
  have htrim : ∀ qs, trimPieces (qs ++ [last]) = qs ++ [last] := by
    intro qs
    rw [trimPieces, List.reverse_append, List.reverse_singleton, List.singleton_append,
      List.dropWhile_cons_of_neg (by simp [hlast])]
    simp
  unfold fileName?
  rw [hp]
  cases above with
  | nil => simp [trimPieces, hlast]
  | cons first qs => simp [htrim qs]

/-- A path ends with the last of its pieces. -/
theorem endsWith_last (hp : pieces p = above ++ [last]) : ∃ s, p.toList = s ++ last := by
  have hjoin := intercalate_splitAll '/' p.toList
  rw [← pieces, hp] at hjoin
  rw [← hjoin]
  clear hp hjoin
  induction above with
  | nil => exact ⟨[], by simp⟩
  | cons q qs ih =>
    obtain ⟨s, hs⟩ := ih
    obtain ⟨r, rs, hr⟩ := List.exists_cons_of_ne_nil
      (List.append_ne_nil_of_right_ne_nil qs (List.cons_ne_nil last []))
    refine ⟨q ++ ['/'] ++ s, ?_⟩
    rw [hr] at hs
    rw [List.cons_append, hr, List.intercalate_cons_cons, hs]
    simp

/-- The extension of a path is `md` if the path ends like that, unless this is its whole name. -/
theorem extension?_eq_md_iff (hinert : ∀ q ∈ (pieces p).getLast?, isInert q = false)
    (hname : fileName? p ≠ some ".md".toList) :
    extension? p = some "md" ↔ isMarkdownPath p = true := by
  have hmd : ".md".toList = '.' :: "md".toList := by decide +kernel
  rw [isMarkdownPath, endsWith_iff, hmd]
  rw [hmd] at hname
  constructor
  · intro h
    obtain ⟨above, last, hp⟩ : ∃ above last, pieces p = above ++ [last] :=
      ⟨_, _, (List.dropLast_concat_getLast (splitAll_ne_nil '/' p.toList)).symm⟩
    have hlast := hinert last (by rw [hp, List.getLast?_concat]; rfl)
    rw [extension?, fileName?_of_last hp hlast, Option.bind_eq_some_iff] at h
    obtain ⟨name, hfilter, h⟩ := h
    obtain rfl : last = name := Option.some.inj (Option.filter_eq_some_iff.1 hfilter).1
    split at h
    · next x q e hsplit =>
      obtain ⟨hlast, -⟩ := splitLast?_eq_some_iff.1 hsplit
      obtain ⟨s, hs⟩ := endsWith_last hp
      have he : e = "md".toList := by rw [← Option.some.inj h, String.toList_ofList]
      exact ⟨s ++ x :: q, by rw [hs, hlast, he, List.append_assoc]⟩
    · cases h
  · rintro ⟨s, hs⟩
    have hslash : '/' ∉ '.' :: "md".toList := by decide +kernel
    obtain ⟨above, stem, -, hp⟩ := splitAll_append '/' s hslash
    rw [← hs, ← pieces] at hp
    have hlast := hinert _ (by rw [hp, List.getLast?_concat]; rfl)
    have hdots : stem ++ '.' :: "md".toList ≠ ['.', '.'] := by
      intro h
      have hd := congrArg List.getLast? h
      rw [List.getLast?_append, show ('.' :: "md".toList).getLast? = some 'd' by decide +kernel,
        Option.some_or] at hd
      revert hd
      decide
    have hfile : fileName? p = some (stem ++ '.' :: "md".toList) := by
      rw [fileName?_of_last hp hlast, Option.filter_some, if_pos (bne_iff_ne.2 hdots)]
    have hsplit : splitLast? '.' (stem ++ '.' :: "md".toList) = some (stem, "md".toList) :=
      splitLast?_eq_some_iff.2 ⟨rfl, by decide +kernel⟩
    rw [extension?, hfile, Option.bind_some, hsplit]
    cases stem with
    | nil => exact absurd hfile hname
    | cons x q => exact congrArg some String.ofList_toList

end DiskPath

/-! ## The tags of a file -/

namespace Extraction

/-- **Files on disk and proposed documents have the same tags.**  A file that can be read as text
gives the tags and the format errors of the document with its path and its text, if it has a name in
front of its extension. -/
theorem ofFiles_eq_ofDocument {t : FileTree} {path content : String}
    (hread : t.readText path = .ok content) (hname : DiskPath.fileName? path ≠ some ".md".toList)
    (skipUnreadable : Bool) :
    ofFiles t skipUnreadable [path] = .ok { found := TagSet.ofDocument path content } := by
  have htests := DiskPath.extension?_eq_md_iff (FileTree.isInert_of_readText hread) hname
  have hfound : ofFileText path content = TagSet.ofDocument path content := by
    rw [ofFileText, TagSet.ofDocument]
    simp only [htests]
  have hfirst : ∀ found : TagSet, (⟨[], []⟩ : TagSet) ++ found = found := fun _ => rfl
  rw [ofFiles, List.foldlM_cons, addFile, hread]
  show Except.ok (⟨(⟨[], []⟩ : TagSet) ++ ofFileText path content, []⟩ : Extraction) = _
  rw [hfirst, hfound]

/-- A document whose only TAG is an example. -/
def exampleText : String := "```\n// @CODE:SPEC-A-001\n```\n"

/-- The tree with that document as `docs/a.md` and as `.md`. -/
def withExamples (t : FileTree) : FileTree :=
  ((t.addDirectory ["docs"]).addFile ["docs", "a.md"] exampleText.toUTF8).addFile [".md"]
    exampleText.toUTF8

theorem ofFiles_eq_ofDocument_examples :
    (withExamples {}).readText "docs//./a.md" = .ok exampleText ∧
    DiskPath.fileName? "docs//./a.md" ≠ some ".md".toList ∧
    ofFiles (withExamples {}) false ["docs//./a.md"] =
      .ok { found := TagSet.ofDocument "docs//./a.md" exampleText } :=
  have hread : (withExamples {}).readText "docs//./a.md" = .ok exampleText := rfl
  have hname : DiskPath.fileName? "docs//./a.md" ≠ some ".md".toList := by decide +kernel
  ⟨hread, hname, ofFiles_eq_ofDocument hread hname false⟩

/-- In a file that is named `.md` the example counts, though not in a document with that path. -/
theorem ofFiles_bareExtension :
    (withExamples {}).readText ".md" = .ok exampleText ∧
    (TagSet.ofDocument ".md" exampleText).tags = [] ∧
    ofFiles (withExamples {}) false [".md"] ≠
      .ok { found := TagSet.ofDocument ".md" exampleText } := by
  have hread : (withExamples {}).readText ".md" = .ok exampleText := rfl
  have hdocument : (TagSet.ofDocument ".md" exampleText).tags = [] := by decide +kernel
  have hfile : (ofFiles (withExamples {}) false [".md"]).toOption.map
      (fun x => x.found.tags.length) = some 1 := by decide +kernel
  refine ⟨hread, hdocument, ?_⟩
  intro heq
  rw [heq] at hfile
  change some (TagSet.ofDocument ".md" exampleText).tags.length = some 1 at hfile
  rw [hdocument] at hfile
  cases hfile

end Extraction

end SpecLinkage
