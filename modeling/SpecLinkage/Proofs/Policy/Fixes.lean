import SpecLinkage.Proofs.Candidate.Suggested
import SpecLinkage.Proofs.Disk.Growth
import SpecLinkage.Proofs.Policy.Gate

/-! # Fixes that converge

A file that is refused for the lack of a TAG is accepted after two rounds of suggested fixes: the
suggested line is put in front of it, and then the documents are created that are still missing.

* `Catalog.contains_of_isFile`: a document where it is expected is found.
* `Policy.documents`: where the documents belong that a report misses.
* `Policy.violations_of_gained`: with these documents nothing is wrong with a file that has a TAG.
* `Policy.fixes_converge` is the result. -/

namespace SpecLinkage

/-! ## Documents -/

theorem Catalog.contains_directory_iff {files : FileTree} {root : String} {id : SpecId} :
    (Catalog.directory root).contains files id.text = true ↔
      ∃ path ∈ candidatePaths root id.text, files.isFile path = true := by
  rw [contains, documentPath?, id.ofText?_text, Option.isSome_some, if_pos rfl,
    List.find?_isSome]

/-- A document where it is expected is found. -/
theorem Catalog.contains_of_isFile {files : FileTree} {root : String} {id : SpecId}
    (h : files.isFile ((Catalog.directory root).expectedPath id.text) = true) :
    (Catalog.directory root).contains files id.text = true :=
  contains_directory_iff.2 ⟨_, List.mem_cons_self, h⟩

/-- A document is not lost when files are added. -/
theorem Catalog.contains_of_gained {paths : List String} {files files' : FileTree} {root : String}
    {id : SpecId} (h : files.Gained paths files')
    (hid : (Catalog.directory root).contains files id.text = true) :
    (Catalog.directory root).contains files' id.text = true := by
  obtain ⟨path, hpath, hfile⟩ := contains_directory_iff.1 hid
  exact contains_directory_iff.2 ⟨path, hpath, h.kept path hfile⟩

namespace Policy

/-- Where the documents belong that a report misses. -/
def documents (report : PolicyReport) : List String :=
  (report.ofRule .noSpecReference).filterMap Violation.fix

variable {p : Policy} {root : String} (files : FileTree) (r : Records) (path content : String)

/-- For every spec without a document the report says where it belongs. -/
theorem expectedPath_mem_documents {t : Tag} (ht : t ∈ tagsIn path content)
    (h : p.catalog.contains files t.specId.text = false) :
    p.catalog.expectedPath t.specId.text ∈ documents (p.beforeCreation files r path content) := by
  have hspec : t.specId ∈ (firstPerSpec [] (tagsIn path content)).map Tag.specId := by
    rw [map_specId_firstPerSpec]
    exact mem_specsOf.2 ⟨t, ht, rfl⟩
  obtain ⟨first, hfirst, hid⟩ := List.mem_map.1 hspec
  rw [documents, ofRule_noSpecReference, List.mem_filterMap]
  refine ⟨_, List.mem_map.2 ⟨first, List.mem_filter.2 ⟨hfirst, ?_⟩, rfl⟩, ?_⟩
  · rw [hid, h]
    rfl
  · rw [hid]
    rfl

/-- With the documents that a report misses, nothing is wrong with a file that has a TAG. -/
theorem violations_of_gained (hroot : p.catalog = .directory root)
    (htags : tagsIn path content ≠ []) {files' : FileTree}
    (h : files.Gained (documents (p.beforeCreation files r path content)) files') :
    (p.beforeCreation files' r path content).violations = [] := by
  have hspecless : p.checkSpecless (normalizePath path) (tagsIn path content) = [] := by
    rw [List.eq_nil_iff_forall_not_mem]
    exact fun v hv => htags ((p.mem_checkSpecless_iff _).1 hv).2.1
  rw [violations_beforeCreation, hspecless, List.nil_append, checkSpecs_eq_nil_iff]
  intro t ht
  -- a document that was there is not lost, and one that was missing was reported
  cases hold : p.catalog.contains files t.specId.text with
  | true =>
    rw [hroot] at hold ⊢
    exact Catalog.contains_of_gained h hold
  | false =>
    have hadded := h.added _ (expectedPath_mem_documents files r path content ht hold)
    rw [hroot] at hadded ⊢
    exact Catalog.contains_of_isFile hadded

/-- **The fixes converge.**  If a file is reported for the lack of a TAG, then the suggested line in
front of it is a TAG on its first line for the suggested spec, so that this is not reported again;
and if the documents are created that are still missing, the file breaks no rule and is not
refused. -/
theorem fixes_converge (p : Policy) (root : String) (hroot : p.catalog = .directory root)
    (files : FileTree) (r : Records) (path content : String) (v : Violation)
    (hv : v ∈ (p.beforeCreation files r path content).ofRule .speclessCode) :
    ∃ (fix : String) (id : SpecId), v.fix = some fix ∧
      fix = suggestedTagLine (normalizePath path) .code id.text ∧
      (∃ t ∈ tagsIn path (fix ++ "\n" ++ content), t.line = 1 ∧ t.specId = id) ∧
      (p.beforeCreation files r path (fix ++ "\n" ++ content)).ofRule .speclessCode = [] ∧
      ∀ files', files.Gained
          (documents (p.beforeCreation files r path (fix ++ "\n" ++ content))) files' →
        (p.beforeCreation files' r path (fix ++ "\n" ++ content)).violations = [] ∧
          (p.beforeCreation files' r path (fix ++ "\n" ++ content)).isBlocking = false := by
  rw [ofRule_speclessCode, mem_checkSpecless_iff] at hv
  obtain ⟨rfl, -, -⟩ := hv
  obtain ⟨id, hid⟩ := exists_placeholder (normalizePath path)
  refine ⟨_, id, rfl, by rw [hid], ?_⟩
  rw [← hid]
  generalize hfix : suggestedTagLine (normalizePath path) .code id.text = fix
  have htag : ∃ t ∈ tagsIn path (fix ++ "\n" ++ content), t.line = 1 ∧ t.specId = id := by
    rw [← hfix]
    exact TagSet.exists_mem_ofDocument (normalizePath path) content id
  have hne : tagsIn path (fix ++ "\n" ++ content) ≠ [] := by
    obtain ⟨t, ht, -⟩ := htag
    exact List.ne_nil_of_mem ht
  refine ⟨htag, ?_, fun files' h => ?_⟩
  · rw [ofRule_speclessCode, List.eq_nil_iff_forall_not_mem]
    exact fun v hv => hne ((p.mem_checkSpecless_iff _).1 hv).2.1
  · have hclean := violations_of_gained files r path _ hroot hne h
    refine ⟨hclean, ?_⟩
    rw [Bool.eq_false_iff, Ne, isBlocking_beforeCreation]
    exact fun hblocks => hblocks.2 hclean

/-- A markdown document that counts as code, in an empty project: its name has no letters, and its
only TAG is in a fenced block that is not closed. -/
theorem fixes_converge_fenced :
    speclessViolation "notes/-.md" ∈
        (beforeCreation ⟨⟨.manual, (Glob.parse? "notes/**").toList, []⟩, .directory "specs", {}, true⟩
          {} {} "notes/-.md" "~~~\n// @CODE:SPEC-A-001 impl").ofRule .speclessCode ∧
      ∃ files', FileTree.createFiles {} [("specs/SPEC-DOMAIN-001/spec.md", "# Notes".toUTF8)] =
          .ok files' ∧
        (beforeCreation ⟨⟨.manual, (Glob.parse? "notes/**").toList, []⟩, .directory "specs", {}, true⟩
          files' {} "notes/-.md"
          ("<!-- @CODE:SPEC-DOMAIN-001 impl -->" ++ "\n" ++
            "~~~\n// @CODE:SPEC-A-001 impl")).violations = [] := by
  have hspecless : speclessViolation "notes/-.md" ∈
      (beforeCreation ⟨⟨.manual, (Glob.parse? "notes/**").toList, []⟩, .directory "specs", {}, true⟩
        {} {} "notes/-.md" "~~~\n// @CODE:SPEC-A-001 impl").ofRule .speclessCode := by
    rw [ofRule_speclessCode, mem_checkSpecless_iff]
    exact ⟨by decide +kernel, by decide +kernel, by decide +kernel⟩
  refine ⟨hspecless, ?_⟩
  obtain ⟨fix, -, hfix, -, -, -, hclean⟩ := fixes_converge _ "specs" rfl _ _ _ _ _ hspecless
  have hline : fix = "<!-- @CODE:SPEC-DOMAIN-001 impl -->" := by
    rw [← Option.some_inj, ← hfix]
    decide +kernel
  subst hline
  have hcreated : (FileTree.createFiles {}
      [("specs/SPEC-DOMAIN-001/spec.md", "# Notes".toUTF8)]).isOk = true := by decide +kernel
  cases hfiles : FileTree.createFiles {} [("specs/SPEC-DOMAIN-001/spec.md", "# Notes".toUTF8)] with
  | error e =>
    rw [hfiles] at hcreated
    cases hcreated
  | ok files' =>
    have hdocuments : documents (beforeCreation
        ⟨⟨.manual, (Glob.parse? "notes/**").toList, []⟩, .directory "specs", {}, true⟩ {} {}
        "notes/-.md" ("<!-- @CODE:SPEC-DOMAIN-001 impl -->" ++ "\n" ++
          "~~~\n// @CODE:SPEC-A-001 impl")) = ["specs/SPEC-DOMAIN-001/spec.md"] := by
      decide +kernel
    refine ⟨files', rfl, (hclean files' ?_).1⟩
    rw [hdocuments]
    exact FileTree.gained_createFiles hfiles

end Policy

end SpecLinkage
