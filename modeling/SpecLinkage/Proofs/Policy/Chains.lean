import SpecLinkage.Proofs.Policy.Gate
import SpecLinkage.Proofs.Project.Identity
import SpecLinkage.Proofs.Store.Refinement

/-! # Chains that break

After a file was modified, a spec that it implements has to be tested: in the new content of the
file, or in what is recorded for other files.  What is recorded for the file itself is out of date
and does not matter.

* `Policy.isTested_eq`: whether a spec is tested, from all recorded tags.
* `Policy.afterModification_congr`: records that agree on the other files give the same report.
* `Policy.chainBreaks_exact` is the result for all stores that can be reached. -/

namespace SpecLinkage

/-- Whether one of some tags tests a spec. -/
def testsSpec (tags : List Tag) (id : SpecId) : Bool :=
  tags.any fun t => t.specId == id && t.category == .test

/-- The recorded tags of other files. -/
def Records.tagsBeyond (r : Records) (path : String) : List Tag :=
  r.tags.filter fun t => t.filePath != path

theorem Records.Indexed.tagsOfSpec_eq {r : Records} (h : r.Indexed) (id : SpecId) :
    r.tagsOfSpec id.text = r.tags.filter fun t => t.specId == id := by
  rw [Records.tagsOfSpec, h.lookup_eq h.bySpec]
  apply List.filter_congr
  intro t _
  show (t.specId.text == id.text) = (t.specId == id)
  rw [Bool.eq_iff_iff, beq_iff_eq, beq_iff_eq]
  exact ⟨SpecId.text_injective, congrArg SpecId.text⟩

/-- Writing or not, a change is made or undone. -/
theorem Store.records_commit {α : Type} (change : Records → α × Records) {s : Store} (t : FileTree)
    (h : s.records.Indexed) : (s.commit change t).store.records = s.records ∨
      (s.commit change t).store.records = (change s.records).2 := by
  have hpersist : ∀ s : Store, (s.persist t).store.records = s.records := by
    intro s
    unfold persist
    split
    · rfl
    · split
      · rfl
      · split
        · rfl
        · split <;> rfl
  have hkept := hpersist { s with records := (change s.records).2 }
  unfold commit
  rcases hp : persist { s with records := (change s.records).2 } t with ⟨_ | _, s', t'⟩ <;>
    rw [hp] at hkept
  · exact .inl h.ofTags_tags
  · exact .inr hkept

theorem Store.records_replaceFileTags {s : Store} (h : s.records.Indexed) (file : String)
    (tags : List Tag) (t : FileTree) :
    (s.replaceFileTags file tags t).store.records = s.records ∨
      (s.replaceFileTags file tags t).store.records =
        s.records.replaceFile (normalizePath file) tags :=
  records_commit (fun r => ((), r.replaceFile (normalizePath file) tags)) t h

namespace Policy

variable {p : Policy} {r r' : Records} {path content : String} {tags : List Tag}

/-- A spec is tested in the file or in another one. -/
theorem isTested_eq (h : r.Indexed) (path : String) (tags : List Tag) (id : SpecId) :
    isTested r path tags id = (testsSpec tags id || testsSpec (r.tagsBeyond path) id) := by
  rw [isTested, h.tagsOfSpec_eq, testsSpec, testsSpec, Records.tagsBeyond, List.any_filter,
    List.any_filter]
  congr 2
  funext t
  exact Bool.and_left_comm ..

/-- Where and for which specs a chain breaks. -/
theorem map_checkChains (h : r.Indexed) (path : String) (tags : List Tag) :
    (checkChains r path tags).map (fun v => (v.specId, v.line)) =
      ((specsOf (tags.filter fun t => t.category.isCode)).filter fun id =>
        !testsSpec tags id && !testsSpec (r.tagsBeyond path) id).map fun id =>
          (some id.text,
            ((tags.filter fun t => t.category.isCode).find? fun t => t.specId == id).map Tag.line) := by
  have huntested : ∀ id, (!testsSpec tags id && !testsSpec (r.tagsBeyond path) id) =
      !isTested r path tags id := by
    intro id
    rw [isTested_eq h, Bool.not_or]
  simp only [huntested]
  rw [checkChains, List.map_map]
  exact map_filter_firstPerSpec (g := fun id t? => (some id.text, t?.map Tag.line))
    (fun _ => rfl) (fun id => !isTested r path tags id) _

/-! ## Records that agree on other files -/

theorem testsSpec_congr {tags tags' : List Tag} (h : ∀ t, t ∈ tags' ↔ t ∈ tags) (id : SpecId) :
    testsSpec tags' id = testsSpec tags id := by
  rw [testsSpec, testsSpec, Bool.eq_iff_iff, List.any_eq_true, List.any_eq_true]
  simp only [h]

/-- Records that agree on the tags of other files give the same report. -/
theorem afterModification_congr (h : r.Indexed) (h' : r'.Indexed) (hpath : normalizePath path = path)
    (hagree : ∀ t : Tag, t.filePath ≠ path → (t ∈ r'.tags ↔ t ∈ r.tags)) :
    p.afterModification r' path content = p.afterModification r path content := by
  have hbeyond : ∀ t, t ∈ r'.tagsBeyond path ↔ t ∈ r.tagsBeyond path := by
    intro t
    rw [Records.tagsBeyond, Records.tagsBeyond, List.mem_filter, List.mem_filter, bne_iff_ne]
    exact and_congr_left (hagree t)
  have htested : ∀ tags, isTested r' path tags = isTested r path tags := by
    intro tags
    funext id
    rw [isTested_eq h, isTested_eq h', testsSpec_congr hbeyond]
  simp only [afterModification, hpath, checkChains, htested]

/-- Recording tags of a file agrees with what was there on all other files. -/
theorem mem_tags_replaceFile (h : r.Indexed) {tags : List Tag} (htags : ∀ t ∈ tags, t.filePath = path)
    {t : Tag} (ht : t.filePath ≠ path) : t ∈ (r.replaceFile path tags).tags ↔ t ∈ r.tags := by
  rw [Records.tags, h.entries_replaceFile, TagMap.mem_values_replaced_iff h.keyed htags, if_neg ht]
  rfl

/-- Once the tags of a file have been recorded, or have not been because they could not be written,
the report on it is the same. -/
theorem afterModification_replaceFileTags {s : Store} (h : s.records.Indexed)
    (hpath : normalizePath path = path) (tree : FileTree) :
    p.afterModification (s.replaceFileTags path (tagsIn path content) tree).store.records path
      content = p.afterModification s.records path content := by
  have htags : ∀ t ∈ tagsIn path content, t.filePath = path := by
    intro t ht
    rw [(TagSet.place_of_mem_ofDocument ht).1, hpath, hpath, hpath]
  rcases Store.records_replaceFileTags h path (tagsIn path content) tree with hsame | hnew
  · rw [hsame]
  · rw [hnew, hpath]
    exact afterModification_congr h (h.replaceFile path _) hpath fun t ht =>
      mem_tags_replaceFile h htags ht

/-- In every state of a store that can be reached, the chains that break after a modification are
those of the specs that the file implements and that neither the file nor another one tests, each
reported where it is implemented first.  The report does not depend on what is recorded for the
file itself, so it is the same when its tags have been recorded. -/
theorem chainBreaks_exact {α : Type} (p : Policy) (before : List (StoreEvent α)) (w : Workspace)
    (path content : String) (hpath : normalizePath path = path) :
    let s := (w.emptied.performAll before).store
    let tags := tagsIn path content
    let implemented := tags.filter fun t => t.category.isCode
    let report := p.afterModification s.records path content
    (report.ofRule .chainBreak).map (fun v => (v.specId, v.line)) =
        ((specsOf implemented).filter fun id =>
          !testsSpec tags id && !testsSpec (s.records.tagsBeyond path) id).map (fun id =>
            (some id.text, (implemented.find? fun t => t.specId == id).map Tag.line)) ∧
      (∀ (before' : List (StoreEvent α)) (w' : Workspace),
        let s' := (w'.emptied.performAll before').store
        (∀ t : Tag, t.filePath ≠ path → (t ∈ s'.tags ↔ t ∈ s.tags)) →
          p.afterModification s'.records path content = report) ∧
      ∀ tree, p.afterModification (s.replaceFileTags path tags tree).store.records path content =
        report := by
  intro s tags implemented report
  have hindexed : ∀ (before : List (StoreEvent α)) (w : Workspace),
      (w.emptied.performAll before).store.records.Indexed := fun before w =>
    (Workspace.performAll_couples before
      (p := PlainStore.start) ⟨rfl, Records.indexed_empty, rfl, rfl⟩).indexed
  refine ⟨?_, fun before' w' hagree => ?_, afterModification_replaceFileTags (hindexed _ _) hpath⟩
  · rw [ofRule_afterModification, hpath]
    exact map_checkChains (hindexed before w) path tags
  · exact afterModification_congr (hindexed before w) (hindexed before' w') hpath hagree

/-- Rules without directories and documents. -/
def plain : Policy := ⟨⟨.auto, [], []⟩, .listed .empty, {}, false⟩

/-- A store with a test of a spec, recorded for the file that is going to be modified. -/
def withStaleTest : List (StoreEvent Nat) :=
  [.changed (.addAll (TagSet.ofContent "src/a.rs" "// @TEST:SPEC-A-001 verify").tags)]

/-- The recorded test is not in the file any more, so the chain breaks, and it still does when the
tags of the file have been recorded. -/
theorem chainBreaks_staleTest :
    let s := ((Workspace.emptied { me := ⟨1, "host"⟩ }).performAll withStaleTest).store
    let content := "// @CODE:SPEC-A-001 impl"
    normalizePath "src/a.rs" = "src/a.rs" ∧
      ((plain.afterModification s.records "src/a.rs" content).ofRule .chainBreak).map
        (fun v => (v.specId, v.line)) = [(some "SPEC-A-001", some 1)] ∧
      ∀ tree, plain.afterModification
        (s.replaceFileTags "src/a.rs" (tagsIn "src/a.rs" content) tree).store.records "src/a.rs"
        content = plain.afterModification s.records "src/a.rs" content := by
  intro s content
  have hpath : normalizePath "src/a.rs" = "src/a.rs" := by decide +kernel
  obtain ⟨hexact, -, hagain⟩ := chainBreaks_exact plain withStaleTest { me := ⟨1, "host"⟩ } "src/a.rs"
    content hpath
  refine ⟨hpath, hexact.trans ?_, hagain⟩
  decide +kernel

end Policy

end SpecLinkage
