import SpecLinkage.Proofs.Json.RoundTrip
import SpecLinkage.Proofs.Text.Words
import SpecLinkage.Proofs.Store.Writing

/-! # Reopening a store

A store that was written and is opened again holds the same records, whatever the texts in them
are.  The way is through four forms: tags, records of texts, a document, and its text.

* `Entry.ofJson?_toJson`: records.
* `StoreDocument.ofText?_text`: documents.
* `Tag.Proper`: the tag can be read back as it is.
* `Store.openAt_of_persist`: stores. -/

namespace SpecLinkage

/-! ## Records -/

theorem Entry.written_toJson (e : Entry) : e.toJson.Written := by
  refine ⟨trivial, trivial, trivial, trivial, Json.written_ofNat e.line, ?_, trivial⟩
  cases e.description <;> trivial

theorem Entry.ofJson?_toJson {e : Entry} (h : e.line < UInt64.size) :
    ofJson? e.toJson = some e := by
  show Option.bind (some _) _ = _
  rw [Option.bind_some,
    Json.readField?_of_filter Json.asText? (v := .string e.specId) rfl,
    Json.readField?_of_filter Json.asText? (v := .string e.verb) rfl,
    Json.readField?_of_filter Json.asText? (v := .string e.category) rfl,
    Json.readField?_of_filter Json.asText? (v := .string e.filePath) rfl,
    Json.readField?_of_filter (Json.asNat? UInt64.size) (v := .ofNat e.line) rfl,
    Json.asNat?_ofNat (by decide), if_pos h,
    Json.readField?_of_filter Json.asOptionalText? (v := .ofOption e.description) rfl,
    Json.asOptionalText?_ofOption]
  rfl

/-! ## Documents -/

namespace StoreDocument

theorem written_toJson (d : StoreDocument) : d.toJson.Written := by
  refine ⟨Json.writtenItems_map Entry.toJson Entry.written_toJson d.entries, ?_, trivial⟩
  show Json.WrittenFields (d.files.toList.map fun f => (f.1, .ofStrings f.2))
  induction d.files.toList with
  | nil => trivial
  | cons f l ih => exact ⟨Json.writtenItems_map Json.string (fun _ => trivial) f.2, ih⟩

theorem readFiles?_files (m : SortedMap String (List String)) :
    readFiles? (.object (m.toList.map fun f => (f.1, .ofStrings f.2))) = some m := by
  have hlist : ∀ l : List (String × List String),
      (l.map fun f => (f.1, Json.ofStrings f.2)).mapM
        (fun f => (Json.asList? Json.asText? f.2).map fun l => (f.1, l)) = some l := by
    intro l
    induction l with
    | nil => rfl
    | cons f l ih =>
      have hf : Json.asList? Json.asText? (.ofStrings f.2) = some f.2 :=
        Json.asList?_map fun _ _ => rfl
      rw [List.map_cons, List.mapM_cons, hf, ih]
      rfl
  rw [readFiles?, hlist, Option.map_some, SortedMap.ofList_toList]

theorem ofText?_text {d : StoreDocument} (h : ∀ e ∈ d.entries, e.line < UInt64.size) :
    ofText? d.text = some d := by
  have hblank : (Text.trim d.text.toList).isEmpty = false := by
    rw [List.isEmpty_eq_false_iff, text, Json.pretty, String.toList_ofList]
    exact Text.trim_ne_nil rfl _
  have hentries : Json.asList? Entry.ofJson? (.array (d.entries.map Entry.toJson)) =
      some d.entries :=
    Json.asList?_map fun e he => Entry.ofJson?_toJson (h e he)
  rw [ofText?, hblank, if_neg Bool.false_ne_true, text, Json.ofText?_pretty d.written_toJson,
    Option.bind_some]
  show Option.bind (some _) _ = _
  rw [Option.bind_some, Json.readField?_of_filter (Json.asList? Entry.ofJson?) rfl, hentries,
    Json.readField?_of_filter readFiles? rfl, readFiles?_files]
  rfl

end StoreDocument

/-! ## Stores -/

/-- Whether a tag can be written and read back as it is: its path is normalized, and its line is a
number of 64 bits. -/
def Tag.Proper (t : Tag) : Prop := normalizePath t.filePath = t.filePath ∧ t.line < UInt64.size

def Records.Proper (r : Records) : Prop := ∀ t ∈ r.tags, t.Proper

/-- The document of proper records holds their tags, and every record in it is one. -/
theorem Records.Proper.tags_ofRecords {r : Records} (h : r.Proper) :
    (StoreDocument.ofRecords r).tags = r.tags ∧ (StoreDocument.ofRecords r).skipped = 0 := by
  have htag : ∀ t ∈ r.tags, (Entry.ofTag t).tag? = some t := by
    intro t ht
    rw [Entry.tag?_ofTag, (h t ht).1]
  constructor
  · rw [StoreDocument.tags, StoreDocument.ofRecords, List.filterMap_map]
    exact (List.filterMap_congr htag).trans List.filterMap_some
  · rw [StoreDocument.skipped, StoreDocument.ofRecords, List.countP_eq_zero]
    intro e he
    obtain ⟨t, ht, rfl⟩ := List.mem_map.1 he
    rw [htag t ht]
    exact Bool.false_ne_true

theorem Records.Proper.ofText?_textOf {r : Records} (h : r.Proper) :
    StoreDocument.ofText? (Store.textOf r) = some (.ofRecords r) := by
  apply StoreDocument.ofText?_text
  intro e he
  obtain ⟨t, ht, rfl⟩ := List.mem_map.1 he
  exact (h t ht).2

/-- Loading proper records that are in step with their indexes gives them back. -/
theorem Store.load_of_holds {t : FileTree} {path : String} {r : Records} (hi : r.Indexed)
    (hp : r.Proper) (h : Store.Holds t path (Store.textOf r)) :
    Store.load t path = (r, .loaded 0) := by
  obtain ⟨htags, hskipped⟩ := hp.tags_ofRecords
  rw [Store.load, h.readText]
  simp only [hp.ofText?_textOf, StoreDocument.records, htags, hskipped, hi.ofTags_tags]

/-- A store that was written and is opened again has the same tags, specs and files, no record was
skipped, and the files that its document lists are those of its records. -/
theorem Store.openAt_of_persist (s : Store) (t : FileTree) (path : String)
    (hpath : s.path = some path) (hdirect : s.deferred = false)
    (hconsistent : s.records.isConsistent = true)
    (hnormal : ∀ tag ∈ s.tags, normalizePath tag.filePath = tag.filePath)
    (hline : ∀ tag ∈ s.tags, tag.line < UInt64.size) (hok : (s.persist t).result = .ok ()) :
    let t' := (s.persist t).tree
    let s' := Store.openAt t' path
    s'.status = .loaded 0 ∧ s'.tags = s.tags ∧ s'.records.specIds = s.records.specIds ∧
      s'.records.files = s.records.files ∧ s'.records = s.records ∧
      ∃ text d, t'.readText path = .ok text ∧ StoreDocument.ofText? text = some d ∧
        d.files = s'.records.specsByFile := by
  intro t' s'
  have hi := (Records.isConsistent_iff _).1 hconsistent
  have hproper : s.records.Proper := fun tag ht => ⟨hnormal tag ht, hline tag ht⟩
  have hwrite : s.write t = (.ok (), t') := by
    have hp := s.persist_direct t hdirect
    rw [hp] at hok
    exact Prod.ext hok (congrArg Store.Outcome.tree hp).symm
  have hholds : Store.Holds t' path (Store.textOf s.records) := by
    have hsaved := Store.write_saved hwrite
    rw [hpath] at hsaved
    exact hsaved.2
  have hopen : s' = { path := some path, records := s.records, status := .loaded 0 } := by
    show Store.reload { path := some path } t' = _
    rw [Store.reload]
    simp only [Store.load_of_holds hi hproper hholds]
  have hrecords : s'.records = s.records := by rw [hopen]
  refine ⟨by rw [hopen], by rw [hopen]; rfl, by rw [hrecords], by rw [hrecords], hrecords,
    _, _, hholds.readText, hproper.ofText?_textOf, ?_⟩
  rw [hrecords]
  rfl

/-- The last line of 64 bits and a description with quotes, a backslash and control characters
survive. -/
theorem Store.tags_of_reopened :
    let tag : Tag :=
      ⟨⟨"A", 1, by decide⟩, .impl, .task, "a.rs", UInt64.size - 1, some "\"\\\n\x07é"⟩
    let s : Store := { path := some "store.json", records := .ofTags [tag] }
    (s.persist {}).result = .ok () ∧
      (Store.openAt (s.persist {}).tree "store.json").status = .loaded 0 ∧
      (Store.openAt (s.persist {}).tree "store.json").tags = [tag] := by
  intro tag s
  have htags : s.tags = [tag] := rfl
  have hok : (s.persist {}).result = .ok () := rfl
  have hconsistent : s.records.isConsistent = true :=
    (Records.isConsistent_iff _).2 (Records.indexed_ofTags [tag])
  have h := Store.openAt_of_persist s {} "store.json" rfl rfl hconsistent
    (by rw [htags]; decide) (by rw [htags]; decide) hok
  exact ⟨hok, h.1, h.2.1.trans htags⟩

end SpecLinkage
