import SpecLinkage.Proofs.Store.Queries
import SpecLinkage.Proofs.Store.Reopen

/-! # Loading a document

A document may hold anything: records whose texts mean nothing, several records with one key, and
an index of files that does not fit.  Loading it puts the tags of the valid records into an empty
store, one after the other, so that of the records with one key the last one stays.

* `Entry.IsValid` and `Entry.HasKey` say on the texts of a record whether it states a tag, and under
  which key; `Entry.tag?_eq_some_iff`: the tag has these texts.
* `StoreDocument.get?_records`: under a key stands the last valid record that has it.
* `Store.Replays` is what a store holds after loading a document; `Store.reload_replays` is the
  result. -/

namespace SpecLinkage

/-! ## Records -/

namespace Entry

/-- Whether the texts of a record are those of a spec identifier, a verb and a category. -/
def IsValid (e : Entry) : Prop :=
  (∃ id : SpecId, e.specId = id.text) ∧ (∃ v : Verb, e.verb = v.text) ∧
    ∃ c : Category, e.category = c.text

/-- Whether a record stands for a key, once its path is normalized. -/
structure HasKey (e : Entry) (k : RecordKey) : Prop where
  filePath : normalizePath e.filePath = k.filePath
  line : e.line = k.line
  specId : e.specId = k.specId
  category : e.category = k.category.text
  verb : e.verb = k.verb.text

/-- A record reads as the tag that has its texts, under the normalized path. -/
theorem tag?_eq_some_iff {e : Entry} {t : Tag} :
    e.tag? = some t ↔ e.specId = t.specId.text ∧ e.verb = t.verb.text ∧
      e.category = t.category.text ∧ normalizePath e.filePath = t.filePath ∧ e.line = t.line ∧
      e.description = t.description := by
  rw [← SpecId.ofText?_eq_some_iff, ← Verb.ofText?_eq_some_iff, ← Category.ofText?_eq_some_iff, tag?]
  constructor
  · intro h
    split at h
    · next hid hverb hcategory =>
      cases h
      exact ⟨hid, hverb, hcategory, rfl, rfl, rfl⟩
    · cases h
  · rintro ⟨hid, hverb, hcategory, hpath, hline, hdescription⟩
    simp only [hid, hverb, hcategory, Tag.make, hpath, hline, hdescription]

theorem isValid_iff {e : Entry} : e.IsValid ↔ ∃ t, e.tag? = some t := by
  constructor
  · rintro ⟨⟨id, hid⟩, ⟨v, hv⟩, c, hc⟩
    exact ⟨.make id v c e.filePath e.line e.description,
      tag?_eq_some_iff.2 ⟨hid, hv, hc, rfl, rfl, rfl⟩⟩
  · rintro ⟨t, ht⟩
    obtain ⟨hid, hv, hc, -⟩ := tag?_eq_some_iff.1 ht
    exact ⟨⟨_, hid⟩, ⟨_, hv⟩, _, hc⟩

instance : DecidablePred IsValid := fun e =>
  decidable_of_iff (e.tag?.isSome = true) (Option.isSome_iff_exists.trans isValid_iff.symm)

/-- The key of a record is that of its tag. -/
theorem hasKey_iff {e : Entry} {t : Tag} (h : e.tag? = some t) {k : RecordKey} :
    e.HasKey k ↔ RecordKey.ofTag t = k := by
  obtain ⟨hid, hv, hc, hpath, hline, -⟩ := tag?_eq_some_iff.1 h
  constructor
  · intro hk
    have hcategory : t.category = k.category := Option.some.inj <| by
      rw [← t.category.ofText?_text, ← hc, hk.category, k.category.ofText?_text]
    have hverb : t.verb = k.verb := Option.some.inj <| by
      rw [← t.verb.ofText?_text, ← hv, hk.verb, k.verb.ofText?_text]
    rw [RecordKey.ofTag, ← hpath, ← hline, ← hid, hcategory, hverb, hk.filePath, hk.line, hk.specId]
  · rintro rfl
    exact ⟨hpath, hline, hid, hc, hv⟩

/-- Whether a record is the last one that is valid and has the key. -/
def IsLast (es : List Entry) (k : RecordKey) (e : Entry) : Prop :=
  ∃ before after, es = before ++ e :: after ∧ e.IsValid ∧ e.HasKey k ∧
    ∀ e' ∈ after, e'.IsValid → ¬e'.HasKey k

/-- Whether a record states a tag with the key. -/
def states (k : RecordKey) (e : Entry) : Bool := e.tag?.any fun t => decide (RecordKey.ofTag t = k)

theorem states_iff {e : Entry} {k : RecordKey} : e.states k = true ↔ e.IsValid ∧ e.HasKey k := by
  rw [states, Option.any_eq_true, isValid_iff]
  constructor
  · rintro ⟨t, ht, hk⟩
    exact ⟨⟨t, ht⟩, (hasKey_iff ht).2 (of_decide_eq_true hk)⟩
  · rintro ⟨⟨t, ht⟩, hk⟩
    exact ⟨t, ht, decide_eq_true ((hasKey_iff ht).1 hk)⟩

/-- Searching from the end finds the last record. -/
theorem find?_states_eq_some_iff {es : List Entry} {k : RecordKey} {e : Entry} :
    es.reverse.find? (states k) = some e ↔ IsLast es k e := by
  rw [find?_reverse_eq_some_iff, states_iff, IsLast]
  simp only [Bool.eq_false_iff, ne_eq, states_iff, not_and]
  constructor
  · rintro ⟨⟨hvalid, hkey⟩, before, after, hes, hafter⟩
    exact ⟨before, after, hes, hvalid, hkey, hafter⟩
  · rintro ⟨before, after, hes, hvalid, hkey, hafter⟩
    exact ⟨⟨hvalid, hkey⟩, before, after, hes, hafter⟩

end Entry

/-! ## Documents -/

namespace StoreDocument

variable {d : StoreDocument} {k : RecordKey} {t : Tag}

/-- Under a key stands the tag of the last valid record that has it. -/
theorem get?_records : d.records.entries.get? k = some t ↔
    ∃ e, Entry.IsLast d.entries k e ∧ e.tag? = some t := by
  have hfind : d.records.entries.get? k =
      (d.entries.reverse.find? (Entry.states k)).bind Entry.tag? := by
    rw [records, Records.ofTags, Records.entries_insertAll, TagMap.get?_upsertAll,
      TagMap.lastAt, tags, ← List.filterMap_reverse, List.find?_filterMap]
    exact Option.or_none
  rw [hfind, Option.bind_eq_some_iff]
  simp only [Entry.find?_states_eq_some_iff]

/-- A key is recorded exactly if a valid record has it. -/
theorem contains_records : d.records.entries.contains k = true ↔
    ∃ e ∈ d.entries, e.IsValid ∧ e.HasKey k := by
  have hlast : (∃ e ∈ d.entries, e.IsValid ∧ e.HasKey k) ↔ ∃ e, Entry.IsLast d.entries k e := by
    simp only [← Entry.find?_states_eq_some_iff, ← Option.isSome_iff_exists, List.find?_isSome,
      List.mem_reverse, Entry.states_iff]
  rw [SortedMap.contains_iff, hlast]
  simp only [get?_records]
  constructor
  · rintro ⟨t, e, he, -⟩
    exact ⟨e, he⟩
  · rintro ⟨e, he⟩
    have hvalid : e.IsValid := by
      obtain ⟨-, -, -, hvalid, -⟩ := he
      exact hvalid
    obtain ⟨t, ht⟩ := Entry.isValid_iff.1 hvalid
    exact ⟨t, e, he, ht⟩

/-- The records that are skipped are those that are not valid. -/
theorem skipped_eq (d : StoreDocument) : d.skipped = d.entries.countP fun e => !decide e.IsValid := by
  apply List.countP_congr
  intro e _
  rw [Bool.not_eq_true', decide_eq_false_iff_not, Entry.isValid_iff, Option.isNone_iff_eq_none,
    Option.eq_none_iff_forall_ne_some, not_exists]

end StoreDocument

/-! ## Stores -/

namespace Store

/-- What a store holds that was loaded from a document. -/
structure Replays (s : Store) (d : StoreDocument) : Prop where
  /-- The records that are not valid are counted. -/
  status : s.status = .loaded (d.entries.countP fun e => !decide e.IsValid)
  /-- Every tag is that of the last valid record with its key. -/
  last : ∀ tag ∈ s.tags, ∃ e, Entry.IsLast d.entries (.ofTag tag) e ∧
    tag.description = e.description
  /-- There is a tag for exactly the keys of the valid records. -/
  keys : ∀ k, (∃ tag ∈ s.tags, RecordKey.ofTag tag = k) ↔ ∃ e ∈ d.entries, e.IsValid ∧ e.HasKey k
  /-- No key has more than one tag. -/
  once : (s.tags.map RecordKey.ofTag).Nodup
  consistent : s.records.isConsistent = true

variable {s : Store} {d : StoreDocument}

theorem replays_of_records (hrecords : s.records = d.records)
    (hstatus : s.status = .loaded d.skipped) : s.Replays d := by
  have hindexed : s.records.Indexed := hrecords ▸ Records.indexed_ofTags d.tags
  have hkeyed : ∀ {tag}, tag ∈ s.tags ↔ d.records.entries.get? (.ofTag tag) = some tag := by
    intro tag
    rw [tags, Records.tags, SortedMap.mem_values_iff, ← hrecords]
    constructor
    · rintro ⟨k, hk⟩
      rwa [← hindexed.keyed k tag hk]
    · exact fun h => ⟨_, h⟩
  refine ⟨by rw [hstatus, d.skipped_eq], fun tag htag => ?_, fun k => ?_, ?_,
    (Records.isConsistent_iff _).2 hindexed⟩
  · obtain ⟨e, he, ht⟩ := StoreDocument.get?_records.1 (hkeyed.1 htag)
    exact ⟨e, he, (Entry.tag?_eq_some_iff.1 ht).2.2.2.2.2.symm⟩
  · rw [← StoreDocument.contains_records, SortedMap.contains_iff]
    constructor
    · rintro ⟨tag, htag, rfl⟩
      exact ⟨tag, hkeyed.1 htag⟩
    · rintro ⟨tag, htag⟩
      obtain rfl := hindexed.keyed k tag (by rwa [hrecords])
      exact ⟨tag, hkeyed.2 htag, rfl⟩
  · rw [List.nodup_iff_pairwise_ne, List.pairwise_map]
    refine hindexed.tags_pairwise.imp fun {t u} hlt heq => ?_
    rw [heq] at hlt
    exact SortedMap.not_lt_self hlt

variable {t : FileTree} {path text : String}

theorem reload_eq (hpath : s.path = some path) (t : FileTree) :
    s.reload t = { s with records := (load t path).1, status := (load t path).2 } := by
  rw [reload, hpath]

theorem load_of_document (hread : t.readText path = .ok text)
    (hd : StoreDocument.ofText? text = some d) : load t path = (d.records, .loaded d.skipped) := by
  rw [load, hread]
  simp only [hd]

theorem load_of_corrupted (hread : t.readText path = .ok text)
    (hd : StoreDocument.ofText? text = none) :
    load t path = ({}, .degraded (.corrupted path)) := by
  rw [load, hread]
  simp only [hd]

theorem load_of_error {e : AccessError} (hread : t.readText path = .error e) :
    load t path = ({}, if e = .missing then .fresh else .unreadable (.unreadable path e)) := by
  rw [load, hread]
  cases e <;> rfl

/-- **Loading is a last-wins fold.**  A store that is loaded from a document holds under every key
the last valid record of the document.  The index of files in the document does not matter, and
neither does what the store held before.  Where there is no document to be read, the store is empty,
and so are its indexes. -/
theorem reload_replays (s : Store) (t : FileTree) (path : String) (hpath : s.path = some path) :
    (∀ text d, t.readText path = .ok text → StoreDocument.ofText? text = some d →
      (s.reload t).Replays d ∧
        ∀ (s' : Store) (t' : FileTree) (path' text' : String) (d' : StoreDocument),
          s'.path = some path' → t'.readText path' = .ok text' →
          StoreDocument.ofText? text' = some d' → d'.entries = d.entries →
            (s'.reload t').records = (s.reload t).records ∧
              (s'.reload t').status = (s.reload t).status) ∧
      (∀ text, t.readText path = .ok text → StoreDocument.ofText? text = none →
        (s.reload t).records = ⟨∅, ∅, ∅⟩ ∧ (s.reload t).status = .degraded (.corrupted path)) ∧
      ∀ e, t.readText path = .error e →
        (s.reload t).records = ⟨∅, ∅, ∅⟩ ∧
          (s.reload t).status =
            if e = .missing then .fresh else .unreadable (.unreadable path e) := by
  refine ⟨fun text d hread hd => ⟨?_, ?_⟩, fun text hread hd => ?_, fun e hread => ?_⟩
  · apply replays_of_records <;> rw [reload_eq hpath, load_of_document hread hd]
  · intro s' t' path' text' d' hpath' hread' hd' hentries
    rw [reload_eq hpath, reload_eq hpath', load_of_document hread hd, load_of_document hread' hd']
    simp only [StoreDocument.records, StoreDocument.tags, StoreDocument.skipped, hentries, and_self]
  · rw [reload_eq hpath, load_of_corrupted hread hd]
    exact ⟨rfl, rfl⟩
  · rw [reload_eq hpath, load_of_error hread]
    exact ⟨rfl, rfl⟩

/-- A document as it may be left behind by hand: a record stands there twice, under two spellings of
its path, the one between them has no known verb, and the index names another file. -/
def handEdited : StoreDocument where
  entries := [⟨"SPEC-A-001", "impl", "CODE", ".\\a.rs", 3, some "first"⟩,
    ⟨"SPEC-A-001", "IMPL", "CODE", "a.rs", 3, some "second"⟩,
    ⟨"SPEC-A-001", "impl", "CODE", "a.rs", 3, none⟩]
  files := .ofList [("b.rs", ["SPEC-B-001"])]

/-- The last valid record stays, whatever the store held before. -/
theorem reload_replays_handEdited :
    let s : Store := { path := some "s.json", records := .ofTags handEdited.tags, dirty := true }
    let t := (writeAll {} "s.json" handEdited.text).2
    s.path = some "s.json" ∧ t.readText "s.json" = .ok handEdited.text ∧
      StoreDocument.ofText? handEdited.text = some handEdited ∧ (s.reload t).status = .loaded 1 ∧
      ∃ tag ∈ (s.reload t).tags,
        RecordKey.ofTag tag = ⟨"a.rs", 3, "SPEC-A-001", .code, .impl⟩ ∧ tag.description = none := by
  intro s t
  have hread : t.readText "s.json" = .ok handEdited.text := by
    have hwrite : writeAll {} "s.json" handEdited.text = (.ok (), t) := Prod.ext rfl rfl
    exact (writeAll_holds hwrite).2.readText
  have hd : StoreDocument.ofText? handEdited.text = some handEdited :=
    StoreDocument.ofText?_text (by decide)
  have h := ((reload_replays s t "s.json" rfl).1 _ _ hread hd).1
  have hfound : handEdited.entries.reverse.find?
      (Entry.states ⟨"a.rs", 3, "SPEC-A-001", .code, .impl⟩) =
        some ⟨"SPEC-A-001", "impl", "CODE", "a.rs", 3, none⟩ := by decide +kernel
  have hstates := Entry.states_iff.1 (List.find?_some hfound)
  obtain ⟨tag, htag, hkey⟩ := (h.keys _).2
    ⟨_, List.mem_reverse.1 (List.mem_of_find?_eq_some hfound), hstates⟩
  refine ⟨rfl, hread, hd, h.status.trans (by decide +kernel), tag, htag, hkey, ?_⟩
  obtain ⟨e, hlast, hdescription⟩ := h.last tag htag
  rw [hkey, ← Entry.find?_states_eq_some_iff, hfound] at hlast
  cases hlast
  exact hdescription

end Store

end SpecLinkage
