import SpecLinkage.Proofs.Order.Listing
import SpecLinkage.Store.Records

/-! # The plain map of a store

What a store holds, without its indexes: a finite map from keys to tags, and what a reader
sees of it.  Changes of the map are insertions and filters, and every question is answered by
going through all tags.

* `TagMap.upsert`, `TagMap.ofFile` and `TagMap.withoutFile` are the changes.
* `TagMap.get?_upsertAll`: of the recorded tags with one key the last one stays.
* `StoreView` is what can be asked; `TagMap.view` are the answers of the plain map, and
  `Records.view` those of records with their indexes. -/

namespace SpecLinkage

/-- Searching from the end finds the last element that satisfies `p`. -/
theorem find?_reverse_eq_some_iff {α : Type} {p : α → Bool} {l : List α} {a : α} :
    l.reverse.find? p = some a ↔
      p a = true ∧ ∃ before after, l = before ++ a :: after ∧ ∀ b ∈ after, p b = false := by
  rw [List.find?_eq_some_iff_append]
  simp only [Bool.not_eq_true']
  refine and_congr_right fun _ => ⟨?_, ?_⟩
  · rintro ⟨after, before, hl, hafter⟩
    refine ⟨before.reverse, after.reverse, ?_, fun b hb => hafter b (List.mem_reverse.1 hb)⟩
    rw [← List.reverse_reverse l, hl, List.reverse_append, List.reverse_cons, List.append_assoc,
      List.singleton_append]
  · rintro ⟨before, after, rfl, hafter⟩
    refine ⟨after.reverse, before.reverse, ?_, fun b hb => hafter b (List.mem_reverse.1 hb)⟩
    rw [List.reverse_append, List.reverse_cons, List.append_assoc, List.singleton_append]

/-- The tags of a store by their keys. -/
abbrev TagMap := SortedMap RecordKey Tag

namespace TagMap

/-- Record a tag in the place of an older one with its key. -/
def upsert (m : TagMap) (t : Tag) : TagMap := m.insert (.ofTag t) t

/-- Record tags from the first to the last. -/
def upsertAll (m : TagMap) (ts : List Tag) : TagMap := ts.foldl upsert m

def ofFile (m : TagMap) (file : String) : TagMap := m.filter fun k _ => k.filePath == file

def withoutFile (m : TagMap) (file : String) : TagMap := m.filter fun k _ => k.filePath != file

theorem get?_withoutFile (m : TagMap) (file : String) (k : RecordKey) :
    (m.withoutFile file).get? k = if k.filePath = file then none else m.get? k := by
  rw [withoutFile, SortedMap.get?_filter]
  by_cases h : k.filePath = file <;> cases m.get? k <;> simp [Option.filter, h]

/-- A map without tags of a file stays as it is when the file goes. -/
theorem withoutFile_of_absent {m : TagMap} {file : String}
    (h : ∀ k, m.contains k = true → k.filePath ≠ file) : m.withoutFile file = m := by
  apply SortedMap.ext_get?
  intro k
  rw [get?_withoutFile]
  by_cases hfile : k.filePath = file
  · have hk : m.get? k = none := by
      cases hk : m.get? k with
      | none => rfl
      | some t => exact absurd hfile (h k ((SortedMap.contains_iff m k).2 ⟨t, hk⟩))
    rw [if_pos hfile, hk]
  · rw [if_neg hfile]

theorem contains_withoutFile (m : TagMap) (file : String) (k : RecordKey) :
    (m.withoutFile file).contains k = true ↔ m.contains k = true ∧ k.filePath ≠ file := by
  rw [withoutFile, SortedMap.contains_filter, Bool.and_eq_true, bne_iff_ne]

theorem mem_values_withoutFile {m : TagMap} {file : String} {t : Tag}
    (h : t ∈ (m.withoutFile file).values) : t ∈ m.values := by
  obtain ⟨k, hk⟩ := (SortedMap.mem_values_iff _ t).1 h
  rw [get?_withoutFile] at hk
  split at hk
  · cases hk
  · exact (SortedMap.mem_values_iff m t).2 ⟨k, hk⟩

theorem mem_values_upsert {m : TagMap} {t u : Tag} (h : t ∈ (m.upsert u).values) :
    t = u ∨ t ∈ m.values := by
  obtain ⟨k, hk⟩ := (SortedMap.mem_values_iff _ t).1 h
  rw [upsert] at hk
  by_cases hu : k = .ofTag u
  · rw [hu, SortedMap.get?_insert_self] at hk
    exact .inl (Option.some.inj hk).symm
  · rw [SortedMap.get?_insert_of_ne _ _ hu] at hk
    exact .inr ((SortedMap.mem_values_iff m t).2 ⟨k, hk⟩)

theorem mem_values_upsertAll {m : TagMap} {ts : List Tag} {t : Tag}
    (h : t ∈ (m.upsertAll ts).values) : t ∈ m.values ∨ t ∈ ts := by
  induction ts generalizing m with
  | nil => exact .inl h
  | cons u ts ih =>
    rcases ih h with h | h
    · rcases mem_values_upsert h with rfl | h
      · exact .inr List.mem_cons_self
      · exact .inl h
    · exact .inr (List.mem_cons_of_mem u h)

end TagMap

/-! ## The last tag with a key -/

/-- Whether a tag is the last one with its key. -/
def Tag.IsLast (t : Tag) (ts : List Tag) : Prop :=
  ∃ before after, ts = before ++ t :: after ∧
    ∀ u ∈ after, RecordKey.ofTag u ≠ RecordKey.ofTag t

namespace TagMap

def lastAt (k : RecordKey) (ts : List Tag) : Option Tag :=
  ts.reverse.find? fun t => decide (RecordKey.ofTag t = k)

theorem lastAt_eq_some_iff {k : RecordKey} {ts : List Tag} {t : Tag} :
    lastAt k ts = some t ↔ RecordKey.ofTag t = k ∧ t.IsLast ts := by
  rw [lastAt, find?_reverse_eq_some_iff, decide_eq_true_eq]
  refine and_congr_right ?_
  rintro rfl
  simp only [Tag.IsLast, decide_eq_false_iff_not, ne_eq]

/-- Among recorded tags with one key the last one stays. -/
theorem get?_upsertAll (m : TagMap) (ts : List Tag) (k : RecordKey) :
    (m.upsertAll ts).get? k = (lastAt k ts).or (m.get? k) := by
  induction ts generalizing m with
  | nil => rfl
  | cons t ts ih =>
    have hlast : lastAt k (t :: ts) =
        (lastAt k ts).or (if RecordKey.ofTag t = k then some t else none) := by
      rw [lastAt, List.reverse_cons, List.find?_append, List.find?_singleton]
      simp only [decide_eq_true_eq]
      rfl
    have hupsert : (m.upsert t).get? k =
        (if RecordKey.ofTag t = k then some t else none).or (m.get? k) := by
      rw [upsert]
      split
      · next h =>
        rw [h, SortedMap.get?_insert_self]
        rfl
      · next h => rw [SortedMap.get?_insert_of_ne _ _ (Ne.symm h), Option.none_or]
    show ((m.upsert t).upsertAll ts).get? k = _
    rw [ih, hlast, hupsert, Option.or_assoc]

end TagMap

/-! ## Questions -/

/-- What can be asked about the tags of a store. -/
structure StoreView where
  /-- All tags in the order of their keys. -/
  tags : List Tag
  tagsOfSpec : String → List Tag
  tagsOfFile : String → List Tag
  /-- The places that refer to a spec. -/
  locations : String → List (String × Nat)
  specIds : List String
  files : List String
  isConsistent : Bool

/-- Whether a place comes before another: by file, then by line. -/
def placeLT (a b : String × Nat) : Prop := compare a.1 b.1 = .lt ∨ a.1 = b.1 ∧ a.2 < b.2

/-- The answers that come from the indexes. -/
def Records.view (r : Records) : StoreView where
  tags := r.tags
  tagsOfSpec := r.tagsOfSpec
  tagsOfFile := r.tagsOfFile
  locations := r.locations
  specIds := r.specIds
  files := r.files
  isConsistent := r.isConsistent

/-- The answers that come from going through all tags. -/
def TagMap.view (m : TagMap) : StoreView where
  tags := m.values
  tagsOfSpec id := m.values.filter fun t => t.specId.text == id
  tagsOfFile file := m.values.filter fun t => t.filePath == normalizePath file
  locations id := ((m.values.filter fun t => t.specId.text == id).map fun t =>
    (t.filePath, t.line)).eraseDups
  specIds := (SortedSet.ofMembers (m.values.map fun t => t.specId.text)).keys
  files := (SortedSet.ofMembers (m.values.map Tag.filePath)).keys
  isConsistent := true

end SpecLinkage
