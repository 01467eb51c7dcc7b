import SpecLinkage.Proofs.Store.TagMap

/-! # The indexes of a store

Records keep three things in step: the tags by their keys, and the keys by spec and by file.
`Records.Indexed` says that they fit; every change keeps it, and does to the tags what the
plain map says.

* `KeyIndex.has_add`, `has_drop` and `has_erase` describe an index through what it lists.
* `Indexed.insert`, `Indexed.removeFile` and `indexed_ofTags`: the changes keep `Indexed`.
* `Indexed.ext`: with their indexes in step, records are determined by their tags.
* `isConsistent_iff`: the check of a store decides `Indexed`. -/

namespace SpecLinkage

/-! ## What an index lists -/

namespace KeyIndex

/-- Whether a key is listed under a name. -/
def has (i : KeyIndex) (name : String) (k : RecordKey) : Bool :=
  ((i.get? name).getD .empty).contains k

/-- Every name has keys. -/
def NoEmptyName (i : KeyIndex) : Prop := ∀ name keys, i.get? name = some keys → keys.keys ≠ []

theorem mem_keysAt_iff (i : KeyIndex) (name : String) (k : RecordKey) :
    k ∈ i.keysAt name ↔ i.has name k = true := by
  unfold keysAt has
  cases i.get? name with
  | none => simp [SortedMap.contains]
  | some keys => exact SortedMap.mem_keys_iff keys k

theorem keysAt_pairwise (i : KeyIndex) (name : String) :
    (i.keysAt name).Pairwise fun a b => compare a b = .lt := by
  unfold keysAt
  cases i.get? name with
  | none => exact .nil
  | some keys => exact keys.keys_pairwise

theorem has_add (i : KeyIndex) (n n' : String) (k k' : RecordKey) :
    (i.add n k).has n' k' = (decide (n' = n ∧ k' = k) || i.has n' k') := by
  unfold has add
  by_cases hn : n' = n
  · subst hn
    rw [SortedMap.get?_insert_self, Option.getD_some, SortedSet.contains_add]
    by_cases hk : k' = k <;> simp [hk]
  · rw [SortedMap.get?_insert_of_ne _ _ hn]
    simp [hn]

theorem has_erase (i : KeyIndex) (n n' : String) (k : RecordKey) :
    has (i.erase n) n' k = (decide (n' ≠ n) && i.has n' k) := by
  unfold has
  by_cases hn : n' = n
  · subst hn
    rw [SortedMap.get?_erase_self]
    simp [SortedMap.contains]
  · rw [SortedMap.get?_erase_of_ne _ hn]
    simp [hn]

theorem has_drop (i : KeyIndex) (n n' : String) (k k' : RecordKey) :
    (i.drop n k).has n' k' = (i.has n' k' && decide ¬(n' = n ∧ k' = k)) := by
  unfold drop
  cases hi : i.get? n with
  | none =>
    by_cases hn : n' = n
    · subst hn
      simp [has, hi, SortedMap.contains]
    · simp [hn]
  | some keys =>
    by_cases hn : n' = n
    · subst hn
      have hc : i.has n' k' = keys.contains k' := by rw [has, hi]; rfl
      have he : SortedMap.contains (keys.erase k) k' = (keys.contains k' && decide (k' ≠ k)) := by
        rw [SortedSet.contains_erase]
        by_cases hk : k' = k <;> simp [hk]
      simp only
      split
      · next hempty =>
        -- the last key of the name went, so nothing else was listed under it
        have : SortedMap.contains (keys.erase k) k' = false := by
          rw [Bool.eq_false_iff]
          intro h
          have := (SortedMap.mem_keys_iff _ k').2 h
          rw [SortedMap.keys, List.isEmpty_iff.1 hempty] at this
          cases this
        rw [has_erase, hc]
        rw [he] at this
        simpa using this.symm
      · rw [has, SortedMap.get?_insert_self, Option.getD_some, he, hc]
        simp
    · simp only
      split
      · rw [has_erase]; simp [hn]
      · rw [has, SortedMap.get?_insert_of_ne _ _ hn]; simp [has, hn]

theorem NoEmptyName.add {i : KeyIndex} (h : i.NoEmptyName) (n : String) (k : RecordKey) :
    (i.add n k).NoEmptyName := by
  intro name keys hk
  by_cases hn : name = n
  · subst hn
    unfold KeyIndex.add at hk
    rw [SortedMap.get?_insert_self] at hk
    obtain rfl := Option.some.inj hk
    refine List.ne_nil_of_mem ((SortedMap.mem_keys_iff _ k).2 ?_)
    rw [SortedSet.contains_add]
    simp
  · unfold KeyIndex.add at hk
    rw [SortedMap.get?_insert_of_ne _ _ hn] at hk
    exact h name keys hk

theorem NoEmptyName.erase {i : KeyIndex} (h : i.NoEmptyName) (n : String) :
    NoEmptyName (i.erase n) := by
  intro name keys hk
  by_cases hn : name = n
  · subst hn
    rw [SortedMap.get?_erase_self] at hk
    cases hk
  · rw [SortedMap.get?_erase_of_ne _ hn] at hk
    exact h name keys hk

theorem NoEmptyName.drop {i : KeyIndex} (h : i.NoEmptyName) (n : String) (k : RecordKey) :
    (i.drop n k).NoEmptyName := by
  unfold KeyIndex.drop
  split
  · exact h
  · next keys hi =>
    simp only
    split
    · exact h.erase n
    · next hne =>
      intro name keys' hk
      by_cases hn : name = n
      · subst hn
        rw [SortedMap.get?_insert_self] at hk
        obtain rfl := Option.some.inj hk
        intro he
        exact hne (by simpa [SortedMap.isEmpty, SortedMap.keys] using he)
      · rw [SortedMap.get?_insert_of_ne _ _ hn] at hk
        exact h name keys' hk

theorem ext_has {i j : KeyIndex} (hi : i.NoEmptyName) (hj : j.NoEmptyName)
    (h : ∀ n k, i.has n k = j.has n k) : i = j := by
  have listed : ∀ {a b : KeyIndex}, a.NoEmptyName → (∀ n k, a.has n k = b.has n k) →
      ∀ n keys, a.get? n = some keys → b.get? n ≠ none := by
    intro a b ha hab n keys hk hb
    obtain ⟨k, hmem⟩ := List.exists_mem_of_ne_nil _ (ha n keys hk)
    have hhas : a.has n k = true := by
      rw [has, hk]
      exact (SortedMap.mem_keys_iff keys k).1 hmem
    rw [hab, has, hb] at hhas
    cases hhas
  apply SortedMap.ext_get?
  intro n
  cases ha : i.get? n with
  | none =>
    cases hb : j.get? n with
    | none => rfl
    | some keys => exact absurd ha (listed hj (fun n k => (h n k).symm) n keys hb)
  | some keys =>
    obtain ⟨keys', hb⟩ := Option.ne_none_iff_exists'.1 (listed hi h n keys ha)
    rw [hb]
    congr 1
    apply SortedSet.ext_contains
    intro k
    have := h n k
    rwa [has, has, ha, hb] at this

/-- An index lists exactly the keys of a map, each under its name, and has no empty name. -/
structure Lists (i : KeyIndex) (nameOf : RecordKey → String) (m : TagMap) : Prop where
  has_iff : ∀ name k, i.has name k = true ↔ nameOf k = name ∧ m.contains k = true
  noEmptyName : i.NoEmptyName

/-- Under a name stand the keys of the map that have this name, in order. -/
theorem Lists.keysAt_eq {i : KeyIndex} {nameOf : RecordKey → String} {m : TagMap}
    (h : i.Lists nameOf m) (name : String) :
    i.keysAt name = m.keys.filter fun k => nameOf k == name := by
  apply eq_of_pairwise_lt (i.keysAt_pairwise name) (m.keys_pairwise.filter _)
  intro k
  rw [mem_keysAt_iff, h.has_iff, List.mem_filter, SortedMap.mem_keys_iff, beq_iff_eq, and_comm]

theorem Lists.add {i : KeyIndex} {nameOf : RecordKey → String} {m : TagMap}
    (h : i.Lists nameOf m) (k : RecordKey) (t : Tag) :
    (i.add (nameOf k) k).Lists nameOf (m.insert k t) where
  has_iff := by
    intro name k'
    rw [KeyIndex.has_add, Bool.or_eq_true, decide_eq_true_eq, h.has_iff]
    by_cases hk : k' = k
    · subst hk
      simp only [and_true, SortedMap.contains, SortedMap.get?_insert_self, Option.isSome_some]
      constructor
      · rintro (h | h)
        · exact h.symm
        · exact h.1
      · exact fun h => .inl h.symm
    · simp only [hk, and_false, false_or, SortedMap.contains, SortedMap.get?_insert_of_ne _ _ hk]
  noEmptyName := h.noEmptyName.add _ _

end KeyIndex

/-! ## Records in step with their indexes -/

namespace Records

/-- Every tag stands under its own key, and both indexes list exactly the recorded keys. -/
structure Indexed (r : Records) : Prop where
  keyed : ∀ k t, r.entries.get? k = some t → k = RecordKey.ofTag t
  bySpec : r.bySpec.Lists RecordKey.specId r.entries
  byFile : r.byFile.Lists RecordKey.filePath r.entries

theorem indexed_empty : ({} : Records).Indexed where
  keyed := by intro k t h; cases h
  bySpec := ⟨by intro n k; simp [KeyIndex.has, SortedMap.contains], by intro n keys h; cases h⟩
  byFile := ⟨by intro n k; simp [KeyIndex.has, SortedMap.contains], by intro n keys h; cases h⟩

/-- Records in step with their indexes are determined by their tags. -/
theorem Indexed.ext {r r' : Records} (h : r.Indexed) (h' : r'.Indexed)
    (he : r.entries = r'.entries) : r = r' := by
  have index : ∀ {i j : KeyIndex} {nameOf : RecordKey → String}, i.Lists nameOf r.entries →
      j.Lists nameOf r'.entries → i = j := by
    intro i j nameOf hi hj
    apply KeyIndex.ext_has hi.noEmptyName hj.noEmptyName
    intro n k
    rw [Bool.eq_iff_iff, hi.has_iff, hj.has_iff, he]
  have hs : r.bySpec = r'.bySpec := index h.bySpec h'.bySpec
  have hf : r.byFile = r'.byFile := index h.byFile h'.byFile
  cases r
  cases r'
  simp_all

/-! ### Recording tags -/

theorem Indexed.insert {r : Records} (h : r.Indexed) (t : Tag) : (r.insert t).Indexed where
  keyed := by
    intro k t' hk
    change (r.entries.insert (.ofTag t) t).get? k = some t' at hk
    by_cases he : k = .ofTag t
    · subst he
      rw [SortedMap.get?_insert_self] at hk
      obtain rfl := Option.some.inj hk
      rfl
    · rw [SortedMap.get?_insert_of_ne _ _ he] at hk
      exact h.keyed k t' hk
  bySpec := h.bySpec.add (.ofTag t) t
  byFile := h.byFile.add (.ofTag t) t

theorem Indexed.insertAll {r : Records} (h : r.Indexed) (ts : List Tag) :
    (r.insertAll ts).Indexed := by
  induction ts generalizing r with
  | nil => exact h
  | cons t ts ih => exact ih (h.insert t)

theorem indexed_ofTags (ts : List Tag) : (ofTags ts).Indexed := indexed_empty.insertAll ts

theorem entries_insertAll (r : Records) (ts : List Tag) :
    (r.insertAll ts).entries = TagMap.upsertAll r.entries ts := by
  induction ts generalizing r with
  | nil => rfl
  | cons t ts ih => exact ih (r.insert t)

/-- Recording the tags of records anew gives the records. -/
theorem Indexed.ofTags_tags {r : Records} (h : r.Indexed) : ofTags r.tags = r := by
  apply (indexed_ofTags _).ext h
  have key : ∀ (l : List (RecordKey × Tag)) (m : TagMap), (∀ e ∈ l, e.1 = .ofTag e.2) →
      m.upsertAll (l.map (·.2)) = m.insertMany l := by
    intro l
    induction l with
    | nil => intro m _; rfl
    | cons e l ih =>
      intro m hl
      have he : m.insert e.1 e.2 = m.upsert e.2 := by rw [hl e List.mem_cons_self]; rfl
      show (m.upsert e.2).upsertAll (l.map (·.2)) = (m.insert e.1 e.2).insertMany l
      rw [ih _ fun e' he' => hl e' (List.mem_cons_of_mem _ he'), he]
  rw [ofTags, entries_insertAll, tags, SortedMap.values, key]
  · exact SortedMap.ofList_toList r.entries
  · intro e he
    exact h.keyed e.1 e.2 ((SortedMap.mem_toList_iff _).1 he)

/-! ### Forgetting tags -/

/-- Forgetting keys takes them, and nothing else, from the tags and from the index by
spec. -/
theorem foldl_eraseKey (ks : List RecordKey) (r : Records) :
    (∀ k, (ks.foldl eraseKey r).entries.get? k = if k ∈ ks then none else r.entries.get? k) ∧
      (∀ n k, (ks.foldl eraseKey r).bySpec.has n k =
        (r.bySpec.has n k && decide ¬(n = k.specId ∧ k ∈ ks))) ∧
      (r.bySpec.NoEmptyName → (ks.foldl eraseKey r).bySpec.NoEmptyName) ∧
      (ks.foldl eraseKey r).byFile = r.byFile := by
  induction ks generalizing r with
  | nil => simp
  | cons a ks ih =>
    obtain ⟨he, hs, hn, hf⟩ := ih (r.eraseKey a)
    rw [List.foldl_cons]
    refine ⟨?_, ?_, fun h => hn (h.drop _ _), hf⟩
    · intro k
      rw [he]
      by_cases hk : k = a
      · subst hk
        simp [eraseKey, SortedMap.get?_erase_self]
      · simp [eraseKey, SortedMap.get?_erase_of_ne _ hk, hk]
    · intro n k
      rw [hs, eraseKey, KeyIndex.has_drop]
      by_cases hk : k = a
      · subst hk
        by_cases hn : n = k.specId <;> simp [hn]
      · simp [hk]

theorem Indexed.mem_keysAt_file {r : Records} (h : r.Indexed) (file : String) (k : RecordKey) :
    k ∈ r.byFile.keysAt file ↔ r.entries.contains k = true ∧ k.filePath = file := by
  rw [KeyIndex.mem_keysAt_iff, h.byFile.has_iff, eq_comm]
  exact and_comm

/-- Erasing the keys of a file, and its name, keeps the indexes in step. -/
theorem Indexed.eraseKeys {r : Records} (h : r.Indexed) (file : String) :
    ((r.byFile.keysAt file).foldl eraseKey { r with byFile := r.byFile.erase file }).Indexed ∧
      ((r.byFile.keysAt file).foldl eraseKey { r with byFile := r.byFile.erase file }).entries =
        TagMap.withoutFile r.entries file := by
  obtain ⟨he, hs, hn, hb⟩ :=
    foldl_eraseKey (r.byFile.keysAt file) { r with byFile := r.byFile.erase file }
  have hmem := h.mem_keysAt_file file
  have hentries : ((r.byFile.keysAt file).foldl eraseKey
      { r with byFile := r.byFile.erase file }).entries = TagMap.withoutFile r.entries file := by
    apply SortedMap.ext_get?
    intro k
    rw [he, TagMap.get?_withoutFile]
    cases hk : r.entries.get? k with
    | none => rw [ite_self, ite_self]
    | some t =>
      have hc : r.entries.contains k = true := (SortedMap.contains_iff _ k).2 ⟨t, hk⟩
      simp only [hmem, hc, true_and]
  refine ⟨⟨?_, ⟨?_, hn h.bySpec.noEmptyName⟩, ?_⟩, hentries⟩
  · intro k t hk
    rw [he] at hk
    split at hk
    · cases hk
    · exact h.keyed k t hk
  · intro n k
    rw [hs, hentries, TagMap.contains_withoutFile, Bool.and_eq_true, h.bySpec.has_iff,
      decide_eq_true_eq, hmem]
    constructor
    · rintro ⟨⟨hname, hc⟩, hnot⟩
      exact ⟨hname, hc, fun hfile => hnot ⟨hname.symm, hc, hfile⟩⟩
    · rintro ⟨hname, hc, hfile⟩
      exact ⟨⟨hname, hc⟩, fun hin => hfile hin.2.2⟩
  · rw [hb]
    refine ⟨?_, h.byFile.noEmptyName.erase file⟩
    intro n k
    rw [KeyIndex.has_erase, hentries, TagMap.contains_withoutFile, Bool.and_eq_true,
      h.byFile.has_iff, decide_eq_true_eq]
    constructor
    · rintro ⟨hne, rfl, hc⟩
      exact ⟨rfl, hc, hne⟩
    · rintro ⟨rfl, hc, hne⟩
      exact ⟨hne, rfl, hc⟩

/-- Forgetting a file forgets the tags of that file, and the answer is how many there were. -/
theorem Indexed.removeFile {r : Records} (h : r.Indexed) (file : String) :
    (r.removeFile file).2.Indexed ∧
      (r.removeFile file).2.entries = TagMap.withoutFile r.entries file ∧
      (r.removeFile file).1 = (TagMap.ofFile r.entries file).size := by
  have hsize : (TagMap.ofFile r.entries file).size = (r.byFile.keysAt file).length := by
    rw [h.byFile.keysAt_eq file, ← SortedMap.length_keys, TagMap.ofFile, SortedMap.keys_filter]
  have herase := h.eraseKeys file
  unfold Records.removeFile
  cases hf : r.byFile.get? file with
  | none =>
    have hnil : r.byFile.keysAt file = [] := by rw [KeyIndex.keysAt, hf]
    have habsent : ∀ k, r.entries.contains k = true → k.filePath ≠ file := by
      intro k hc hfile
      have hmem := (h.mem_keysAt_file file k).2 ⟨hc, hfile⟩
      rw [hnil] at hmem
      cases hmem
    refine ⟨h, (TagMap.withoutFile_of_absent habsent).symm, ?_⟩
    rw [hsize, hnil]
    rfl
  | some keys =>
    have hkeys : r.byFile.keysAt file = keys.keys := by rw [KeyIndex.keysAt, hf]
    rw [hkeys] at herase hsize
    refine ⟨herase.1, herase.2, ?_⟩
    rw [hsize, SortedMap.length_keys]

theorem Indexed.replaceFile {r : Records} (h : r.Indexed) (file : String) (ts : List Tag) :
    (r.replaceFile file ts).Indexed :=
  (h.removeFile file).1.insertAll ts

theorem Indexed.entries_replaceFile {r : Records} (h : r.Indexed) (file : String) (ts : List Tag) :
    (r.replaceFile file ts).entries =
      TagMap.upsertAll (TagMap.withoutFile r.entries file) ts := by
  rw [Records.replaceFile, entries_insertAll, (h.removeFile file).2.1]

end Records

end SpecLinkage
