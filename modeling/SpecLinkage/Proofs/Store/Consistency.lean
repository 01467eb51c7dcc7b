import Mathlib.Data.List.Perm.Subperm
import Mathlib.Data.List.Nodup
import SpecLinkage.Proofs.Store.Indexed

/-! # The check of a store

A store checks its indexes by counting: every listed key has to be recorded and stand under
its own name, and there have to be as many listed keys as tags.  As no key is listed twice,
this is enough for the recorded keys to be listed too.

* `Records.isConsistent_iff`: the check decides whether records are in step with their
  indexes.
* `Records.isConsistent_exact`: what this means for each of the three structures, whatever they
  hold, and that no other records pass than those that recording their tags leads to. -/

namespace SpecLinkage

namespace KeyIndex

/-- All keys of an index. -/
def listed (index : List (String × SortedSet RecordKey)) : List RecordKey :=
  index.flatMap fun e => e.2.keys

/-- What the check asks of one name: it has keys, and each is recorded and stands under its
own name. -/
def Sound (nameOf : RecordKey → String) (m : TagMap) (e : String × SortedSet RecordKey) : Prop :=
  e.2.keys ≠ [] ∧ ∀ k ∈ e.2.keys, nameOf k = e.1 ∧ m.contains k = true

/-- The check counts the keys of an index that is sound at every name. -/
theorem indexSize?_eq_some_iff (nameOf : RecordKey → String) (m : TagMap)
    (index : List (String × SortedSet RecordKey)) (n : Nat) :
    Records.indexSize? m nameOf index = some n ↔
      (∀ e ∈ index, Sound nameOf m e) ∧ (listed index).length = n := by
  induction index generalizing n with
  | nil => simp [Records.indexSize?, listed]
  | cons e index ih =>
    obtain ⟨name, keys⟩ := e
    have hempty : keys.isEmpty = true ↔ keys.keys = [] := by
      simp [SortedMap.isEmpty, SortedMap.keys]
    have hall : (keys.keys.all fun k => nameOf k == name && m.contains k) = true ↔
        ∀ k ∈ keys.keys, nameOf k = name ∧ m.contains k = true := by
      simp [List.all_eq_true]
    rw [Records.indexSize?, List.forall_mem_cons]
    split
    · next h =>
      constructor
      · intro h'
        cases h'
      · rintro ⟨⟨⟨hne, -⟩, -⟩, -⟩
        exact absurd (hempty.1 h) hne
    · next h =>
      split
      · next hk =>
        have hs : Sound nameOf m (name, keys) := ⟨fun e => h (hempty.2 e), hall.1 hk⟩
        simp only [Option.map_eq_some_iff, ih, hs, true_and]
        have hlen : (listed ((name, keys) :: index)).length =
            keys.size + (listed index).length := by
          simp [listed, SortedMap.keys, SortedMap.size]
        constructor
        · rintro ⟨n', ⟨hi, rfl⟩, rfl⟩
          exact ⟨hi, hlen⟩
        · rintro ⟨hi, hn⟩
          exact ⟨_, ⟨hi, rfl⟩, hlen.symm.trans hn⟩
      · next hk =>
        constructor
        · intro h'
          cases h'
        · rintro ⟨⟨⟨-, hs⟩, -⟩, -⟩
          exact absurd (hall.2 hs) hk

theorem has_iff_exists (i : KeyIndex) (name : String) (k : RecordKey) :
    i.has name k = true ↔ ∃ keys, i.get? name = some keys ∧ k ∈ keys.keys := by
  rw [has]
  cases i.get? name with
  | none => simp [SortedMap.contains]
  | some keys =>
    simp only [Option.getD_some, Option.some.injEq, exists_eq_left']
    exact (SortedMap.mem_keys_iff keys k).symm

theorem mem_listed_iff (i : KeyIndex) (k : RecordKey) :
    k ∈ listed i.toList ↔ ∃ name, i.has name k = true := by
  simp only [listed, List.mem_flatMap, has_iff_exists]
  constructor
  · rintro ⟨⟨name, keys⟩, he, hk⟩
    exact ⟨name, keys, (SortedMap.mem_toList_iff i).1 he, hk⟩
  · rintro ⟨name, keys, hi, hk⟩
    exact ⟨(name, keys), (SortedMap.mem_toList_iff i).2 hi, hk⟩

/-- In an index that is sound at every name no key is listed twice: it could only stand
under two names, and both would be its own. -/
theorem nodup_listed {nameOf : RecordKey → String} {m : TagMap} (i : KeyIndex)
    (h : ∀ e ∈ i.toList, Sound nameOf m e) : (listed i.toList).Nodup := by
  refine List.nodup_flatMap.2 ⟨fun e _ => e.2.keys_nodup, ?_⟩
  refine i.sorted.imp_of_mem fun {a b} ha hb hab => ?_
  intro k hka hkb
  have hname : a.1 = b.1 := ((h a ha).2 k hka).1.symm.trans ((h b hb).2 k hkb).1
  rw [hname] at hab
  exact SortedMap.not_lt_self hab

/-- An index lists exactly the keys of a map if and only if it is sound at every name and
has as many keys as the map. -/
theorem lists_iff (i : KeyIndex) (nameOf : RecordKey → String) (m : TagMap) :
    i.Lists nameOf m ↔ Records.indexSize? m nameOf i.toList = some m.size := by
  rw [indexSize?_eq_some_iff]
  constructor
  · intro h
    have hs : ∀ e ∈ i.toList, Sound nameOf m e := by
      rintro ⟨name, keys⟩ he
      have hn := (SortedMap.mem_toList_iff i).1 he
      exact ⟨h.noEmptyName name keys hn, fun k hk =>
        (h.has_iff name k).1 ((has_iff_exists i name k).2 ⟨keys, hn, hk⟩)⟩
    have hp : (listed i.toList).Perm m.keys := by
      refine (List.perm_ext_iff_of_nodup (nodup_listed i hs) m.keys_nodup).2 fun k => ?_
      simp only [mem_listed_iff, h.has_iff, SortedMap.mem_keys_iff, exists_eq_left']
    exact ⟨hs, by rw [hp.length_eq, SortedMap.length_keys]⟩
  · rintro ⟨hs, hn⟩
    have hsound : ∀ name k, i.has name k = true → nameOf k = name ∧ m.contains k = true := by
      intro name k h
      obtain ⟨keys, hi, hk⟩ := (has_iff_exists i name k).1 h
      exact (hs (name, keys) ((SortedMap.mem_toList_iff i).2 hi)).2 k hk
    have hsub : listed i.toList ⊆ m.keys := by
      intro k hk
      obtain ⟨name, h⟩ := (mem_listed_iff i k).1 hk
      exact (SortedMap.mem_keys_iff m k).2 (hsound name k h).2
    have hp : (listed i.toList).Perm m.keys :=
      (List.subperm_of_subset (nodup_listed i hs) hsub).perm_of_length_le
        (Nat.le_of_eq (by rw [hn, SortedMap.length_keys]))
    constructor
    · intro name k
      refine ⟨hsound name k, ?_⟩
      rintro ⟨rfl, hk⟩
      have hl : k ∈ listed i.toList := hp.mem_iff.2 ((SortedMap.mem_keys_iff m k).2 hk)
      obtain ⟨name', h⟩ := (mem_listed_iff i k).1 hl
      rwa [(hsound name' k h).1]
    · intro name keys hi
      exact (hs (name, keys) ((SortedMap.mem_toList_iff i).2 hi)).1

/-- An index describes a map if it has the names that occur in the map, and under each name exactly
the keys that have it. -/
structure Describes (i : KeyIndex) (nameOf : RecordKey → String) (m : TagMap) : Prop where
  names : ∀ name, name ∈ i.keys ↔ ∃ k ∈ m.keys, nameOf k = name
  keys : ∀ name keys, i.get? name = some keys → ∀ k, k ∈ keys.keys ↔ k ∈ m.keys ∧ nameOf k = name

/-- An index lists exactly the keys of a map if and only if it describes the map. -/
theorem lists_iff_describes (i : KeyIndex) (nameOf : RecordKey → String) (m : TagMap) :
    i.Lists nameOf m ↔ i.Describes nameOf m := by
  constructor
  · intro h
    have hkeys : ∀ name k, (∃ keys, i.get? name = some keys ∧ k ∈ keys.keys) ↔
        nameOf k = name ∧ k ∈ m.keys := by
      intro name k
      rw [← has_iff_exists, h.has_iff, SortedMap.mem_keys_iff]
    constructor
    · intro name
      rw [SortedMap.mem_keys_iff, SortedMap.contains_iff]
      constructor
      · rintro ⟨keys, hi⟩
        obtain ⟨k, hk⟩ := List.exists_mem_of_ne_nil _ (h.noEmptyName name keys hi)
        obtain ⟨hname, hm⟩ := (hkeys name k).1 ⟨keys, hi, hk⟩
        exact ⟨k, hm, hname⟩
      · rintro ⟨k, hm, hname⟩
        obtain ⟨keys, hi, -⟩ := (hkeys name k).2 ⟨hname, hm⟩
        exact ⟨keys, hi⟩
    · intro name keys hi k
      rw [and_comm, ← hkeys name k, hi]
      simp only [Option.some.injEq, exists_eq_left']
  · intro h
    constructor
    · intro name k
      rw [has_iff_exists, ← SortedMap.mem_keys_iff]
      constructor
      · rintro ⟨keys, hi, hk⟩
        exact ((h.keys name keys hi k).1 hk).symm
      · rintro ⟨hname, hm⟩
        have hlisted := (h.names name).2 ⟨k, hm, hname⟩
        rw [SortedMap.mem_keys_iff, SortedMap.contains_iff] at hlisted
        obtain ⟨keys, hi⟩ := hlisted
        exact ⟨keys, hi, (h.keys name keys hi k).2 ⟨hm, hname⟩⟩
    · intro name keys hi
      have hlisted : name ∈ i.keys :=
        (SortedMap.mem_keys_iff i name).2 ((SortedMap.contains_iff i name).2 ⟨keys, hi⟩)
      obtain ⟨k, hk⟩ := (h.names name).1 hlisted
      exact List.ne_nil_of_mem ((h.keys name keys hi k).2 hk)

end KeyIndex

namespace Records

/-- The check decides whether records are in step with their indexes. -/
theorem isConsistent_iff (r : Records) : r.isConsistent = true ↔ r.Indexed := by
  have hkeyed : (r.entries.toList.all fun e => decide (e.1 = RecordKey.ofTag e.2)) = true ↔
      ∀ k t, r.entries.get? k = some t → k = RecordKey.ofTag t := by
    simp only [List.all_eq_true, decide_eq_true_eq, Prod.forall, SortedMap.mem_toList_iff]
  rw [isConsistent, Bool.and_eq_true, Bool.and_eq_true, hkeyed, beq_iff_eq, beq_iff_eq,
    ← KeyIndex.lists_iff, ← KeyIndex.lists_iff]
  constructor
  · rintro ⟨⟨hk, hs⟩, hf⟩
    exact ⟨hk, hs, hf⟩
  · rintro ⟨hk, hs, hf⟩
    exact ⟨⟨hk, hs⟩, hf⟩

/-- Records pass the check if every tag stands under its own key and both indexes describe the
recorded keys, and so exactly if they are what recording their tags leads to. -/
theorem isConsistent_exact (r : Records) :
    (r.isConsistent = true ↔
      (∀ k t, r.entries.get? k = some t → k = RecordKey.ofTag t) ∧
        r.bySpec.Describes RecordKey.specId r.entries ∧
        r.byFile.Describes RecordKey.filePath r.entries) ∧
    (r.isConsistent = true ↔ r = ofTags r.tags) := by
  refine ⟨?_, ?_⟩
  · rw [isConsistent_iff, ← KeyIndex.lists_iff_describes, ← KeyIndex.lists_iff_describes]
    exact ⟨fun h => ⟨h.keyed, h.bySpec, h.byFile⟩, fun h => ⟨h.1, h.2.1, h.2.2⟩⟩
  · rw [isConsistent_iff]
    constructor
    · exact fun h => h.ofTags_tags.symm
    · intro h
      rw [h]
      exact indexed_ofTags r.tags

end Records

end SpecLinkage
