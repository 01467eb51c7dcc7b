import SpecLinkage.Proofs.Store.Consistency

/-! # Questions to a store

Every answer that comes from an index is the answer that comes from going through all tags.

* `Indexed.lookup_eq`: the tags at the keys of a name are the tags that have this name.
* `dedupNeighbours_eq_eraseDups`: in a list in order, equal elements stand together.
* `Indexed.view_eq`: all answers at once. -/

namespace SpecLinkage.Records

/-! ## Tags under a name -/

theorem Indexed.tags_pairwise {r : Records} (h : r.Indexed) :
    r.tags.Pairwise fun t u => compare (RecordKey.ofTag t) (RecordKey.ofTag u) = .lt := by
  rw [tags, SortedMap.values, List.pairwise_map]
  refine r.entries.sorted.imp_of_mem ?_
  rintro ⟨k, t⟩ ⟨k', u⟩ ht hu hlt
  obtain rfl := h.keyed k t ((SortedMap.mem_toList_iff _).1 ht)
  obtain rfl := h.keyed k' u ((SortedMap.mem_toList_iff _).1 hu)
  exact hlt

/-- The tags at some of the keys are the tags that have these keys. -/
theorem Indexed.values_filter {r : Records} (h : r.Indexed) (p : RecordKey → Bool) :
    (r.entries.filter fun k _ => p k).values = r.tags.filter fun t => p (.ofTag t) := by
  rw [tags, SortedMap.values, SortedMap.values, List.filter_map]
  congr 1
  apply List.filter_congr
  rintro ⟨k, t⟩ he
  obtain rfl := h.keyed k t ((SortedMap.mem_toList_iff _).1 he)
  rfl

/-- The tags under a name of an index are those that have this name, in the order of their
keys. -/
theorem Indexed.lookup_eq {r : Records} (h : r.Indexed) {i : KeyIndex}
    {nameOf : RecordKey → String} (hi : i.Lists nameOf r.entries) (name : String) :
    r.lookup (i.keysAt name) =
      r.entries.values.filter fun t => nameOf (.ofTag t) == name := by
  rw [hi.keysAt_eq, lookup, SortedMap.filterMap_get?_keys]
  exact h.values_filter fun k => nameOf k == name

/-- The keys of an index that is in step: the names of the tags, sorted. -/
theorem Indexed.names_eq {r : Records} (h : r.Indexed) {i : KeyIndex}
    {nameOf : RecordKey → String} (hi : i.Lists nameOf r.entries) :
    i.keys = (SortedSet.ofMembers (r.entries.values.map fun t => nameOf (.ofTag t))).keys := by
  apply eq_of_pairwise_lt i.keys_pairwise (SortedMap.keys_pairwise _)
  intro name
  rw [SortedMap.mem_keys_iff, SortedMap.mem_keys_iff, SortedSet.contains_ofMembers, List.mem_map,
    SortedMap.contains_iff]
  constructor
  · rintro ⟨keys, hk⟩
    obtain ⟨k, hmem⟩ := List.exists_mem_of_ne_nil _ (hi.noEmptyName name keys hk)
    have hhas : i.has name k = true := by
      rw [KeyIndex.has, hk]
      exact (SortedMap.mem_keys_iff keys k).1 hmem
    obtain ⟨rfl, hc⟩ := (hi.has_iff name k).1 hhas
    obtain ⟨t, ht⟩ := (SortedMap.contains_iff _ k).1 hc
    refine ⟨t, (SortedMap.mem_values_iff _ t).2 ⟨k, ht⟩, ?_⟩
    rw [← h.keyed k t ht]
  · rintro ⟨t, ht, rfl⟩
    obtain ⟨k, hk⟩ := (SortedMap.mem_values_iff _ t).1 ht
    obtain rfl := h.keyed k t hk
    have hhas := (hi.has_iff _ _).2 ⟨rfl, (SortedMap.contains_iff _ _).2 ⟨t, hk⟩⟩
    cases hn : i.get? (nameOf (.ofTag t)) with
    | none =>
      rw [KeyIndex.has, hn] at hhas
      cases hhas
    | some keys => exact ⟨keys, rfl⟩

/-! ## Places -/

def placeLE (a b : String × Nat) : Prop := placeLT a b ∨ a = b

theorem not_placeLT_self (a : String × Nat) : ¬placeLT a a := by
  rintro (h | ⟨-, h⟩)
  · exact SortedMap.not_lt_self h
  · omega

theorem placeLT_trans {a b c : String × Nat} (h : placeLT a b) (h' : placeLT b c) :
    placeLT a c := by
  rcases h with h | ⟨h, hl⟩ <;> rcases h' with h' | ⟨h', hl'⟩
  · exact .inl (Std.TransCmp.lt_trans h h')
  · exact .inl (h' ▸ h)
  · exact .inl (h ▸ h')
  · exact .inr ⟨h.trans h', by omega⟩

theorem placeLE_of_lt {a b : RecordKey} (h : compare a b = .lt) :
    placeLE (a.filePath, a.line) (b.filePath, b.line) := by
  change RecordKey.order a b = .lt at h
  simp only [RecordKey.order, compareLex, compareOn, Ordering.then_eq_lt] at h
  rcases h with h | ⟨hf, h⟩
  · exact .inl (.inl h)
  · have hf' : a.filePath = b.filePath := Std.LawfulEqCmp.eq_of_compare hf
    rcases h with h | ⟨hl, -⟩
    · exact .inl (.inr ⟨hf', Nat.compare_eq_lt.1 h⟩)
    · have hl' : a.line = b.line := Std.LawfulEqCmp.eq_of_compare hl
      exact .inr (by rw [hf', hl'])

theorem mem_of_mem_dedupNeighbours {l : List (String × Nat)} {x : String × Nat}
    (h : x ∈ dedupNeighbours l) : x ∈ l := by
  induction l using dedupNeighbours.induct with
  | case1 => exact h
  | case2 => exact h
  | case3 a l ih =>
    rw [dedupNeighbours, if_pos rfl] at h
    exact List.mem_cons_of_mem _ (ih h)
  | case4 a b l hab ih =>
    rw [dedupNeighbours, if_neg hab] at h
    rcases List.mem_cons.1 h with rfl | h
    · exact List.mem_cons_self
    · exact List.mem_cons_of_mem _ (ih h)

/-- In a list in order, equal elements stand together, and what is left of it strictly
increases. -/
theorem dedupNeighbours_eq_eraseDups {l : List (String × Nat)} (h : l.Pairwise placeLE) :
    dedupNeighbours l = l.eraseDups ∧ (dedupNeighbours l).Pairwise placeLT := by
  induction l using dedupNeighbours.induct with
  | case1 => exact ⟨rfl, .nil⟩
  | case2 a => exact ⟨rfl, List.pairwise_singleton _ a⟩
  | case3 a l ih =>
    obtain ⟨he, hp⟩ := ih h.of_cons
    rw [dedupNeighbours, if_pos rfl]
    refine ⟨?_, hp⟩
    rw [he, List.eraseDups_cons, List.eraseDups_cons]
    simp
  | case4 a b l hab ih =>
    obtain ⟨ha, hl⟩ := List.pairwise_cons.1 h
    obtain ⟨he, hp⟩ := ih hl
    have hlt : ∀ x ∈ b :: l, placeLT a x := by
      intro x hx
      have hb : placeLT a b := (ha b List.mem_cons_self).resolve_right hab
      rcases List.mem_cons.1 hx with rfl | hx
      · exact hb
      · rcases List.rel_of_pairwise_cons hl hx with h' | rfl
        · exact placeLT_trans hb h'
        · exact hb
    rw [dedupNeighbours, if_neg hab]
    have hfilter : (b :: l).filter (fun x => !x == a) = b :: l := by
      refine List.filter_eq_self.2 fun x hx => ?_
      have hne : x ≠ a := by
        rintro rfl
        exact not_placeLT_self _ (hlt _ hx)
      simpa using hne
    refine ⟨?_, List.pairwise_cons.2 ⟨fun x hx => hlt x (mem_of_mem_dedupNeighbours hx), hp⟩⟩
    rw [he, List.eraseDups_cons (a := a), hfilter]

theorem places_pairwise (i : KeyIndex) (name : String) :
    ((i.keysAt name).map fun k => (k.filePath, k.line)).Pairwise placeLE := by
  rw [List.pairwise_map]
  exact (i.keysAt_pairwise name).imp fun h => placeLE_of_lt h

theorem locations_pairwise (r : Records) (id : String) : (r.locations id).Pairwise placeLT :=
  (dedupNeighbours_eq_eraseDups (places_pairwise r.bySpec id)).2

theorem Indexed.locations_eq {r : Records} (h : r.Indexed) (id : String) :
    r.locations id = ((r.entries.values.filter fun t => t.specId.text == id).map fun t =>
      (t.filePath, t.line)).eraseDups := by
  rw [locations, (dedupNeighbours_eq_eraseDups (places_pairwise r.bySpec id)).1,
    h.bySpec.keysAt_eq, SortedMap.keys, SortedMap.values, List.filter_map, List.filter_map,
    List.map_map, List.map_map]
  congr 1
  have hkey : ∀ e ∈ r.entries.toList, e.1 = .ofTag e.2 := fun e he =>
    h.keyed e.1 e.2 ((SortedMap.mem_toList_iff _).1 he)
  have hfilter : r.entries.toList.filter ((fun k => k.specId == id) ∘ (·.1)) =
      r.entries.toList.filter ((fun t => t.specId.text == id) ∘ (·.2)) := by
    apply List.filter_congr
    intro e he
    rw [Function.comp, Function.comp, hkey e he]
    rfl
  rw [hfilter]
  apply List.map_congr_left
  intro e he
  rw [Function.comp, Function.comp, hkey e (List.mem_filter.1 he).1]
  rfl

/-- Every answer from the indexes is the answer from all tags. -/
theorem Indexed.view_eq {r : Records} (h : r.Indexed) : r.view = TagMap.view r.entries := by
  have hspec : r.tagsOfSpec = (TagMap.view r.entries).tagsOfSpec :=
    funext fun id => h.lookup_eq h.bySpec id
  have hfile : r.tagsOfFile = (TagMap.view r.entries).tagsOfFile :=
    funext fun file => h.lookup_eq h.byFile (normalizePath file)
  have hloc : r.locations = (TagMap.view r.entries).locations := funext h.locations_eq
  have hids : r.specIds = (TagMap.view r.entries).specIds := h.names_eq h.bySpec
  have hfiles : r.files = (TagMap.view r.entries).files := h.names_eq h.byFile
  rw [view, hspec, hfile, hloc, hids, hfiles, (isConsistent_iff r).2 h]
  rfl

end SpecLinkage.Records
