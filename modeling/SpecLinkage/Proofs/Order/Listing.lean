import SpecLinkage.Order.SortedMap

/-! # Listings of sorted maps

The keys and values of a sorted map as lists.  The keys strictly increase, so a list of
keys is known from its members, and a part of a map is listed as that part of its listing.

* `eq_of_pairwise_lt`: strictly increasing lists with the same members are equal.
* `filterMap_get?_keys`: looking up the keys of a part of a map gives the values of that
  part.
* `ofList_toList`: a map is rebuilt from its listing.
* `contains_foldl_insert`: the keys of a map that was filled by insertions. -/

namespace SpecLinkage

universe u v w

/-- Strictly increasing lists with the same members are equal. -/
theorem eq_of_pairwise_lt {κ : Type u} [Ord κ] [Std.TransOrd κ] {a b : List κ}
    (ha : a.Pairwise fun x y => compare x y = .lt) (hb : b.Pairwise fun x y => compare x y = .lt)
    (h : ∀ k, k ∈ a ↔ k ∈ b) : a = b := by
  have nodup : ∀ l : List κ, (l.Pairwise fun x y => compare x y = .lt) → l.Nodup := by
    intro l hl
    refine hl.imp fun {x y} hxy => ?_
    rintro rfl
    exact SortedMap.not_lt_self hxy
  refine List.Perm.eq_of_pairwise (fun x y _ _ hxy hyx => ?_) ha hb
    ((List.perm_ext_iff_of_nodup (nodup a ha) (nodup b hb)).2 h)
  exact (SortedMap.not_lt_self (Std.TransCmp.lt_trans hxy hyx)).elim

namespace SortedMap

variable {κ : Type u} {ν : Type v} [Ord κ]

/-! ## Lookups -/

@[simp] theorem get?_emptyCollection (k : κ) : (∅ : SortedMap κ ν).get? k = none := rfl

@[simp] theorem toList_emptyCollection : (∅ : SortedMap κ ν).toList = [] := rfl

theorem contains_iff (m : SortedMap κ ν) (k : κ) :
    m.contains k = true ↔ ∃ x, m.get? k = some x := by
  rw [contains, Option.isSome_iff_exists]

theorem keys_pairwise (m : SortedMap κ ν) : m.keys.Pairwise fun a b => compare a b = .lt := by
  rw [keys, List.pairwise_map]
  exact m.sorted

theorem keys_filter (m : SortedMap κ ν) (p : κ → Bool) :
    (m.filter fun k _ => p k).keys = m.keys.filter p := by
  rw [keys, keys, List.filter_map]
  rfl

theorem keys_nodup [Std.TransOrd κ] (m : SortedMap κ ν) : m.keys.Nodup := by
  refine m.keys_pairwise.imp fun {a b} hab => ?_
  rintro rfl
  exact not_lt_self hab

theorem length_keys (m : SortedMap κ ν) : m.keys.length = m.size := by
  rw [keys, List.length_map, size]

variable [Std.TransOrd κ] [Std.LawfulEqOrd κ]

theorem get?_insert_self (m : SortedMap κ ν) (k : κ) (x : ν) : (m.insert k x).get? k = some x := by
  rw [get?_insert, if_pos Std.ReflCmp.compare_self]

theorem get?_insert_of_ne (m : SortedMap κ ν) {k k' : κ} (x : ν) (h : k' ≠ k) :
    (m.insert k x).get? k' = m.get? k' := by
  rw [get?_insert, if_neg fun e => h (Std.LawfulEqCmp.eq_of_compare e)]

theorem get?_erase_self (m : SortedMap κ ν) (k : κ) : (m.erase k).get? k = none := by
  rw [get?_erase, if_pos Std.ReflCmp.compare_self]

theorem get?_erase_of_ne (m : SortedMap κ ν) {k k' : κ} (h : k' ≠ k) :
    (m.erase k).get? k' = m.get? k' := by
  rw [get?_erase, if_neg fun e => h (Std.LawfulEqCmp.eq_of_compare e)]

/-! ## Keys -/

theorem mem_keys_iff (m : SortedMap κ ν) (k : κ) : k ∈ m.keys ↔ m.contains k = true := by
  rw [contains_iff, keys, List.mem_map]
  constructor
  · rintro ⟨⟨k', x⟩, h, rfl⟩
    exact ⟨x, (mem_toList_iff m).1 h⟩
  · rintro ⟨x, h⟩
    exact ⟨(k, x), (mem_toList_iff m).2 h, rfl⟩

theorem mem_values_iff (m : SortedMap κ ν) (x : ν) : x ∈ m.values ↔ ∃ k, m.get? k = some x := by
  rw [values, List.mem_map]
  constructor
  · rintro ⟨⟨k, y⟩, h, rfl⟩
    exact ⟨k, (mem_toList_iff m).1 h⟩
  · rintro ⟨k, h⟩
    exact ⟨(k, x), (mem_toList_iff m).2 h, rfl⟩

/-- Looking up the keys of some entries gives the values of these entries. -/
theorem filterMap_get?_map (m : SortedMap κ ν) {l : List (κ × ν)} (h : ∀ e ∈ l, e ∈ m.toList) :
    (l.map (·.1)).filterMap m.get? = l.map (·.2) := by
  induction l with
  | nil => rfl
  | cons e l ih =>
    have he : m.get? e.1 = some e.2 := (mem_toList_iff m).1 (h e List.mem_cons_self)
    rw [List.map_cons, List.filterMap_cons, he, ih fun e' he' => h e' (List.mem_cons_of_mem _ he')]
    rfl

/-- Looking up the keys that satisfy `p` gives the values at these keys. -/
theorem filterMap_get?_keys (m : SortedMap κ ν) (p : κ → Bool) :
    (m.keys.filter p).filterMap m.get? = (m.filter fun k _ => p k).values := by
  rw [keys, List.filter_map]
  exact filterMap_get?_map m fun e he => (List.mem_filter.1 he).1

theorem contains_filter (m : SortedMap κ ν) (p : κ → Bool) (k : κ) :
    (m.filter fun k _ => p k).contains k = (m.contains k && p k) := by
  unfold contains
  rw [get?_filter]
  cases m.get? k <;> cases p k <;> rfl

/-! ## Insertions one after the other -/

theorem contains_insert (m : SortedMap κ ν) (k k' : κ) (x : ν) :
    (m.insert k x).contains k' = true ↔ m.contains k' = true ∨ k = k' := by
  rw [contains, contains]
  by_cases h : k' = k
  · subst h
    rw [get?_insert_self]
    simp
  · rw [get?_insert_of_ne _ _ h]
    simp [Ne.symm h]

/-- A key is in the map if one of the insertions was at it, whatever was put there. -/
theorem contains_foldl_insert {α : Type w} (k : α → κ) (x : SortedMap κ ν → α → ν) (l : List α)
    (m : SortedMap κ ν) (k' : κ) :
    (l.foldl (fun m a => m.insert (k a) (x m a)) m).contains k' = true ↔
      m.contains k' = true ∨ ∃ a ∈ l, k a = k' := by
  induction l generalizing m with
  | nil => simp
  | cons a l ih =>
    rw [List.foldl_cons, ih, contains_insert, or_assoc]
    simp only [List.mem_cons, exists_eq_or_imp]

/-! ## Rebuilding a map -/

theorem get?_insertMany (m : SortedMap κ ν) {l : List (κ × ν)} {k : κ} (h : k ∉ l.map (·.1)) :
    (m.insertMany l).get? k = m.get? k := by
  induction l generalizing m with
  | nil => rfl
  | cons e l ih =>
    rw [List.map_cons, List.mem_cons, not_or] at h
    show ((m.insert e.1 e.2).insertMany l).get? k = _
    rw [ih _ h.2, get?_insert_of_ne _ _ h.1]

theorem get?_insertMany_of_mem (m : SortedMap κ ν) {l : List (κ × ν)} (hl : (l.map (·.1)).Nodup)
    {k : κ} {x : ν} (h : (k, x) ∈ l) : (m.insertMany l).get? k = some x := by
  induction l generalizing m with
  | nil => cases h
  | cons e l ih =>
    obtain ⟨he, hl⟩ := List.nodup_cons.1 hl
    show ((m.insert e.1 e.2).insertMany l).get? k = _
    rcases List.mem_cons.1 h with rfl | h
    · rw [get?_insertMany _ he, get?_insert_self]
    · exact ih _ hl h

theorem ofList_toList (m : SortedMap κ ν) : ofList m.toList = m := by
  apply ext_get?
  intro k
  cases h : m.get? k with
  | none =>
    have hk : k ∉ m.toList.map (·.1) := by
      intro hk
      obtain ⟨x, hx⟩ := (m.contains_iff k).1 ((m.mem_keys_iff k).1 hk)
      rw [h] at hx
      cases hx
    exact get?_insertMany empty hk
  | some x => exact get?_insertMany_of_mem empty m.keys_nodup ((mem_toList_iff m).2 h)

end SortedMap

namespace SortedSet

variable {κ : Type u} [Ord κ] [Std.TransOrd κ] [Std.LawfulEqOrd κ]

theorem ext_contains {a b : SortedSet κ} (h : ∀ k, a.contains k = b.contains k) : a = b := by
  apply SortedMap.ext_get?
  intro k
  have := h k
  unfold SortedMap.contains at this
  cases ha : a.get? k <;> cases hb : b.get? k <;> simp_all

theorem contains_erase (s : SortedSet κ) (k k' : κ) :
    SortedMap.contains (s.erase k) k' = (compare k' k != .eq && s.contains k') := by
  unfold SortedMap.contains
  rw [SortedMap.get?_erase]
  by_cases h : compare k' k = .eq <;> simp [h]

theorem contains_ofMembers (l : List κ) (k : κ) : (ofMembers l).contains k = true ↔ k ∈ l := by
  have hkeys := SortedMap.contains_foldl_insert id (fun _ _ => ()) l (SortedMap.empty : SortedSet κ) k
  refine hkeys.trans ?_
  simp [SortedMap.contains]

end SortedSet

end SpecLinkage
