/-! # Sorted maps

A finite map as a list of entries in strictly increasing key order.  The order is part
of the type, so two maps with the same lookups are equal, and listing a map needs no
sorting.

* `get?_insert`, `get?_erase` and `get?_empty` describe the operations through lookups.
* `ext_get?`: a map is determined by its lookups.
* `mem_toList_iff`: the entries are exactly the successful lookups. -/

namespace SpecLinkage

universe u v

/-- A finite map, listed in strictly increasing key order. -/
structure SortedMap (κ : Type u) (ν : Type v) [Ord κ] where
  toList : List (κ × ν)
  /-- The keys strictly increase. -/
  sorted : toList.Pairwise fun a b => compare a.1 b.1 = .lt

namespace SortedMap

variable {κ : Type u} {ν : Type v} [Ord κ]

/-! ## Operations -/

/-- The value at `k` in a list of entries. -/
def lookup (k : κ) : List (κ × ν) → Option ν
  | [] => none
  | e :: es => if compare k e.1 = .eq then some e.2 else lookup k es

/-- Put the entry at its place, over an older one with the same key. -/
def place (k : κ) (x : ν) : List (κ × ν) → List (κ × ν)
  | [] => [(k, x)]
  | e :: es =>
    match compare k e.1 with
    | .lt => (k, x) :: e :: es
    | .eq => (k, x) :: es
    | .gt => e :: place k x es

theorem mem_place {k : κ} {x : ν} {l : List (κ × ν)} {e : κ × ν} (h : e ∈ place k x l) :
    e = (k, x) ∨ e ∈ l := by
  induction l with
  | nil => simpa [place] using h
  | cons a l ih =>
    unfold place at h
    split at h
    · simpa using h
    · rcases List.mem_cons.1 h with h | h
      · exact .inl h
      · exact .inr (List.mem_cons_of_mem _ h)
    · rcases List.mem_cons.1 h with h | h
      · exact .inr (h ▸ List.mem_cons_self)
      · exact (ih h).imp id (List.mem_cons_of_mem _)

theorem sorted_place [Std.TransOrd κ] (k : κ) (x : ν) {l : List (κ × ν)}
    (h : l.Pairwise fun a b => compare a.1 b.1 = .lt) :
    (place k x l).Pairwise fun a b => compare a.1 b.1 = .lt := by
  induction l with
  | nil => simp [place]
  | cons a l ih =>
    obtain ⟨ha, hl⟩ := List.pairwise_cons.1 h
    unfold place
    split
    · next hk =>
      refine List.pairwise_cons.2 ⟨fun e he => ?_, h⟩
      rcases List.mem_cons.1 he with rfl | he
      · exact hk
      · exact Std.TransCmp.lt_trans hk (ha e he)
    · next hk =>
      exact List.pairwise_cons.2 ⟨fun e he => Std.TransCmp.lt_of_eq_of_lt hk (ha e he), hl⟩
    · next hk =>
      refine List.pairwise_cons.2 ⟨fun e he => ?_, ih hl⟩
      rcases mem_place he with rfl | he
      · exact Std.OrientedCmp.lt_of_gt hk
      · exact ha e he

/-- The map without entries. -/
def empty : SortedMap κ ν := ⟨[], .nil⟩

instance : EmptyCollection (SortedMap κ ν) := ⟨empty⟩
instance : Inhabited (SortedMap κ ν) := ⟨empty⟩

/-- The value at `k`. -/
def get? (m : SortedMap κ ν) (k : κ) : Option ν := lookup k m.toList

/-- Whether there is a value at `k`. -/
def contains (m : SortedMap κ ν) (k : κ) : Bool := (m.get? k).isSome

def insert [Std.TransOrd κ] (m : SortedMap κ ν) (k : κ) (x : ν) : SortedMap κ ν :=
  ⟨place k x m.toList, sorted_place k x m.sorted⟩

/-- The entries that satisfy `p`. -/
def filter (m : SortedMap κ ν) (p : κ → ν → Bool) : SortedMap κ ν :=
  ⟨m.toList.filter fun e => p e.1 e.2, m.sorted.filter _⟩

/-- The map without the key `k`. -/
def erase (m : SortedMap κ ν) (k : κ) : SortedMap κ ν :=
  m.filter fun k' _ => compare k k' != .eq

/-- The map with every value changed by `f`. -/
def mapValues {ω : Type v} (m : SortedMap κ ν) (f : κ → ν → ω) : SortedMap κ ω :=
  ⟨m.toList.map fun e => (e.1, f e.1 e.2), by
    rw [List.pairwise_map]; exact m.sorted⟩

/-- The keys in increasing order. -/
def keys (m : SortedMap κ ν) : List κ := m.toList.map (·.1)

/-- The values in the order of their keys. -/
def values (m : SortedMap κ ν) : List ν := m.toList.map (·.2)

/-- Number of entries. -/
def size (m : SortedMap κ ν) : Nat := m.toList.length

/-- Whether there are no entries. -/
def isEmpty (m : SortedMap κ ν) : Bool := m.toList.isEmpty

/-- Insert the entries from the first to the last; a later one replaces an earlier one. -/
def insertMany [Std.TransOrd κ] (m : SortedMap κ ν) (l : List (κ × ν)) : SortedMap κ ν :=
  l.foldl (fun m e => m.insert e.1 e.2) m

/-- The map of a list of entries; the last of equal keys wins. -/
def ofList [Std.TransOrd κ] (l : List (κ × ν)) : SortedMap κ ν := insertMany empty l

instance [DecidableEq κ] [DecidableEq ν] : DecidableEq (SortedMap κ ν) := fun a b =>
  decidable_of_iff (a.toList = b.toList) ⟨fun h => by cases a; cases b; cases h; rfl, fun h => h ▸ rfl⟩

/-! ## Lemmas -/

theorem not_lt_self [Std.TransOrd κ] {k : κ} (h : compare k k = .lt) : False := by
  have h' : compare k k = .eq := Std.ReflCmp.compare_self
  rw [h] at h'; cases h'

@[simp] theorem get?_empty (k : κ) : (empty : SortedMap κ ν).get? k = none := rfl

theorem lookup_place [Std.TransOrd κ] (k k' : κ) (x : ν) {l : List (κ × ν)}
    (h : l.Pairwise fun a b => compare a.1 b.1 = .lt) :
    lookup k' (place k x l) = if compare k' k = .eq then some x else lookup k' l := by
  induction l with
  | nil => simp [place, lookup]
  | cons a l ih =>
    obtain ⟨ha, hl⟩ := List.pairwise_cons.1 h
    unfold place
    split
    · simp [lookup]
    · next hk =>
      by_cases hk' : compare k' k = .eq
      · simp [lookup, hk']
      · have : compare k' a.1 ≠ .eq := fun e =>
          hk' (Std.TransCmp.eq_trans e (Std.OrientedCmp.eq_symm hk))
        simp [lookup, hk', this]
    · next hk =>
      by_cases hk' : compare k' k = .eq
      · have : compare k' a.1 ≠ .eq := fun e => by
          have := Std.TransCmp.eq_trans (Std.OrientedCmp.eq_symm hk') e
          rw [hk] at this; cases this
        simp [lookup, this, ih hl, hk']
      · simp [lookup, ih hl, hk']

/-- After an insertion the key has the new value and the others keep theirs. -/
theorem get?_insert [Std.TransOrd κ] (m : SortedMap κ ν) (k k' : κ) (x : ν) :
    (m.insert k x).get? k' = if compare k' k = .eq then some x else m.get? k' :=
  lookup_place k k' x m.sorted

theorem lookup_eq_some_iff [Std.TransOrd κ] [Std.LawfulEqOrd κ] {l : List (κ × ν)}
    (h : l.Pairwise fun a b => compare a.1 b.1 = .lt) {k : κ} {x : ν} :
    lookup k l = some x ↔ (k, x) ∈ l := by
  induction l with
  | nil => simp [lookup]
  | cons a l ih =>
    obtain ⟨ha, hl⟩ := List.pairwise_cons.1 h
    by_cases hk : compare k a.1 = .eq
    · obtain rfl := Std.LawfulEqCmp.eq_of_compare hk
      simp only [lookup, Std.ReflCmp.compare_self, if_true, Option.some.injEq, List.mem_cons]
      constructor
      · rintro rfl; exact .inl rfl
      · rintro (h | h)
        · exact (congrArg (·.2) h).symm
        · exact (not_lt_self (ha (a.1, x) h)).elim
    · simp only [lookup, if_neg hk, ih hl, List.mem_cons]
      constructor
      · exact .inr
      · rintro (h | h)
        · exact absurd (by rw [← h]; exact Std.ReflCmp.compare_self) hk
        · exact h

/-- The entries are exactly the successful lookups. -/
theorem mem_toList_iff [Std.TransOrd κ] [Std.LawfulEqOrd κ] (m : SortedMap κ ν) {k : κ} {x : ν} :
    (k, x) ∈ m.toList ↔ m.get? k = some x :=
  (lookup_eq_some_iff m.sorted).symm

theorem get?_filter [Std.TransOrd κ] [Std.LawfulEqOrd κ] (m : SortedMap κ ν) (p : κ → ν → Bool)
    (k : κ) : (m.filter p).get? k = (m.get? k).filter (p k) := by
  apply Option.ext
  intro x
  rw [← mem_toList_iff, filter, List.mem_filter, mem_toList_iff, Option.filter_eq_some_iff]

/-- After an erasure the key has no value and the others keep theirs. -/
theorem get?_erase [Std.TransOrd κ] [Std.LawfulEqOrd κ] (m : SortedMap κ ν) (k k' : κ) :
    (m.erase k).get? k' = if compare k' k = .eq then none else m.get? k' := by
  rw [erase, get?_filter]
  by_cases h : compare k' k = .eq
  · obtain rfl := Std.LawfulEqCmp.eq_of_compare h
    cases hm : m.get? k' <;> simp
  · have h' : compare k k' ≠ .eq := fun e => h (Std.OrientedCmp.eq_symm e)
    cases hm : m.get? k' <;> simp [h, h']

theorem lookup_map [Std.LawfulEqOrd κ] {ω : Type v} (f : κ → ν → ω) (k : κ) (l : List (κ × ν)) :
    lookup k (l.map fun e => (e.1, f e.1 e.2)) = (lookup k l).map (f k) := by
  induction l with
  | nil => rfl
  | cons e l ih =>
    rw [List.map_cons, lookup, lookup]
    split
    · next hk => rw [Option.map_some, Std.LawfulEqCmp.eq_of_compare hk]
    · exact ih

/-- The values are changed where they are. -/
theorem get?_mapValues [Std.LawfulEqOrd κ] {ω : Type v} (m : SortedMap κ ν) (f : κ → ν → ω)
    (k : κ) : (m.mapValues f).get? k = (m.get? k).map (f k) :=
  lookup_map f k m.toList

/-- A map is determined by its lookups. -/
theorem ext_get? [Std.TransOrd κ] [Std.LawfulEqOrd κ] {a b : SortedMap κ ν}
    (h : ∀ k, a.get? k = b.get? k) : a = b := by
  suffices a.toList = b.toList by cases a; cases b; cases this; rfl
  have hmem : ∀ e, e ∈ a.toList ↔ e ∈ b.toList := by
    rintro ⟨k, x⟩
    rw [mem_toList_iff, mem_toList_iff, h k]
  have hnd : ∀ m : SortedMap κ ν, m.toList.Nodup := fun m => by
    refine List.Pairwise.imp (fun {x y} hxy => ?_) m.sorted
    rintro rfl
    exact not_lt_self hxy
  have hp : a.toList.Perm b.toList := (List.perm_ext_iff_of_nodup (hnd a) (hnd b)).2 hmem
  exact List.Perm.eq_of_pairwise
    (fun x y _ _ hxy hyx => (not_lt_self (Std.TransCmp.lt_trans hxy hyx)).elim)
    a.sorted b.sorted hp

end SortedMap

/-- A finite set, listed in strictly increasing order. -/
abbrev SortedSet (κ : Type u) [Ord κ] := SortedMap κ Unit

namespace SortedSet

variable {κ : Type u} [Ord κ]

def add [Std.TransOrd κ] (s : SortedSet κ) (k : κ) : SortedSet κ := s.insert k ()

def ofMembers [Std.TransOrd κ] (l : List κ) : SortedSet κ := l.foldl add SortedMap.empty

/-- Membership is decided by the keys that were added. -/
theorem contains_add [Std.TransOrd κ] (s : SortedSet κ) (k k' : κ) :
    (s.add k).contains k' = (compare k' k == .eq || s.contains k') := by
  unfold add SortedMap.contains
  rw [SortedMap.get?_insert]
  by_cases h : compare k' k = .eq <;> simp [h]

end SortedSet

end SpecLinkage
