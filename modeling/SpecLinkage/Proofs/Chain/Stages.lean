import Mathlib.Data.Finset.Dedup
import Mathlib.Data.Finset.Card
import SpecLinkage.Chain.Matrix
import SpecLinkage.Chain.Coverage
import SpecLinkage.Proofs.Order.Listing

/-! # Chains and their stages

What the matrix, the gaps, the coverage and the summary of a list of links say, in terms of the
links themselves.

* `mem_chainKeys_iff`, `chainHas_iff`: which chains there are, and which stages they have.
* `distinctChains` counts the chains of some identifiers without listing them;
  `distinctChains_eq_length`, `ChainMatrix.distinctChains_idsOf`: the listings agree with it.
* `ChainMatrix.stage_ofLinks`: the matrix lists the identifiers of each stage.
* `ChainMatrix.of_mem_missingLinks`: where the gaps are.
* `foldr_countP`: counting by kind and adding up counts each thing once. -/

namespace SpecLinkage

/-- The number of different chains that identifiers belong to. -/
def distinctChains (ids : List String) : Nat := (ids.map chainKey).toFinset.card

variable {links : List Link} {key : String} {c : Category}

/-! ## Chains -/

theorem mem_chainKeys_iff : key ∈ chainKeys links ↔ ∃ l ∈ links, l.chainKey = key := by
  rw [chainKeys, SortedMap.mem_keys_iff, SortedSet.contains_ofMembers, List.mem_map]

theorem chainKeys_nodup (links : List Link) : (chainKeys links).Nodup := SortedMap.keys_nodup _

theorem chainHas_iff :
    chainHas links key c = true ↔ ∃ l ∈ links, l.category = c ∧ l.chainKey = key := by
  simp [chainHas]

/-- A list of keys without repetition is as long as the number of chains of the identifiers, if
it has exactly their keys. -/
theorem distinctChains_eq_length {ids keys : List String} (hkeys : keys.Nodup)
    (h : ∀ key, key ∈ keys ↔ ∃ id ∈ ids, chainKey id = key) :
    distinctChains ids = keys.length := by
  have hset : (ids.map chainKey).toFinset = keys.toFinset := by
    ext key
    rw [List.mem_toFinset, List.mem_toFinset, List.mem_map, h]
  rw [distinctChains, hset, List.toFinset_card_of_nodup hkeys]

theorem distinctChains_links (links : List Link) :
    distinctChains (links.map Link.id) = (chainKeys links).length := by
  refine distinctChains_eq_length (chainKeys_nodup links) fun key => ?_
  rw [mem_chainKeys_iff]
  simp [Link.chainKey]

/-! ## The matrix -/

namespace ChainMatrix

theorem mem_idsOf_iff {id : String} : id ∈ idsOf links c ↔ ⟨c, id⟩ ∈ links := by
  rw [idsOf, List.mem_eraseDups, List.mem_map]
  constructor
  · rintro ⟨⟨c', id'⟩, hl, rfl⟩
    obtain ⟨hl, hc⟩ := List.mem_filter.1 hl
    rwa [← eq_of_beq hc]
  · intro hl
    exact ⟨_, List.mem_filter.2 ⟨hl, beq_self_eq_true c⟩, rfl⟩

theorem chainHas_iff_idsOf :
    chainHas links key c = true ↔ ∃ id ∈ idsOf links c, chainKey id = key := by
  rw [chainHas_iff]
  constructor
  · rintro ⟨l, hl, rfl, rfl⟩
    exact ⟨l.id, mem_idsOf_iff.2 hl, rfl⟩
  · rintro ⟨id, hid, rfl⟩
    exact ⟨⟨c, id⟩, mem_idsOf_iff.1 hid, rfl, rfl⟩

/-- Only links of the stage have identifiers in it. -/
theorem idsOf_eq_nil_iff : idsOf links c = [] ↔ (links.countP fun l => l.category == c) = 0 := by
  rw [List.eq_nil_iff_forall_not_mem, List.countP_eq_zero]
  constructor
  · rintro h ⟨c', id⟩ hl hc
    obtain rfl := eq_of_beq hc
    exact h id (mem_idsOf_iff.2 hl)
  · intro h id hid
    exact h _ (mem_idsOf_iff.1 hid) (beq_self_eq_true c)

/-- Counting the chains that have a stage and counting the keys of the stage is the same. -/
theorem distinctChains_idsOf (links : List Link) (c : Category) :
    distinctChains (idsOf links c) = chainsWith links c := by
  have hkeys : ((chainKeys links).filter fun key => chainHas links key c).Nodup :=
    (chainKeys_nodup links).filter _
  rw [chainsWith, List.countP_eq_length_filter]
  refine distinctChains_eq_length hkeys fun key => ?_
  rw [List.mem_filter, ← chainHas_iff_idsOf, mem_chainKeys_iff, and_iff_right_iff_imp]
  intro hhas
  obtain ⟨l, hl, -, hkey⟩ := chainHas_iff.1 hhas
  exact ⟨l, hl, hkey⟩

/-- The matrix has the identifiers of each stage of the primary chain. -/
theorem stage_ofLinks (links : List Link) (h : c ∈ Category.primaryChain) :
    (ofLinks links).stage c = idsOf links c := by
  have hnodup : ((Category.primaryChain.map fun c => (c, idsOf links c)).map (·.1)).Nodup := by
    rw [List.map_map]
    exact (by decide : Category.primaryChain.Nodup)
  have hget : (ofLinks links).get? c = some (idsOf links c) :=
    SortedMap.get?_insertMany_of_mem _ hnodup (List.mem_map.2 ⟨c, h, rfl⟩)
  rw [stage, hget, Option.getD_some]

theorem mem_keys_iff {m : ChainMatrix} :
    key ∈ ChainMatrix.keys m ↔ ∃ c ∈ Category.primaryChain, ∃ id ∈ m.stage c, chainKey id = key := by
  rw [keys, SortedMap.mem_keys_iff, SortedSet.contains_ofMembers, List.mem_map]
  simp only [List.mem_flatMap]
  constructor
  · rintro ⟨id, ⟨c, hc, hid⟩, hkey⟩
    exact ⟨c, hc, id, hid, hkey⟩
  · rintro ⟨c, hc, id, hid, hkey⟩
    exact ⟨id, ⟨c, hc, hid⟩, hkey⟩

/-- The chains of the matrix are chains of the links. -/
theorem mem_chainKeys_of_mem_keys (h : key ∈ ChainMatrix.keys (ofLinks links)) :
    key ∈ chainKeys links := by
  obtain ⟨c, hc, id, hid, rfl⟩ := mem_keys_iff.1 h
  rw [stage_ofLinks links hc] at hid
  exact mem_chainKeys_iff.2 ⟨_, mem_idsOf_iff.1 hid, rfl⟩

/-! ## Gaps -/

theorem idInChain?_eq_none_iff {m : ChainMatrix} :
    m.idInChain? key c = none ↔ ∀ id ∈ m.stage c, chainKey id ≠ key := by
  rw [idInChain?, List.find?_eq_none]
  simp only [beq_iff_eq, ne_eq]

theorem eq_of_gap? {m : ChainMatrix} {earlier later : List Category} {g : MissingLink}
    (h : m.gap? key earlier c later = some g) :
    g.chainKey = key ∧ g.category = c ∧ m.idInChain? key c = none := by
  rw [gap?] at h
  split at h
  · next hnone _ _ =>
    cases h
    exact ⟨rfl, rfl, hnone⟩
  · cases h

/-- A gap is in a chain of the matrix, at an inner stage that the chain does not have. -/
theorem of_mem_missingLinks {m : ChainMatrix} {g : MissingLink} (h : g ∈ m.missingLinks) :
    g.chainKey ∈ ChainMatrix.keys m ∧ (g.category = .design ∨ g.category = .task) ∧
      ∀ id ∈ m.stage g.category, chainKey id ≠ g.chainKey := by
  obtain ⟨key, hkey, hg⟩ := List.mem_flatMap.1 h
  have hgap : g.chainKey = key ∧ (g.category = .design ∨ g.category = .task) ∧
      m.idInChain? key g.category = none := by
    rw [gaps, List.mem_append, Option.mem_toList, Option.mem_toList] at hg
    rcases hg with hg | hg
    · obtain ⟨hk, hc, hnone⟩ := eq_of_gap? hg
      exact ⟨hk, .inl hc, hc ▸ hnone⟩
    · obtain ⟨hk, hc, hnone⟩ := eq_of_gap? hg
      exact ⟨hk, .inr hc, hc ▸ hnone⟩
  obtain ⟨rfl, hc, hnone⟩ := hgap
  exact ⟨hkey, hc, idInChain?_eq_none_iff.1 hnone⟩

end ChainMatrix

/-! ## Counting by kind -/

/-- Things are counted kind by kind: the counts add up to the number of things of these kinds. -/
theorem foldr_countP {α κ : Type} [BEq κ] [LawfulBEq κ] (kind : α → κ) {kinds : List κ}
    (h : kinds.Nodup) (l : List α) :
    kinds.foldr (fun k n => l.countP (fun a => kind a == k) + n) 0 =
      l.countP fun a => kinds.contains (kind a) := by
  induction kinds with
  | nil => simp
  | cons k kinds ih =>
    obtain ⟨hk, hkinds⟩ := List.nodup_cons.1 h
    rw [List.foldr_cons, ih hkinds]
    simp only [List.contains_cons]
    clear ih h
    -- a thing of kind `k` is of no other kind
    induction l with
    | nil => rfl
    | cons a l ih =>
      rw [List.countP_cons, List.countP_cons, List.countP_cons, ← ih]
      by_cases hak : kind a = k
      · have hnot : kinds.contains k = false := by simpa using hk
        simp only [hak, hnot, beq_self_eq_true, Bool.true_or, Bool.false_eq_true, if_true, if_false]
        omega
      · have hne : (kind a == k) = false := by simpa using hak
        simp only [hne, Bool.false_or, Bool.false_eq_true, if_false]
        omega

theorem GroupSummary.total_ofLinks (links : List Link) (g : CategoryGroup) :
    (GroupSummary.ofLinks links g).total = links.countP fun l => l.category.group == g := by
  have hnodup : g.categories.Nodup := by cases g <;> decide
  have htotal : (GroupSummary.ofLinks links g).total =
      g.categories.foldr (fun c n => (links.countP fun l => l.category == c) + n) 0 := by
    rw [GroupSummary.ofLinks, List.foldr_map]
  rw [htotal, foldr_countP Link.category hnodup]
  congr 1
  funext l
  cases g <;> cases l.category <;> decide

end SpecLinkage
