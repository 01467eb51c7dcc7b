import SpecLinkage.Proofs.Chain.Gaps
import SpecLinkage.Proofs.Chain.Collected

/-! # Coverage whatever the order of the links

The matrix lists identifiers in the order of their first links.  What is derived from it, the coverage
and the summary depend only on which links there are; the counts of links in the summary also on how
often.  Links of different chains count on their own.

* `chainKeys_congr`, `chainHas_congr`: lists with the same links have the same chains and stages.
* `ChainMatrix.lacks_ofLinks_iff`: what the matrix lacks, from the links.
* `countP_chainKeys_append`: chains of two lists that share none are counted one list after the
  other.
* `Coverage.ofLinks_invariant` is the result. -/

namespace SpecLinkage

variable {a b links : List Link} {key : String} {c : Category}

/-! ## The same links -/

theorem chainKeys_congr (h : ∀ l, l ∈ a ↔ l ∈ b) : chainKeys a = chainKeys b := by
  apply eq_of_pairwise_lt (SortedMap.keys_pairwise _) (SortedMap.keys_pairwise _)
  intro key
  show key ∈ chainKeys a ↔ key ∈ chainKeys b
  simp only [mem_chainKeys_iff, h]

theorem chainHas_congr (h : ∀ l, l ∈ a ↔ l ∈ b) : chainHas a = chainHas b := by
  funext key c
  rw [Bool.eq_iff_iff, chainHas_iff, chainHas_iff]
  simp only [h]

theorem chainsWith_congr (h : ∀ l, l ∈ a ↔ l ∈ b) : chainsWith a = chainsWith b := by
  funext c
  rw [chainsWith, chainsWith, chainKeys_congr h, chainHas_congr h]

theorem Coverage.ofLinks_congr (h : ∀ l, l ∈ a ↔ l ∈ b) : ofLinks a = ofLinks b := by
  have hcomplete : isComplete a = isComplete b := by
    funext key
    rw [isComplete, isComplete, chainHas_congr h]
  rw [ofLinks, ofLinks, chainKeys_congr h, chainsWith_congr h, hcomplete]

/-- The completion rates of the groups. -/
def Summary.completionRates (s : Summary) : List (CategoryGroup × Binary64) :=
  s.groups.map fun g => (g.1, g.2.completionRate)

theorem Summary.completionRates_congr (h : ∀ l, l ∈ a ↔ l ∈ b) :
    (ofLinks a).completionRates = (ofLinks b).completionRates := by
  simp only [completionRates, ofLinks, List.map_map, Function.comp_def, GroupSummary.ofLinks,
    chainKeys_congr h, chainsWith_congr h]

/-! ### Gaps -/

namespace ChainMatrix

theorem stage_ofLinks_of_notMem (links : List Link) (h : c ∉ Category.primaryChain) :
    (ofLinks links).stage c = [] := by
  rw [stage, get?_ofLinks, if_neg h, Option.getD_none]

/-- The matrix lacks a chain at the stages of the primary chain that no link of it has, and at all
other categories. -/
theorem lacks_ofLinks_iff : (ofLinks links).Lacks key c ↔
    ¬(c ∈ Category.primaryChain ∧ chainHas links key c = true) := by
  by_cases hc : c ∈ Category.primaryChain
  · rw [Lacks, stage_ofLinks links hc, chainHas_iff_idsOf]
    simp [hc]
  · rw [Lacks, stage_ofLinks_of_notMem links hc]
    simp [hc]

theorem exists_missingLink_congr (h : ∀ l, l ∈ a ↔ l ∈ b) :
    (∃ g ∈ (ofLinks a).missingLinks, g.category = c ∧ g.chainKey = key) ↔
      ∃ g ∈ (ofLinks b).missingLinks, g.category = c ∧ g.chainKey = key := by
  simp only [exists_missingLink_iff, lacks_ofLinks_iff, chainHas_congr h]

end ChainMatrix

/-! ## The same links as often -/

theorem Summary.ofLinks_perm (h : a.Perm b) : ofLinks a = ofLinks b := by
  have hcount : ∀ c, (a.countP fun l => l.category == c) = b.countP fun l => l.category == c :=
    fun c => h.countP_eq _
  have hmem : ∀ l, l ∈ a ↔ l ∈ b := fun l => h.mem_iff
  simp only [ofLinks, GroupSummary.ofLinks, h.length_eq, hcount, chainKeys_congr hmem,
    chainsWith_congr hmem]

/-! ## Links of different chains -/

section Apart

variable (h : ∀ x ∈ a, ∀ y ∈ b, x.chainKey ≠ y.chainKey)

include h

theorem notMem_chainKeys (hkey : key ∈ chainKeys a) : key ∉ chainKeys b := by
  obtain ⟨x, hx, rfl⟩ := mem_chainKeys_iff.1 hkey
  intro hb
  obtain ⟨y, hy, heq⟩ := mem_chainKeys_iff.1 hb
  exact h x hx y hy heq.symm

theorem chainKeys_append_perm : (chainKeys (a ++ b)).Perm (chainKeys a ++ chainKeys b) := by
  have hnodup : (chainKeys a ++ chainKeys b).Nodup := by
    refine List.nodup_append.2 ⟨chainKeys_nodup a, chainKeys_nodup b, ?_⟩
    rintro key hkey _ hkey' rfl
    exact notMem_chainKeys h hkey hkey'
  rw [List.perm_ext_iff_of_nodup (chainKeys_nodup _) hnodup]
  intro key
  rw [List.mem_append, mem_chainKeys_iff, mem_chainKeys_iff, mem_chainKeys_iff]
  simp only [List.mem_append, or_and_right, exists_or]

omit h in
theorem chainHas_of_notMem (hkey : key ∉ chainKeys links) : chainHas links key c = false := by
  rw [Bool.eq_false_iff, Ne, chainHas_iff]
  rintro ⟨l, hl, -, hk⟩
  exact hkey (mem_chainKeys_iff.2 ⟨l, hl, hk⟩)

omit h in
theorem chainHas_append : chainHas (a ++ b) key c = (chainHas a key c || chainHas b key c) :=
  List.any_append

/-- A predicate that looks at one of two lists for the chains of that list is counted one list after
the other. -/
theorem countP_chainKeys_append {p pa pb : String → Bool}
    (ha : ∀ key ∈ chainKeys a, p key = pa key) (hb : ∀ key ∈ chainKeys b, p key = pb key) :
    (chainKeys (a ++ b)).countP p = (chainKeys a).countP pa + (chainKeys b).countP pb := by
  have hpa : (chainKeys a).countP p = (chainKeys a).countP pa :=
    List.countP_congr fun key hkey => by rw [ha key hkey]
  have hpb : (chainKeys b).countP p = (chainKeys b).countP pb :=
    List.countP_congr fun key hkey => by rw [hb key hkey]
  rw [(chainKeys_append_perm h).countP_eq, List.countP_append, hpa, hpb]

theorem length_chainKeys_append :
    (chainKeys (a ++ b)).length = (chainKeys a).length + (chainKeys b).length := by
  rw [(chainKeys_append_perm h).length_eq, List.length_append]

/-- The stages of a chain of the first list are those that this list has. -/
theorem chainHas_append_left (hkey : key ∈ chainKeys a) :
    chainHas (a ++ b) key = chainHas a key := by
  funext c
  rw [chainHas_append, chainHas_of_notMem (notMem_chainKeys h hkey), Bool.or_false]

theorem chainHas_append_right (hkey : key ∈ chainKeys b) :
    chainHas (a ++ b) key = chainHas b key := by
  funext c
  have hnot : key ∉ chainKeys a := fun ha => notMem_chainKeys h ha hkey
  rw [chainHas_append, chainHas_of_notMem hnot, Bool.false_or]

theorem chainsWith_append (c : Category) :
    chainsWith (a ++ b) c = chainsWith a c + chainsWith b c :=
  countP_chainKeys_append h
    (fun _ hkey => congrFun (chainHas_append_left h hkey) c)
    (fun _ hkey => congrFun (chainHas_append_right h hkey) c)

theorem countP_isComplete_append :
    (chainKeys (a ++ b)).countP (isComplete (a ++ b)) =
      (chainKeys a).countP (isComplete a) + (chainKeys b).countP (isComplete b) :=
  countP_chainKeys_append h
    (fun _ hkey => by rw [isComplete, isComplete, chainHas_append_left h hkey])
    (fun _ hkey => by rw [isComplete, isComplete, chainHas_append_right h hkey])

end Apart

/-- The stages with the numbers of chains that have them. -/
def Coverage.presentCounts (v : Coverage) : List (Category × Nat) :=
  v.stages.map fun s => (s.1, s.2.present)

theorem Coverage.presentCounts_ofLinks (links : List Link) :
    (ofLinks links).presentCounts =
      Category.primaryChain.map fun c => (c, chainsWith links c) := by
  rw [presentCounts, ofLinks, List.map_map]
  rfl

theorem Coverage.presentCounts_append (h : ∀ x ∈ a, ∀ y ∈ b, x.chainKey ≠ y.chainKey) :
    (ofLinks (a ++ b)).presentCounts =
      List.zipWith (fun s t => (s.1, s.2 + t.2)) (ofLinks a).presentCounts
        (ofLinks b).presentCounts := by
  simp only [presentCounts_ofLinks, chainsWith_append h, List.zipWith_map, List.zipWith_self]

/-- Coverage depends only on the set of links: with the same links in any order, each any number of
times, the coverage, the completion rates and the chains with gaps are the same.  With the same links
as often, the whole summary is.  Coverage of links that share no chain adds up.  Coverage and matrix
are what a pass over the links collects. -/
theorem Coverage.ofLinks_invariant (a b : List Link) :
    ((∀ l, l ∈ a ↔ l ∈ b) →
      ofLinks a = ofLinks b ∧
      (Summary.ofLinks a).completionRates = (Summary.ofLinks b).completionRates ∧
      ∀ c key,
        (∃ g ∈ (ChainMatrix.ofLinks a).missingLinks, g.category = c ∧ g.chainKey = key) ↔
          ∃ g ∈ (ChainMatrix.ofLinks b).missingLinks, g.category = c ∧ g.chainKey = key) ∧
    (a.Perm b → Summary.ofLinks a = Summary.ofLinks b) ∧
    ((∀ x ∈ a, ∀ y ∈ b, x.chainKey ≠ y.chainKey) →
      (ofLinks (a ++ b)).totalChains = (ofLinks a).totalChains + (ofLinks b).totalChains ∧
      (ofLinks (a ++ b)).completeChains =
        (ofLinks a).completeChains + (ofLinks b).completeChains ∧
      (ofLinks (a ++ b)).presentCounts =
        List.zipWith (fun s t => (s.1, s.2 + t.2)) (ofLinks a).presentCounts
          (ofLinks b).presentCounts) ∧
    ofTable (ChainTable.collect a) = ofLinks a ∧
      (a.foldl MatrixPass.step .start).matrix = ChainMatrix.ofLinks a := by
  refine ⟨fun h => ⟨ofLinks_congr h, Summary.completionRates_congr h, fun c key => ?_⟩,
    Summary.ofLinks_perm, fun h => ⟨?_, ?_, presentCounts_append h⟩, ofTable_collect a,
    ChainMatrix.pass_matrix a⟩
  · exact ChainMatrix.exists_missingLink_congr h
  · exact length_chainKeys_append h
  · exact countP_isComplete_append h

theorem Coverage.ofLinks_invariant_repeated :
    let a : List Link := [⟨.req, "SPEC-AUTH-001"⟩, ⟨.test, "TEST-AUTH-001"⟩]
    let b : List Link := [⟨.test, "TEST-AUTH-001"⟩, ⟨.req, "SPEC-AUTH-001"⟩]
    let b' : List Link := [⟨.code, "SPEC-BILL-002"⟩]
    ofLinks a = ofLinks (b ++ b) ∧ Summary.ofLinks a = Summary.ofLinks b ∧
      (ofLinks (a ++ b')).totalChains = 2 := by
  intro a b b'
  have hmem : ∀ l, l ∈ a ↔ l ∈ b ++ b := by simp [a, b, or_comm]
  have hperm : a.Perm b := .swap ..
  have hapart : ∀ x ∈ a, ∀ y ∈ b', x.chainKey ≠ y.chainKey := by decide +kernel
  refine ⟨((ofLinks_invariant a (b ++ b)).1 hmem).1, (ofLinks_invariant a b).2.1 hperm, ?_⟩
  rw [((ofLinks_invariant a b').2.2.1 hapart).1]
  decide +kernel

end SpecLinkage
