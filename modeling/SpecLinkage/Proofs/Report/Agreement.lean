import SpecLinkage.Report.Basic
import SpecLinkage.Proofs.Chain.Stages

/-! # Reports without contradictions

The sections of a report are computed by different routes: the matrix and the gaps from lists of
identifiers, the coverage from the chains, the summary by counting links.  They agree on every
list of links.

* `Report.Agrees` says on what the sections agree.
* `Report.ofLinks_agrees`: they do. -/

namespace SpecLinkage

/-- What the sections of a report on some links say about the same things. -/
structure Report.Agrees (links : List Link) (r : Report) : Prop where
  /-- As many chains have a stage as there are keys in the stage. -/
  present : ∀ c ∈ Category.primaryChain, ∃ s, r.coverage.stages.lookup c = some s ∧
    distinctChains (r.matrix.stage c) = s.present
  /-- A stage is empty if no link of it is counted. -/
  counted : ∀ c ∈ Category.primaryChain, ∃ g n, r.summary.groups.lookup c.group = some g ∧
    g.counts.lookup c = some n ∧ (r.matrix.stage c = [] ↔ n = 0)
  /-- Every chain is complete or incomplete. -/
  split : r.coverage.completeChains + r.coverage.incompleteChains.length = r.coverage.totalChains
  total : r.coverage.totalChains = r.summary.totalChains ∧
    r.coverage.totalChains = distinctChains (links.map Link.id)
  sorted : r.coverage.incompleteChains.Pairwise fun a b => compare a b = .lt
  /-- A complete chain has every stage. -/
  bounds : ∀ c s, (c, s) ∈ r.coverage.stages →
    r.coverage.completeChains ≤ s.present ∧ s.present ≤ r.coverage.totalChains
  /-- A chain with a gap is incomplete and does not have the stage. -/
  missing : ∀ m ∈ r.missing, m.chainKey ∈ r.coverage.incompleteChains ∧
    ∀ l ∈ links, l.chainKey = m.chainKey → l.category ≠ m.category
  /-- Every link is counted in one group. -/
  groups : r.summary.groups.foldr (fun g n => g.2.total + n) 0 = r.totalTags

namespace Report

theorem lookup_map_self {κ β : Type} [DecidableEq κ] (f : κ → β) {k : κ} {ks : List κ}
    (h : k ∈ ks) : (ks.map fun k => (k, f k)).lookup k = some (f k) := by
  induction ks with
  | nil => cases h
  | cons k' ks ih =>
    rw [List.map_cons, List.lookup_cons]
    by_cases hk : k = k'
    · simp [hk]
    · have hne : (k == k') = false := by simpa using hk
      rw [hne]
      exact ih ((List.mem_cons.1 h).resolve_left hk)

variable (links : List Link) (title : String)

theorem length_incompleteChains :
    (Coverage.ofLinks links).completeChains + (Coverage.ofLinks links).incompleteChains.length =
      (Coverage.ofLinks links).totalChains := by
  show (chainKeys links).countP (isComplete links) +
    ((chainKeys links).filter fun key => !isComplete links key).length = (chainKeys links).length
  rw [← List.countP_eq_length_filter, List.length_eq_countP_add_countP (isComplete links)]
  simp

/-- A complete chain has each stage of the primary chain. -/
theorem chainHas_of_isComplete {key : String} {c : Category} (h : isComplete links key = true)
    (hc : c ∈ Category.primaryChain) : chainHas links key c = true :=
  List.all_eq_true.1 h c hc

/-- A chain with a gap is incomplete. -/
theorem not_isComplete_of_mem_missingLinks {m : MissingLink}
    (h : m ∈ (ChainMatrix.ofLinks links).missingLinks) :
    m.chainKey ∈ chainKeys links ∧ chainHas links m.chainKey m.category = false ∧
      isComplete links m.chainKey = false := by
  obtain ⟨hkey, hinner, habsent⟩ := ChainMatrix.of_mem_missingLinks h
  have hprimary : m.category ∈ Category.primaryChain := by
    rcases hinner with hc | hc <;> rw [hc] <;> decide
  have hhas : chainHas links m.chainKey m.category = false := by
    rw [Bool.eq_false_iff, ne_eq, ChainMatrix.chainHas_iff_idsOf]
    rintro ⟨id, hid, hk⟩
    rw [ChainMatrix.stage_ofLinks links hprimary] at habsent
    exact habsent id hid hk
  refine ⟨ChainMatrix.mem_chainKeys_of_mem_keys hkey, hhas, ?_⟩
  rw [Bool.eq_false_iff]
  intro hcomplete
  rw [chainHas_of_isComplete links hcomplete hprimary] at hhas
  cases hhas

theorem total_groups :
    (Summary.ofLinks links).groups.foldr (fun g n => g.2.total + n) 0 = links.length := by
  have htotal : (Summary.ofLinks links).groups.foldr (fun g n => g.2.total + n) 0 =
      CategoryGroup.all.foldr (fun g n => (links.countP fun l => l.category.group == g) + n) 0 := by
    rw [Summary.ofLinks, List.foldr_map]
    simp only [GroupSummary.total_ofLinks]
  rw [htotal, foldr_countP (fun l : Link => l.category.group) (by decide), List.countP_eq_length]
  intro l _
  cases l.category <;> decide

/-- **The sections of a report never contradict each other**, whatever the links are. -/
theorem ofLinks_agrees : (ofLinks links title).Agrees links where
  present c hc := by
    refine ⟨_, lookup_map_self _ hc, ?_⟩
    show distinctChains ((ChainMatrix.ofLinks links).stage c) = chainsWith links c
    rw [ChainMatrix.stage_ofLinks links hc, ChainMatrix.distinctChains_idsOf]
  counted c hc := by
    have hgroup : c.group ∈ CategoryGroup.all := by cases c <;> decide
    have hcategory : c ∈ c.group.categories := by cases c <;> decide
    refine ⟨_, _, lookup_map_self _ hgroup, lookup_map_self _ hcategory, ?_⟩
    show (ChainMatrix.ofLinks links).stage c = [] ↔ _
    rw [ChainMatrix.stage_ofLinks links hc, ChainMatrix.idsOf_eq_nil_iff]
  split := length_incompleteChains links
  total := ⟨rfl, (distinctChains_links links).symm⟩
  sorted := (SortedMap.keys_pairwise _).filter _
  bounds c s hs := by
    obtain ⟨c', hc, heq⟩ := List.mem_map.1 hs
    obtain ⟨rfl, rfl⟩ := Prod.mk.inj heq
    exact ⟨List.countP_mono_left fun key _ h => chainHas_of_isComplete links h hc,
      List.countP_le_length⟩
  missing m hm := by
    obtain ⟨hkey, hhas, hincomplete⟩ := not_isComplete_of_mem_missingLinks links hm
    refine ⟨List.mem_filter.2 ⟨hkey, by rw [hincomplete]; rfl⟩, fun l hl hk hc => ?_⟩
    rw [Bool.eq_false_iff, ne_eq, chainHas_iff] at hhas
    exact hhas ⟨l, hl, hc, hk⟩
  groups := total_groups links

end Report

end SpecLinkage
