import SpecLinkage.Proofs.Chain.Stages

/-! # The gaps of a chain matrix

A chain has a gap at a stage that has no identifier of it, if an earlier and a later stage have one.

* `ChainMatrix.walk` goes along the stages of one chain; `mem_walk_iff` says what it reports.
* `ChainMatrix.Lacks`, `ListsFirst` and `Nearest` say what a matrix lists for a chain.
* `ChainMatrix.mem_missingLinks_iff`: the gaps are exactly those that the matrix has.
* `ChainMatrix.pairwise_missingLinks`: they come by key and then by stage, each once.
* `ChainMatrix.slotTable` holds for every chain the first identifier of each stage, filled in one
  after the other; `flatMap_slotTable`: walking along its rows gives the gaps.
* `ChainMatrix.missingLinks_exact` is the result. -/

namespace SpecLinkage

/-- Whether a stage of the primary chain comes before another. -/
def Category.Precedes (a b : Category) : Prop := [a, b].Sublist primaryChain

instance : DecidableRel Category.Precedes := fun a b =>
  inferInstanceAs (Decidable ([a, b].Sublist Category.primaryChain))

/-- A stage between two others is one of the inner ones. -/
theorem Category.inner_of_precedes {b c d : Category} (hb : b.Precedes c) (hd : c.Precedes d) :
    c = .design ∨ c = .task := by
  have hc : c ∈ primaryChain := hb.subset (List.mem_cons_of_mem b List.mem_cons_self)
  simp only [primaryChain, List.mem_cons, List.not_mem_nil, or_false] at hc
  rcases hc with rfl | rfl | rfl | rfl
  · cases b <;> exact absurd hb (by decide)
  · exact .inl rfl
  · exact .inr rfl
  · cases d <;> exact absurd hd (by decide)

theorem Category.Precedes.irrefl {c : Category} (h : c.Precedes c) : False := by
  cases c <;> exact absurd h (by decide)

/-- The stages before and behind a stage are those that precede and follow it. -/
theorem Category.precedes_iff {c : Category} {earlier later : List Category}
    (h : primaryChain = earlier ++ c :: later) (d : Category) :
    (d.Precedes c ↔ d ∈ earlier) ∧ (c.Precedes d ↔ d ∈ later) := by
  have hnodup : (earlier ++ c :: later).Nodup := h ▸ (by decide : primaryChain.Nodup)
  rw [List.nodup_append, List.nodup_cons] at hnodup
  obtain ⟨-, ⟨hlater, -⟩, hearlier⟩ := hnodup
  rw [Precedes, Precedes, h]
  refine ⟨⟨fun hsub => ?_, fun hd => ?_⟩, fun hsub => ?_, fun hd => ?_⟩
  · obtain ⟨_ | ⟨x, front⟩, back, hpair, hfront, hback⟩ := List.sublist_append_iff.1 hsub
    · obtain rfl : [d, c] = back := hpair
      exact absurd (List.singleton_sublist.1 hback.tail) hlater
    · obtain ⟨rfl, -⟩ := List.cons.inj hpair
      exact hfront.subset List.mem_cons_self
  · exact (List.singleton_sublist.2 hd).append (List.singleton_sublist.2 List.mem_cons_self)
  · obtain ⟨_ | ⟨x, front⟩, back, hpair, hfront, hback⟩ := List.sublist_append_iff.1 hsub
    · obtain rfl : [c, d] = back := hpair
      exact List.singleton_sublist.1 hback.tail
    · obtain ⟨rfl, -⟩ := List.cons.inj hpair
      exact absurd rfl (hearlier c (hfront.subset List.mem_cons_self) c List.mem_cons_self)
  · exact ((List.singleton_sublist.2 hd).cons_cons c).trans (List.sublist_append_right _ _)

/-- The identifiers of a chain by stage. -/
abbrev SlotRow := Category → Option String

/-- The identifiers of all chains by key and stage. -/
abbrev SlotTable := SortedMap String SlotRow

namespace ChainMatrix

variable {m : ChainMatrix} {key : String} {c : Category} {row : SlotRow}
  {earlier later stages : List Category} {g : MissingLink}

/-! ## One chain -/

/-- The gap of a chain at the stage `c`, from the identifiers of its stages. -/
def gapBetween? (row : SlotRow) (key : String) (earlier : List Category)
    (c : Category) (later : List Category) : Option MissingLink :=
  match row c, earlier.findSome? row, later.findSome? row with
  | none, some before, some after => some ⟨c, key, before, after⟩
  | _, _, _ => none

/-- The gaps of a chain along some stages, with the stages before them, nearest first. -/
def walk (row : SlotRow) (key : String) (earlier : List Category) :
    List Category → List MissingLink
  | [] => []
  | c :: later => (gapBetween? row key earlier c later).toList ++ walk row key (c :: earlier) later

theorem gapBetween?_eq_some_iff : gapBetween? row key earlier c later = some g ↔
    g.category = c ∧ g.chainKey = key ∧ row c = none ∧ earlier.findSome? row = some g.before ∧
      later.findSome? row = some g.after := by
  unfold gapBetween?
  constructor
  · intro h
    split at h
    · next hc hbefore hafter =>
      cases h
      exact ⟨rfl, rfl, hc, hbefore, hafter⟩
    · cases h
  · rintro ⟨rfl, rfl, hc, hbefore, hafter⟩
    rw [hc, hbefore, hafter]

/-- The walk reports a gap at every stage that is empty between two that are not. -/
theorem mem_walk_iff : g ∈ walk row key earlier stages ↔
    ∃ passed later, stages = passed ++ g.category :: later ∧ g.chainKey = key ∧
      row g.category = none ∧ (passed.reverse ++ earlier).findSome? row = some g.before ∧
      later.findSome? row = some g.after := by
  induction stages generalizing earlier with
  | nil => simp [walk]
  | cons c stages ih =>
    rw [walk, List.mem_append, Option.mem_toList, gapBetween?_eq_some_iff, ih]
    constructor
    · rintro (⟨rfl, hkey, hrow, hbefore, hafter⟩ | ⟨passed, later, rfl, hkey, hrow, hbefore, hafter⟩)
      · exact ⟨[], stages, rfl, hkey, hrow, hbefore, hafter⟩
      · refine ⟨c :: passed, later, rfl, hkey, hrow, ?_, hafter⟩
        rwa [List.reverse_cons, List.append_assoc, List.singleton_append]
    · rintro ⟨_ | ⟨c', passed⟩, later, hstages, hkey, hrow, hbefore, hafter⟩
      · obtain ⟨rfl, rfl⟩ := List.cons.inj hstages
        exact .inl ⟨rfl, hkey, hrow, hbefore, hafter⟩
      · obtain ⟨rfl, rfl⟩ := List.cons.inj hstages
        refine .inr ⟨passed, later, rfl, hkey, hrow, ?_, hafter⟩
        rwa [List.reverse_cons, List.append_assoc, List.singleton_append] at hbefore

theorem category_mem_of_mem_walk (h : g ∈ walk row key earlier stages) :
    g.chainKey = key ∧ g.category ∈ stages := by
  obtain ⟨passed, later, rfl, hkey, -⟩ := mem_walk_iff.1 h
  exact ⟨hkey, List.mem_append_right _ List.mem_cons_self⟩

/-- The walk reports the gaps in the order of the stages. -/
theorem pairwise_walk : (walk row key earlier stages).Pairwise fun a b =>
    a.chainKey = b.chainKey ∧ [a.category, b.category].Sublist stages := by
  induction stages generalizing earlier with
  | nil => exact .nil
  | cons c stages ih =>
    rw [walk, List.pairwise_append]
    refine ⟨?_, ih.imp fun h => ⟨h.1, h.2.cons c⟩, fun a ha b hb => ?_⟩
    · cases gapBetween? row key earlier c stages with
      | none => exact .nil
      | some g => exact List.pairwise_singleton _ g
    · obtain ⟨rfl, hkey, -⟩ := gapBetween?_eq_some_iff.1 (Option.mem_toList.1 ha)
      obtain ⟨hkey', hmem⟩ := category_mem_of_mem_walk hb
      exact ⟨hkey.trans hkey'.symm, (List.singleton_sublist.2 hmem).cons_cons _⟩

/-- At the ends of the primary chain there are no gaps, so the walk gives the gaps of the matrix. -/
theorem gaps_eq_walk (m : ChainMatrix) (key : String) :
    m.gaps key = walk (m.idInChain? key) key [] Category.primaryChain := by
  have hfirst : gapBetween? (m.idInChain? key) key [] .req [.design, .task, .test] = none := by
    rw [Option.eq_none_iff_forall_ne_some]
    intro g hg
    obtain ⟨-, -, -, hbefore, -⟩ := gapBetween?_eq_some_iff.1 hg
    cases hbefore
  have hlast : gapBetween? (m.idInChain? key) key [.task, .design, .req] .test [] = none := by
    rw [Option.eq_none_iff_forall_ne_some]
    intro g hg
    obtain ⟨-, -, -, -, hafter⟩ := gapBetween?_eq_some_iff.1 hg
    cases hafter
  simp only [walk, Category.primaryChain, hfirst, hlast, Option.toList_none, List.nil_append,
    List.append_nil]
  rfl

/-! ## What a matrix lists -/

/-- The stage has no identifier of the chain. -/
def Lacks (m : ChainMatrix) (key : String) (c : Category) : Prop :=
  ∀ id ∈ m.stage c, chainKey id ≠ key

/-- The first identifier of the chain that the stage lists. -/
def ListsFirst (m : ChainMatrix) (key : String) (c : Category) (id : String) : Prop :=
  ∃ front back, m.stage c = front ++ id :: back ∧ chainKey id = key ∧
    ∀ other ∈ front, chainKey other ≠ key

/-- The first identifier of the chain in the nearest of the stages that has one. -/
def Nearest (m : ChainMatrix) (key : String) (stages : List Category) (id : String) : Prop :=
  ∃ near c far, stages = near ++ c :: far ∧ (∀ d ∈ near, m.Lacks key d) ∧ m.ListsFirst key c id

theorem idInChain?_eq_some_iff {id : String} :
    m.idInChain? key c = some id ↔ m.ListsFirst key c id := by
  rw [idInChain?, List.find?_eq_some_iff_append, ListsFirst]
  simp only [beq_iff_eq, Bool.not_eq_true', beq_eq_false_iff_ne]
  constructor
  · rintro ⟨hkey, front, back, hstage, hfront⟩
    exact ⟨front, back, hstage, hkey, hfront⟩
  · rintro ⟨front, back, hstage, hkey, hfront⟩
    exact ⟨hkey, front, back, hstage, hfront⟩

theorem findSome?_idInChain? {id : String} :
    stages.findSome? (m.idInChain? key) = some id ↔ m.Nearest key stages id := by
  rw [List.findSome?_eq_some_iff, Nearest]
  simp only [idInChain?_eq_none_iff, idInChain?_eq_some_iff]
  constructor
  · rintro ⟨near, c, far, hstages, hid, hnear⟩
    exact ⟨near, c, far, hstages, hnear, hid⟩
  · rintro ⟨near, c, far, hstages, hnear, hid⟩
    exact ⟨near, c, far, hstages, hid, hnear⟩

/-- Some stage has an identifier of the chain exactly if there is a nearest one. -/
theorem exists_nearest_iff :
    (∃ id, m.Nearest key stages id) ↔ ∃ c ∈ stages, ¬m.Lacks key c := by
  have hlacks : ∀ c, (m.idInChain? key c).isSome = true ↔ ¬m.Lacks key c := by
    intro c
    rw [Lacks, ← idInChain?_eq_none_iff, ← Ne, Option.isSome_iff_ne_none]
  simp only [← findSome?_idInChain?, ← Option.isSome_iff_exists, List.findSome?_isSome_iff, hlacks]

/-! ## All chains -/

/-- A matrix has a gap where a chain is absent from a stage, and its neighbours are the nearest
stages that have the chain. -/
theorem mem_missingLinks_iff : g ∈ m.missingLinks ↔
    ∃ earlier later, Category.primaryChain = earlier ++ g.category :: later ∧
      m.Lacks g.chainKey g.category ∧ m.Nearest g.chainKey earlier.reverse g.before ∧
      m.Nearest g.chainKey later g.after := by
  have hgaps : ∀ key, g ∈ m.gaps key ↔ ∃ earlier later,
      Category.primaryChain = earlier ++ g.category :: later ∧ g.chainKey = key ∧
        m.Lacks key g.category ∧ m.Nearest key earlier.reverse g.before ∧
        m.Nearest key later g.after := by
    intro key
    rw [gaps_eq_walk, mem_walk_iff]
    simp only [List.append_nil, findSome?_idInChain?, idInChain?_eq_none_iff, Lacks]
  rw [missingLinks, List.mem_flatMap]
  simp only [hgaps]
  constructor
  · rintro ⟨key, -, earlier, later, hchain, rfl, h⟩
    exact ⟨earlier, later, hchain, h⟩
  · rintro ⟨earlier, later, hchain, hlacks, hbefore, hafter⟩
    refine ⟨g.chainKey, ?_, earlier, later, hchain, rfl, hlacks, hbefore, hafter⟩
    obtain ⟨near, c, far, hlater, -, front, back, hstage, hkey, -⟩ := hafter
    have hc : c ∈ Category.primaryChain := by
      rw [hchain, hlater]
      simp
    have hid : g.after ∈ m.stage c := by
      rw [hstage]
      simp
    exact mem_keys_iff.2 ⟨c, hc, g.after, hid, hkey⟩

/-- The gaps come by key and then by stage. -/
theorem pairwise_missingLinks (m : ChainMatrix) : m.missingLinks.Pairwise fun a b =>
    compare a.chainKey b.chainKey = .lt ∨
      a.chainKey = b.chainKey ∧ a.category.Precedes b.category := by
  have hkeys : ∀ {key g}, g ∈ m.gaps key → g.chainKey = key := by
    intro key g hg
    rw [gaps_eq_walk] at hg
    exact (category_mem_of_mem_walk hg).1
  rw [missingLinks, List.pairwise_flatMap]
  refine ⟨fun key _ => ?_, (SortedMap.keys_pairwise _).imp fun {k k'} hlt a ha b hb => .inl ?_⟩
  · rw [gaps_eq_walk]
    exact pairwise_walk.imp .inr
  · rwa [hkeys ha, hkeys hb]

/-- There is a gap at an inner stage that does not have the chain, if an earlier and a later stage
have it. -/
theorem exists_missingLink_iff : (∃ g ∈ m.missingLinks, g.category = c ∧ g.chainKey = key) ↔
    (c = .design ∨ c = .task) ∧ m.Lacks key c ∧ (∃ e : Category, e.Precedes c ∧ ¬m.Lacks key e) ∧
      ∃ l, c.Precedes l ∧ ¬m.Lacks key l := by
  constructor
  · rintro ⟨g, hg, rfl, rfl⟩
    obtain ⟨earlier, later, hchain, hlacks, hbefore, hafter⟩ := mem_missingLinks_iff.1 hg
    obtain ⟨e, he, hhas⟩ := exists_nearest_iff.1 ⟨_, hbefore⟩
    obtain ⟨l, hl, hhas'⟩ := exists_nearest_iff.1 ⟨_, hafter⟩
    rw [List.mem_reverse] at he
    have hprecedes := (Category.precedes_iff hchain e).1.2 he
    have hfollows := (Category.precedes_iff hchain l).2.2 hl
    exact ⟨Category.inner_of_precedes hprecedes hfollows, hlacks, ⟨e, hprecedes, hhas⟩, l, hfollows,
      hhas'⟩
  · rintro ⟨hinner, hlacks, ⟨e, he, hhas⟩, l, hl, hhas'⟩
    obtain ⟨earlier, later, hchain⟩ :
        ∃ earlier later, Category.primaryChain = earlier ++ c :: later :=
      List.append_of_mem (by rcases hinner with rfl | rfl <;> decide)
    have hearlier := (Category.precedes_iff hchain e).1.1 he
    have hlater := (Category.precedes_iff hchain l).2.1 hl
    obtain ⟨before, hbefore⟩ := exists_nearest_iff.2 ⟨e, List.mem_reverse.2 hearlier, hhas⟩
    obtain ⟨after, hafter⟩ := exists_nearest_iff.2 ⟨l, hlater, hhas'⟩
    exact ⟨⟨c, key, before, after⟩,
      mem_missingLinks_iff.2 ⟨earlier, later, hchain, hlacks, hbefore, hafter⟩, rfl, rfl⟩

/-! ## The table -/

end ChainMatrix

/-- The row with an identifier put in at a stage, unless there is one already. -/
def SlotRow.put (row : SlotRow) (e : Category × String) : SlotRow := fun c =>
  if c = e.1 then (row c).or (some e.2) else row c

namespace SlotTable

/-- The table with an identifier put in at a stage of its chain. -/
def put (table : SlotTable) (e : Category × String) : SlotTable :=
  table.insert (chainKey e.2) (SlotRow.put ((table.get? (chainKey e.2)).getD fun _ => none) e)

/-- What stands in the table for a chain at a stage. -/
def slot? (table : SlotTable) (key : String) (c : Category) : Option String :=
  (table.get? key).bind fun row => row c

variable (table : SlotTable) (es : List (Category × String)) (key : String) (c : Category)

theorem slot?_put (e : Category × String) : slot? (table.put e) key c =
    (slot? table key c).or (([e].find? fun e => e.1 == c && chainKey e.2 == key).map Prod.snd) := by
  by_cases hkey : chainKey e.2 = key
  · subst hkey
    rw [slot?, put, SortedMap.get?_insert_self, Option.bind_some, SlotRow.put, slot?]
    by_cases hc : c = e.1
    · rw [if_pos hc, List.find?_cons_of_pos (by simp [hc])]
      cases table.get? (chainKey e.2) <;> rfl
    · rw [if_neg hc, List.find?_cons_of_neg (by simp [Ne.symm hc])]
      cases table.get? (chainKey e.2) <;> simp
  · rw [slot?, put, SortedMap.get?_insert_of_ne _ _ (Ne.symm hkey),
      List.find?_cons_of_neg (by simp [hkey])]
    exact Option.or_none.symm

/-- Every slot keeps the first identifier that is put in. -/
theorem slot?_foldl_put : slot? (es.foldl put table) key c =
    (slot? table key c).or ((es.find? fun e => e.1 == c && chainKey e.2 == key).map Prod.snd) := by
  induction es generalizing table with
  | nil => exact Option.or_none.symm
  | cons e es ih =>
    rw [List.foldl_cons, ih, slot?_put, Option.or_assoc, ← Option.map_or, ← List.find?_append,
      List.singleton_append]

theorem contains_foldl_put : (es.foldl put table).contains key = true ↔
    table.contains key = true ∨ ∃ e ∈ es, chainKey e.2 = key := by
  have hput : put = fun (table : SlotTable) e => table.insert (chainKey e.2)
      (SlotRow.put ((table.get? (chainKey e.2)).getD fun _ => none) e) := rfl
  rw [hput]
  exact SortedMap.contains_foldl_insert _ _ es table key

end SlotTable

namespace ChainMatrix

/-- The table of the chains of a matrix, filled stage by stage with one identifier after the other. -/
def slotTable (m : ChainMatrix) : SlotTable :=
  Category.primaryChain.foldl
    (fun table c => (m.stage c).foldl (fun table id => table.put (c, id)) table) ∅

/-- The identifiers of a matrix with their stages. -/
def listing (m : ChainMatrix) : List (Category × String) :=
  Category.primaryChain.flatMap fun c => (m.stage c).map fun id => (c, id)

theorem slotTable_eq (m : ChainMatrix) : m.slotTable = m.listing.foldl SlotTable.put ∅ := by
  rw [slotTable, listing, List.foldl_flatMap]
  simp only [List.foldl_map]

/-- The chains of the table are those of the matrix. -/
theorem keys_slotTable (m : ChainMatrix) : m.slotTable.keys = ChainMatrix.keys m := by
  apply eq_of_pairwise_lt (SortedMap.keys_pairwise _) (SortedMap.keys_pairwise _)
  intro key
  show key ∈ SortedMap.keys m.slotTable ↔ key ∈ ChainMatrix.keys m
  rw [SortedMap.mem_keys_iff, slotTable_eq, SlotTable.contains_foldl_put, mem_keys_iff, listing]
  simp [SortedMap.contains, and_assoc]

theorem findSome?_eq_of_unique {α β : Type} [DecidableEq α] {f : α → Option β} {a : α} {l : List α}
    (ha : a ∈ l) (hf : ∀ b, b ≠ a → f b = none) : l.findSome? f = f a := by
  induction l with
  | nil => cases ha
  | cons b l ih =>
    rw [List.findSome?_cons]
    by_cases hb : b = a
    · subst hb
      cases hfb : f b with
      | some x => rfl
      | none =>
        rw [List.findSome?_eq_none_iff]
        intro d _
        by_cases hd : d = b
        · rw [hd, hfb]
        · exact hf d hd
    · rw [hf b hb]
      exact ih ((List.mem_cons.1 ha).resolve_left (Ne.symm hb))

/-- The table holds the first identifier of each stage. -/
theorem slot?_slotTable (m : ChainMatrix) (key : String) (hc : c ∈ Category.primaryChain) :
    m.slotTable.slot? key c = m.idInChain? key c := by
  have hother : ∀ d, d ≠ c → ((m.stage d).map fun id => (d, id)).find?
      (fun e => e.1 == c && chainKey e.2 == key) = none := by
    intro d hd
    simp [hd]
  have hown : ((m.stage c).map fun id => (c, id)).find? (fun e => e.1 == c && chainKey e.2 == key) =
      (m.idInChain? key c).map fun id => (c, id) := by
    rw [List.find?_map, idInChain?]
    simp only [Function.comp_def, beq_self_eq_true, Bool.true_and]
  rw [slotTable_eq, SlotTable.slot?_foldl_put, listing, List.find?_flatMap,
    findSome?_eq_of_unique hc hother, hown, Option.map_map]
  exact (Option.none_or ..).trans (congrFun Option.map_id_fun' _)

/-- Walking along the rows of the table gives the gaps. -/
theorem flatMap_slotTable (m : ChainMatrix) :
    (m.slotTable.toList.flatMap fun e => walk e.2 e.1 [] Category.primaryChain) = m.missingLinks := by
  have hrow : ∀ e ∈ m.slotTable.toList,
      walk e.2 e.1 [] Category.primaryChain = m.gaps e.1 := by
    intro e he
    have hslot : ∀ c ∈ Category.primaryChain, e.2 c = m.idInChain? e.1 c := by
      intro c hc
      rw [← slot?_slotTable m e.1 hc, SlotTable.slot?, (SortedMap.mem_toList_iff _).1 he,
        Option.bind_some]
    rw [gaps_eq_walk]
    simp only [walk, gapBetween?, Category.primaryChain, List.findSome?_cons, List.findSome?_nil,
      hslot .req (by decide), hslot .design (by decide), hslot .task (by decide),
      hslot .test (by decide)]
  rw [missingLinks, ← keys_slotTable, SortedMap.keys, List.flatMap_map]
  exact List.flatMap_congr hrow

/-- **Missing links are exact.**  A stage of a chain is reported if it is an inner stage without the
chain, and an earlier and a later stage have the chain; it is reported once, by key and then by stage,
with the first identifiers of its nearest neighbours.  This is what is found in the table of the
chains, filled identifier by identifier. -/
theorem missingLinks_exact (m : ChainMatrix) :
    (∀ c key, (∃ g ∈ m.missingLinks, g.category = c ∧ g.chainKey = key) ↔
        (c = .design ∨ c = .task) ∧ m.Lacks key c ∧
          (∃ e : Category, e.Precedes c ∧ ¬m.Lacks key e) ∧
          ∃ l, c.Precedes l ∧ ¬m.Lacks key l) ∧
      (m.missingLinks.map fun g => (g.category, g.chainKey)).Nodup ∧
      (m.missingLinks.Pairwise fun a b => compare a.chainKey b.chainKey = .lt ∨
        a.chainKey = b.chainKey ∧ a.category.Precedes b.category) ∧
      (∀ g ∈ m.missingLinks, ∃ earlier later,
        Category.primaryChain = earlier ++ g.category :: later ∧
          m.Nearest g.chainKey earlier.reverse g.before ∧ m.Nearest g.chainKey later g.after) ∧
      (m.slotTable.toList.flatMap fun e => walk e.2 e.1 [] Category.primaryChain) =
        m.missingLinks := by
  refine ⟨fun c key => exists_missingLink_iff, ?_, pairwise_missingLinks m, fun g hg => ?_,
    flatMap_slotTable m⟩
  · rw [List.nodup_iff_pairwise_ne, List.pairwise_map]
    refine (pairwise_missingLinks m).imp fun {a b} hab heq => ?_
    obtain ⟨hcategory, hkey⟩ := Prod.mk.inj heq
    rcases hab with hlt | ⟨-, hprecedes⟩
    · rw [hkey] at hlt
      exact SortedMap.not_lt_self hlt
    · rw [hcategory] at hprecedes
      exact hprecedes.irrefl
  · obtain ⟨earlier, later, hchain, -, hbefore, hafter⟩ := mem_missingLinks_iff.1 hg
    exact ⟨earlier, later, hchain, hbefore, hafter⟩

end ChainMatrix

end SpecLinkage
