import SpecLinkage.Proofs.Chain.Stages

/-! # Links collected one after the other

What a pass over the links collects, for every chain its categories and for every stage its
identifiers.

* `ChainTable.collect` collects the categories of the chains; `keys_collect`, `hasStage_collect`.
* `Coverage.ofTable_collect`: the coverage can be read off the table.
* `MatrixPass` fills the matrix, with the links that it has seen; `MatrixPass.Behind` is what holds
  after some links, `behind_step` one link further and `behind_foldl` at the end of a list.
* `ChainMatrix.pass_matrix`: the pass gives the matrix of the links. -/

namespace SpecLinkage

variable {links done : List Link} {l : Link} {key : String} {c : Category}

/-! ## The categories of the chains -/

/-- The categories of the links of each chain. -/
abbrev ChainTable := SortedMap String (SortedSet Category)

namespace ChainTable

variable {table : ChainTable}

/-- The table with one more link. -/
def put (table : ChainTable) (l : Link) : ChainTable :=
  table.insert l.chainKey (((table.get? l.chainKey).getD ∅).add l.category)

def collect (links : List Link) : ChainTable := links.foldl put ∅

/-- Whether a chain has a category. -/
def hasStage (table : ChainTable) (key : String) (c : Category) : Bool :=
  (table.get? key).any fun stages => stages.contains c

theorem hasStage_put : (table.put l).hasStage key c =
    (table.hasStage key c || (l.category == c && l.chainKey == key)) := by
  rw [hasStage, hasStage, put]
  by_cases hkey : key = l.chainKey
  · subst hkey
    have hequal : (compare c l.category == .eq) = (l.category == c) := by
      rw [Bool.eq_iff_iff, beq_iff_eq, beq_iff_eq, Std.compare_eq_iff_eq, eq_comm]
    rw [SortedMap.get?_insert_self, Option.any_some, SortedSet.contains_add, hequal, beq_self_eq_true,
      Bool.and_true, Bool.or_comm]
    cases table.get? l.chainKey <;> rfl
  · rw [SortedMap.get?_insert_of_ne _ _ hkey]
    simp [Ne.symm hkey]

theorem hasStage_foldl_put : (links.foldl put table).hasStage key c =
    (table.hasStage key c || chainHas links key c) := by
  induction links generalizing table with
  | nil => exact (Bool.or_false _).symm
  | cons l links ih =>
    rw [List.foldl_cons, ih, hasStage_put, Bool.or_assoc]
    rfl

theorem hasStage_collect : (collect links).hasStage key c = chainHas links key c := by
  rw [collect, hasStage_foldl_put]
  rfl

theorem keys_collect (links : List Link) : (collect links).keys = chainKeys links := by
  apply eq_of_pairwise_lt (SortedMap.keys_pairwise _) (SortedMap.keys_pairwise _)
  intro key
  show key ∈ (collect links).keys ↔ key ∈ chainKeys links
  rw [SortedMap.mem_keys_iff, mem_chainKeys_iff]
  have hkeys := SortedMap.contains_foldl_insert Link.chainKey
    (fun (table : ChainTable) l => ((table.get? l.chainKey).getD ∅).add l.category) links ∅ key
  exact hkeys.trans (or_iff_right Bool.false_ne_true)

/-- The categories that the table lists for a chain are those that the chain has. -/
theorem contains_of_mem {e : String × SortedSet Category} (h : e ∈ table.toList) (c : Category) :
    e.2.contains c = table.hasStage e.1 c := by
  have hget : table.get? e.1 = some e.2 := (SortedMap.mem_toList_iff table).1 h
  rw [hasStage, hget, Option.any_some]

end ChainTable

/-- The coverage as it is read off the table. -/
def Coverage.ofTable (table : ChainTable) : Coverage :=
  let isFull (stages : SortedSet Category) : Bool := Category.primaryChain.all stages.contains
  let complete := table.values.countP isFull
  { totalChains := table.size
    completeChains := complete
    percentage := .percentage complete table.size
    stages := Category.primaryChain.map fun c =>
      let present := table.values.countP fun stages => stages.contains c
      (c, ⟨present, table.size, .percentage present table.size⟩)
    incompleteChains := (table.toList.filter fun e => !isFull e.2).map (·.1) }

namespace ChainTable

/-- What is counted over the categories of the chains is counted over the chains. -/
theorem countP_values {p : SortedSet Category → Bool} {q : String → Bool}
    (h : ∀ e ∈ (collect links).toList, p e.2 = q e.1) :
    (collect links).values.countP p = (chainKeys links).countP q := by
  rw [← keys_collect, SortedMap.values, SortedMap.keys, List.countP_map, List.countP_map]
  exact List.countP_congr fun e he => by rw [Function.comp_apply, Function.comp_apply, h e he]

theorem contains_collect {e : String × SortedSet Category} (h : e ∈ (collect links).toList) :
    e.2.contains = chainHas links e.1 := by
  funext c
  rw [contains_of_mem h, hasStage_collect]

/-- The chains with a category, counted in the table. -/
theorem countP_values_contains (links : List Link) (c : Category) :
    ((collect links).values.countP fun stages => stages.contains c) = chainsWith links c :=
  countP_values fun _ he => congrFun (contains_collect he) c

end ChainTable

open ChainTable in
/-- The table of the links gives their coverage. -/
theorem Coverage.ofTable_collect (links : List Link) : ofTable (collect links) = ofLinks links := by
  have hfull : ∀ e ∈ (collect links).toList,
      Category.primaryChain.all e.2.contains = isComplete links e.1 := fun e he => by
    rw [contains_collect he, isComplete]
  have hsize : (collect links).size = (chainKeys links).length := by
    rw [← SortedMap.length_keys, keys_collect]
  have hincomplete : ((collect links).toList.filter
      fun e => !Category.primaryChain.all e.2.contains).map (·.1) =
        (chainKeys links).filter fun key => !isComplete links key := by
    rw [← keys_collect, SortedMap.keys, List.filter_map]
    exact congrArg _ (List.filter_congr fun e he => by rw [hfull e he]; rfl)
  rw [ofTable, ofLinks, hsize, hincomplete, countP_values hfull]
  simp only [countP_values_contains]

/-! ## The identifiers of the stages -/

theorem Category.group_eq_primary_iff : c.group = .primary ↔ c ∈ primaryChain := by
  cases c <;> decide

namespace ChainMatrix

theorem get?_ofLinks (links : List Link) (c : Category) :
    (ofLinks links).get? c = if c ∈ Category.primaryChain then some (idsOf links c) else none := by
  split
  · next hc =>
    refine SortedMap.get?_insertMany_of_mem _ ?_ (List.mem_map.2 ⟨c, hc, rfl⟩)
    rw [List.map_map]
    exact (by decide : Category.primaryChain.Nodup)
  · next hc =>
    apply SortedMap.get?_insertMany
    rwa [List.map_map, List.map_id'']
    exact fun _ => rfl

/-- One link further, its identifier is listed behind the others of its stage unless it is there. -/
theorem idsOf_concat (done : List Link) (l : Link) (c : Category) : idsOf (done ++ [l]) c =
    if l.category = c ∧ l ∉ done then idsOf done c ++ [l.id] else idsOf done c := by
  by_cases hc : l.category = c
  · have hseen : l.id ∈ (done.filter fun l => l.category == c).map Link.id ↔ l ∈ done := by
      rw [← List.mem_eraseDups, ← idsOf, mem_idsOf_iff, ← hc]
    rw [idsOf, List.filter_append, List.map_append, List.eraseDups_append, ← idsOf,
      List.filter_cons_of_pos (by simpa using hc)]
    by_cases hl : l ∈ done
    · simp [hl, List.removeAll, hseen.2 hl]
    · simp [hc, hl, List.removeAll, mt hseen.1 hl, List.eraseDups_cons]
  · rw [if_neg fun h => hc h.1, idsOf, List.filter_append,
      List.filter_cons_of_neg (by simpa using hc), List.filter_nil, List.append_nil, idsOf]

/-- The matrix grows by the first link of an identifier in a stage. -/
theorem ofLinks_concat (done : List Link) (l : Link) : ofLinks (done ++ [l]) =
    if l.category ∈ Category.primaryChain ∧ l ∉ done then
      (ofLinks done).insert l.category ((ofLinks done).stage l.category ++ [l.id])
    else ofLinks done := by
  apply SortedMap.ext_get?
  intro c
  rw [get?_ofLinks, idsOf_concat]
  by_cases hnew : l.category ∈ Category.primaryChain ∧ l ∉ done
  · rw [if_pos hnew]
    by_cases hc : c = l.category
    · rw [hc, SortedMap.get?_insert_self, if_pos hnew.1, if_pos ⟨rfl, hnew.2⟩,
        stage_ofLinks done hnew.1]
    · have hother : ¬(l.category = c ∧ l ∉ done) := fun h => hc h.1.symm
      rw [SortedMap.get?_insert_of_ne _ _ hc, get?_ofLinks, if_neg hother]
  · rw [if_neg hnew, get?_ofLinks]
    split
    · next hc =>
      rw [if_neg]
      rintro ⟨rfl, hl⟩
      exact hnew ⟨hc, hl⟩
    · rfl

end ChainMatrix

/-- The matrix as far as it is filled, and the links of its stages that were seen. -/
structure MatrixPass where
  matrix : ChainMatrix
  seen : List Link

namespace MatrixPass

def start : MatrixPass := ⟨SortedMap.ofList (Category.primaryChain.map fun c => (c, [])), []⟩

/-- One link more; links outside of the primary chain and links that were seen are passed over. -/
def step (p : MatrixPass) (l : Link) : MatrixPass :=
  if l.category.group ≠ .primary then p
  else if l ∈ p.seen then p
  else ⟨p.matrix.insert l.category (p.matrix.stage l.category ++ [l.id]), l :: p.seen⟩

/-- What holds after the links `done`. -/
structure Behind (p : MatrixPass) (done : List Link) : Prop where
  matrix : p.matrix = ChainMatrix.ofLinks done
  seen : ∀ l, l ∈ p.seen ↔ l ∈ done ∧ l.category ∈ Category.primaryChain

theorem behind_start : start.Behind [] where
  matrix := rfl
  seen l := by simp [start]

theorem step_eq (p : MatrixPass) (l : Link) : p.step l =
    if l.category ∈ Category.primaryChain ∧ l ∉ p.seen then
      ⟨p.matrix.insert l.category (p.matrix.stage l.category ++ [l.id]), l :: p.seen⟩
    else p := by
  by_cases hgroup : l.category ∈ Category.primaryChain
  · have hprimary := Category.group_eq_primary_iff.2 hgroup
    by_cases hseen : l ∈ p.seen <;> simp [step, hprimary, hgroup, hseen]
  · have hother := mt Category.group_eq_primary_iff.1 hgroup
    simp [step, hother, hgroup]

/-- A link more makes the pass grow exactly if the matrix of the links grows. -/
theorem behind_step {p : MatrixPass} (h : p.Behind done) (l : Link) :
    (p.step l).Behind (done ++ [l]) := by
  have hnew : l.category ∈ Category.primaryChain ∧ l ∉ p.seen ↔
      l.category ∈ Category.primaryChain ∧ l ∉ done :=
    and_congr_right fun hc => not_congr ((h.seen l).trans (and_iff_left hc))
  rw [step_eq]
  split
  · next hgrows =>
    refine ⟨?_, fun l' => ?_⟩
    · rw [ChainMatrix.ofLinks_concat, if_pos (hnew.1 hgrows), h.matrix]
    · rw [List.mem_cons, h.seen, List.mem_append, List.mem_singleton, or_comm, or_and_right]
      exact or_congr_right (iff_self_and.2 fun heq => heq ▸ hgrows.1)
  · next hpassed =>
    refine ⟨?_, fun l' => ?_⟩
    · rw [ChainMatrix.ofLinks_concat, if_neg (mt hnew.2 hpassed), h.matrix]
    · rw [h.seen, List.mem_append, List.mem_singleton]
      refine and_congr_left fun hc => (or_iff_left_of_imp ?_).symm
      rintro rfl
      exact of_not_not fun hl => mt hnew.2 hpassed ⟨hc, hl⟩

theorem behind_foldl {p : MatrixPass} (h : p.Behind done) (links : List Link) :
    (links.foldl step p).Behind (done ++ links) := by
  induction links generalizing p done with
  | nil => rwa [List.append_nil]
  | cons l links ih =>
    have hnext := ih (behind_step h l)
    rwa [List.append_assoc] at hnext

end MatrixPass

/-- Filling the stages link by link gives the matrix of the links. -/
theorem ChainMatrix.pass_matrix (links : List Link) :
    (links.foldl MatrixPass.step .start).matrix = ofLinks links :=
  (MatrixPass.behind_foldl MatrixPass.behind_start links).matrix

end SpecLinkage
