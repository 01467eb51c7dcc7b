import SpecLinkage.Proofs.Store.Update

/-! # A store is a plain map

Whatever is done to a store, and whether it succeeds or not, the store goes on to be a plain
map from keys to tags.  A run is a list of events; between them others may change the files
and the locks as they like.

* `Workspace.perform` is an event as it happens, `PlainStore.step` what it does to the plain
  map, and `PlainStore.answer` what it answers.
* `perform_couples` is the step and `performAll_couples` the run: indexes stay in step, and
  the tags are those of the plain map.
* `performAll_refines`: after every run, every question is answered as from the plain map. -/

namespace SpecLinkage

/-! ## Events -/

/-- Something that happens to the store of a workspace. -/
inductive StoreEvent (α : Type)
  /-- A store is opened: at a path, or in memory. -/
  | opened (path : Option String)
  | reloaded
  | changed (c : StoreChange)
  /-- A program is run as an update under a lock. -/
  | updated (lock : String) (timeout : Nat) (program : StoreProgram α)
  /-- Others change the files and the locks. -/
  | disturbed (disk : Disk) (locks : SortedMap String Lock)

/-- What an event answers. -/
inductive StoreAnswer (α : Type)
  | none
  | count (n : Nat)
  | value (a : α)

variable {α : Type}

/-- An event as it happens. -/
def Workspace.perform (w : Workspace) :
    StoreEvent α → Except UpdateError (StoreAnswer α) × Workspace
  | .opened path =>
    (.ok .none, { w with store := Store.reload { path } w.disk.tree })
  | .reloaded => (.ok .none, w.reload)
  | .changed c =>
    let (answer, w) := w.onStore c.call
    ((answer.mapError .store).map .count, w)
  | .updated lock timeout program =>
    let (answer, w) := w.update lock timeout program.run
    (answer.map .value, w)
  | .disturbed disk locks => (.ok .none, { w with disk, locks })

def Workspace.performAll (w : Workspace) (es : List (StoreEvent α)) : Workspace :=
  es.foldl (fun w e => (w.perform e).2) w

/-! ## The plain store -/

/-- A store without indexes: the plain map, and the file that it is read from. -/
structure PlainStore where
  /-- The file; a store without one lives in memory. -/
  path : Option String
  map : TagMap

namespace PlainStore

/-- The store as the file has it: the valid records in order.  A store in memory keeps its
tags. -/
def reload (p : PlainStore) (t : FileTree) : PlainStore :=
  match p.path with
  | none => p
  | some path => { p with map := TagMap.upsertAll ∅ (Store.validTags t path) }

/-- The plain store after an event that had the given answer.  A change that failed changes
nothing, and an update that failed leaves what it loaded.  Of the workspace only the files
matter, as they are when the store is read, and whether the lock is taken. -/
def step (p : PlainStore) (w : Workspace) :
    StoreEvent α → Except UpdateError (StoreAnswer α) → PlainStore
  | .opened path, _ => reload ⟨path, ∅⟩ w.disk.tree
  | .reloaded, _ => p.reload w.disk.tree
  | .changed c, .ok _ => { p with map := (c.onMap p.map).2 }
  | .changed _, .error _ => p
  | .updated lock timeout program, answer =>
    match w.acquire lock timeout, answer with
    | (.error _, _), _ => p
    | (.ok (), w), .error _ => p.reload w.disk.tree
    | (.ok (), w), .ok _ =>
      { p with map := (program.onMap (p.reload w.disk.tree).map).2 }
  | .disturbed _ _, _ => p

/-- What an event that succeeds answers, as far as the plain map can tell. -/
def answer (p : PlainStore) (w : Workspace) : StoreEvent α → Option (StoreAnswer α)
  | .changed c => some (.count (c.onMap p.map).1)
  | .updated lock timeout program =>
    ((program.onMap (p.reload (w.acquire lock timeout).2.disk.tree).map).1.toOption).map .value
  | _ => some .none

/-- The plain store after events in a row, each with the answer that it had. -/
def follow (p : PlainStore) (w : Workspace) : List (StoreEvent α) → PlainStore
  | [] => p
  | e :: es => (p.step w e (w.perform e).1).follow (w.perform e).2 es

/-- A store holds the tags of a plain store, with its indexes in step. -/
structure Couples (s : Store) (p : PlainStore) : Prop where
  path : s.path = p.path
  indexed : s.records.Indexed
  entries : s.records.entries = p.map
  direct : s.deferred = false

/-- The plain store before any event: in memory, without tags. -/
def start : PlainStore := ⟨none, ∅⟩

/-! ## One event -/

theorem Couples.reload {s : Store} {p : PlainStore} (h : Couples s p) (t : FileTree) :
    Couples (s.reload t) (p.reload t) := by
  obtain ⟨path, map⟩ := p
  have hi := Store.reload_indexed h.indexed t
  have hs := Store.reload_path s t
  obtain rfl : s.path = path := h.path
  cases hp : s.path with
  | none =>
    have hreload : s.reload t = s := by rw [Store.reload, hp]
    rw [hreload]
    exact ⟨hp, h.indexed, h.entries, h.direct⟩
  | some file =>
    have hreload : s.reload t =
        { s with records := (Store.load t file).1, status := (Store.load t file).2 } := by
      rw [Store.reload, hp]
    refine ⟨hs.trans hp, hi, ?_, ?_⟩
    · rw [hreload]
      show (Store.load t file).1.entries = _
      rw [Store.load_records]
      exact Records.entries_insertAll {} _
    · rw [hreload]
      exact h.direct

/-- A direct change happens to the plain map, or it fails and nothing happens. -/
theorem Couples.changed {s : Store} {p : PlainStore} (h : Couples s p) (c : StoreChange)
    (t : FileTree) :
    match (c.call s t).result with
    | .ok n => Couples (c.call s t).store { p with map := (c.onMap p.map).2 } ∧
      n = (c.onMap p.map).1
    | .error _ => (c.call s t).store = s := by
  obtain ⟨hi, he, ha⟩ := c.apply_eq_onMap h.indexed
  rw [h.entries] at he ha
  rw [c.call_eq]
  cases hmade : c.isMade s.records with
  | false =>
    rw [StoreChange.apply_of_not_isMade hmade] at he ha
    exact ⟨⟨h.path, h.indexed, he, h.direct⟩, ha⟩
  | true =>
    rw [if_pos rfl, Store.commit_direct _ _ h.direct h.indexed]
    rcases Store.write { s with records := (c.apply s.records).2 } t with ⟨e | _, t'⟩
    · rfl
    · exact ⟨⟨h.path, hi, he, h.direct⟩, ha⟩

/-- Under the lock a program happens to the plain map as it was loaded, or it fails and what was
loaded stays. -/
theorem Couples.concluded {w : Workspace} {p : PlainStore} (h : Couples w.store p)
    (program : StoreProgram α) :
    match (w.concluded program).1 with
    | .ok a => (program.onMap (p.reload w.disk.tree).map).1 = .ok a ∧
      Couples (w.concluded program).2.store
        { p with map := (program.onMap (p.reload w.disk.tree).map).2 }
    | .error _ => Couples (w.concluded program).2.store (p.reload w.disk.tree) := by
  have hr : Couples w.reopened.store (p.reload w.disk.tree) :=
    ⟨(h.reload _).path, (h.reload _).indexed, (h.reload _).entries, rfl⟩
  have hpath : (p.reload w.disk.tree).path = p.path := by
    rw [← hr.path, ← h.path]
    exact Store.reload_path _ _
  obtain ⟨hsp, hsi, hsd, -⟩ := w.concluded_store program h.indexed
  have hrec := w.concluded_records program
  obtain ⟨-, he, ha⟩ := program.plan_eq_onMap hr.indexed
  rw [hr.entries] at he ha
  rcases hres : (w.concluded program).1 with e | a <;> rw [hres] at hrec
  · exact ⟨hsp.trans (h.path.trans hpath.symm), hsi, by rw [hrec, hr.entries], hsd⟩
  · exact ⟨ha ▸ hrec.1, ⟨hsp.trans h.path, hsi, by rw [hrec.2, he], hsd⟩⟩

end PlainStore

open PlainStore

/-- After an event the store holds the tags of the plain store after it, and if the event has gone
well it has answered as the plain store does. -/
theorem Workspace.perform_couples {w : Workspace} {p : PlainStore} (e : StoreEvent α)
    (h : Couples w.store p) :
    Couples (w.perform e).2.store (p.step w e (w.perform e).1) ∧
      ∀ a, (w.perform e).1 = .ok a → p.answer w e = some a := by
  cases e with
  | opened path =>
    have hempty : Couples { path } ⟨path, ∅⟩ := ⟨rfl, Records.indexed_empty, rfl, rfl⟩
    refine ⟨hempty.reload w.disk.tree, ?_⟩
    rintro a ⟨⟩
    rfl
  | reloaded =>
    refine ⟨h.reload w.disk.tree, ?_⟩
    rintro a ⟨⟩
    rfl
  | changed c =>
    have hc := h.changed c w.disk.tree
    rcases hcall : c.call w.store w.disk.tree with ⟨e | n, s, t⟩ <;> rw [hcall] at hc <;>
      simp only [perform, onStore, keepStore, hcall]
    · obtain rfl : s = w.store := hc
      refine ⟨h, ?_⟩
      rintro a ⟨⟩
    · obtain ⟨hs, rfl⟩ := hc
      refine ⟨hs, ?_⟩
      rintro a ⟨⟩
      rfl
  | updated lock timeout program =>
    have hstore := acquire_store lock timeout w
    rcases hacq : w.acquire lock timeout with ⟨e | _, w₁⟩ <;> rw [hacq] at hstore
    · have hup : w.update lock timeout program.run = (.error (.lock e), w₁) := by
        simp only [update, guarded, hacq]
      simp only [perform, hup, step, hacq]
      refine ⟨hstore ▸ h, ?_⟩
      rintro a ⟨⟩
    · have h₁ : Couples w₁.store p := hstore ▸ h
      have hc := h₁.concluded program
      rcases hend : w₁.concluded program with ⟨e | a, w₂⟩ <;> rw [hend] at hc <;>
        simp only [perform, update_run program h.indexed hacq, hend, step, hacq, answer]
      · refine ⟨?_, ?_⟩
        · rw [release_store]
          exact hc
        · rintro a ⟨⟩
      · obtain ⟨hresult, hs⟩ := hc
        refine ⟨?_, ?_⟩
        · rw [release_store]
          exact hs
        · rintro b ⟨⟩
          rw [hresult]
          rfl
  | disturbed disk locks =>
    refine ⟨h, ?_⟩
    rintro a ⟨⟩
    rfl

/-! ## Runs -/

def Workspace.emptied (w : Workspace) : Workspace := { w with store := .inMemory }

/-- After every run the store holds the tags of the plain store after it. -/
theorem Workspace.performAll_couples {w : Workspace} {p : PlainStore}
    (es : List (StoreEvent α)) (h : Couples w.store p) :
    Couples (w.performAll es).store (p.follow w es) := by
  induction es generalizing w p with
  | nil => exact h
  | cons e es ih => exact ih (perform_couples e h).1

theorem TagMap.mem_locations_iff (m : TagMap) (id file : String) (line : Nat) :
    (file, line) ∈ m.view.locations id ↔
      ∃ t ∈ m.values, t.specId.text = id ∧ t.filePath = file ∧ t.line = line := by
  simp only [TagMap.view, List.mem_eraseDups, List.mem_map, List.mem_filter, beq_iff_eq,
    Prod.mk.injEq, and_assoc]

theorem TagMap.mem_specIds_iff (m : TagMap) (id : String) :
    id ∈ m.view.specIds ↔ ∃ t ∈ m.values, t.specId.text = id := by
  rw [TagMap.view, SortedMap.mem_keys_iff, SortedSet.contains_ofMembers, List.mem_map]

/-- The tags without a document are those that are found by asking for each tag. -/
theorem PlainStore.Couples.orphanedTags_eq {s : Store} {p : PlainStore} (h : Couples s p)
    (c : Catalog) (t : FileTree) :
    s.orphanedTags c t = p.map.values.filter fun tag => !c.contains t tag.specId.text := by
  have hids : s.records.specIds = p.map.view.specIds := by
    rw [← h.entries, ← h.indexed.view_eq]
    rfl
  have htags : s.tags = p.map.values := by
    rw [← h.entries]
    rfl
  rw [Store.orphanedTags, hids, htags]
  apply List.filter_congr
  intro tag htag
  have hmem : tag.specId.text ∈ p.map.view.specIds :=
    (TagMap.mem_specIds_iff _ _).2 ⟨tag, htag, rfl⟩
  rw [Bool.eq_iff_iff, List.contains_iff_mem, List.mem_filter]
  exact and_iff_right hmem

/-- After every run the tags have their own keys, every question is answered as from the plain
map, and whatever happens next is answered as the plain store answers it. -/
theorem Workspace.performAll_refines (es : List (StoreEvent α)) (w : Workspace) :
    let w' := w.emptied.performAll es
    let p := PlainStore.start.follow w.emptied es
    w'.store.records.view = p.map.view ∧ w'.store.records.isConsistent = true ∧
      (∀ k t, p.map.get? k = some t → k = .ofTag t) ∧
      (∀ id, (w'.store.records.locations id).Pairwise placeLT ∧
        ∀ file line, (file, line) ∈ w'.store.records.locations id ↔
          ∃ t ∈ p.map.values, t.specId.text = id ∧ t.filePath = file ∧ t.line = line) ∧
      (∀ c tree, w'.store.orphanedTags c tree =
        p.map.values.filter fun t => !c.contains tree t.specId.text) ∧
      ∀ (e : StoreEvent α) a, (w'.perform e).1 = .ok a → p.answer w' e = some a := by
  intro w' p
  have hstart : Couples w.emptied.store PlainStore.start := ⟨rfl, Records.indexed_empty, rfl, rfl⟩
  have h : Couples w'.store p := performAll_couples es hstart
  have hview : w'.store.records.view = p.map.view := by
    rw [← h.entries]
    exact h.indexed.view_eq
  refine ⟨hview, (Records.isConsistent_iff _).2 h.indexed, ?_, ?_, h.orphanedTags_eq,
    fun e => (perform_couples e h).2⟩
  · rw [← h.entries]
    exact h.indexed.keyed
  · intro id
    refine ⟨Records.locations_pairwise _ id, fun file line => ?_⟩
    have hloc : w'.store.records.locations id = p.map.view.locations id := by
      rw [← hview]
      rfl
    rw [hloc]
    exact p.map.mem_locations_iff id file line

end SpecLinkage
