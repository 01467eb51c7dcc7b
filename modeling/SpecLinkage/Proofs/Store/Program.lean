import SpecLinkage.Proofs.Store.Queries
import SpecLinkage.Workspace

/-! # Programs on a store

What a caller does with a store: single changes, and programs made of them.  A program may
look at the store at any time, and go on as it likes after each answer.

The same program means three things:

* `StoreProgram.run`: calls of the store, one after the other;
* `StoreProgram.plan`: what it does to records when nothing fails, with the number of changes
  that are made;
* `StoreProgram.onMap`: what it does to the plain map, every question answered from all tags.

`StoreProgram.plan_eq_onMap`: on records in step with their indexes a plan is what happens to
the plain map.  `StoreProgram.run_deferred`: in a store that only notes its changes a program
goes as planned. -/

namespace SpecLinkage

/-! ## Changes -/

/-- A change of a store. -/
inductive StoreChange
  | add (tag : Tag)
  | addAll (tags : List Tag)
  | remove (file : String)
  /-- Put tags in the place of the tags of a file. -/
  | replace (file : String) (tags : List Tag)
  | clear

/-- The same outcome with another answer. -/
def Store.Outcome.map {α β : Type} (f : α → β) (o : Store.Outcome α) : Store.Outcome β :=
  ⟨o.result.map f, o.store, o.tree⟩

namespace StoreChange

/-- The call that makes a change; the answer is the number of forgotten tags where there is
one. -/
def call : StoreChange → Store → FileTree → Store.Outcome Nat
  | add tag, s, t => (s.addTag tag t).map fun _ => 0
  | addAll tags, s, t => (s.addTags tags t).map fun _ => 0
  | remove file, s, t => s.removeFileTags file t
  | replace file tags, s, t => (s.replaceFileTags file tags t).map fun _ => 0
  | clear, s, t => (s.clear t).map fun _ => 0

/-- What a change does to records. -/
def apply : StoreChange → Records → Nat × Records
  | add tag, r => (0, r.insert tag)
  | addAll tags, r => (0, r.insertAll tags)
  | remove file, r => r.removeFile (normalizePath file)
  | replace file tags, r => (0, r.replaceFile (normalizePath file) tags)
  | clear, _ => (0, {})

/-- Whether a change is made at all: an unknown file is not forgotten. -/
def isMade : StoreChange → Records → Bool
  | remove file, r => r.byFile.contains (normalizePath file)
  | _, _ => true

/-- What a change does to the plain map. -/
def onMap : StoreChange → TagMap → Nat × TagMap
  | add tag, m => (0, m.upsert tag)
  | addAll tags, m => (0, m.upsertAll tags)
  | remove file, m =>
    ((m.ofFile (normalizePath file)).size, m.withoutFile (normalizePath file))
  | replace file tags, m => (0, (m.withoutFile (normalizePath file)).upsertAll tags)
  | clear, _ => (0, ∅)

end StoreChange

/-! ### What a call does -/

theorem Store.map_commit {α β : Type} (f : α → β) (change : Records → α × Records) (s : Store)
    (t : FileTree) :
    (s.commit change t).map f = s.commit (fun r => (f (change r).1, (change r).2)) t := by
  unfold Store.commit
  rcases Store.persist { s with records := (change s.records).2 } t with ⟨_ | _, s', t'⟩ <;> rfl

/-- A call commits its change, unless there is nothing to change. -/
theorem StoreChange.call_eq (c : StoreChange) (s : Store) (t : FileTree) :
    c.call s t = if c.isMade s.records then s.commit c.apply t else ⟨.ok 0, s, t⟩ := by
  cases c with
  | add tag => exact Store.map_commit _ _ s t
  | addAll tags => exact Store.map_commit _ _ s t
  | remove file => rfl
  | replace file tags => exact Store.map_commit _ _ s t
  | clear => exact Store.map_commit _ _ s t

theorem StoreChange.apply_of_not_isMade {c : StoreChange} {r : Records}
    (h : c.isMade r = false) : c.apply r = (0, r) := by
  cases c with
  | remove file =>
    have hnone : r.byFile.get? (normalizePath file) = none := Option.isSome_eq_false_iff.1 h |>
      Option.isNone_iff_eq_none.1
    show r.removeFile (normalizePath file) = (0, r)
    rw [Records.removeFile, hnone]
  | _ => cases h

/-- A change of records in step with their indexes keeps them in step, and does to the tags
what it does to the plain map. -/
theorem StoreChange.apply_eq_onMap (c : StoreChange) {r : Records} (h : r.Indexed) :
    (c.apply r).2.Indexed ∧ (c.apply r).2.entries = (c.onMap r.entries).2 ∧
      (c.apply r).1 = (c.onMap r.entries).1 := by
  cases c with
  | add tag => exact ⟨h.insert tag, rfl, rfl⟩
  | addAll tags => exact ⟨h.insertAll tags, Records.entries_insertAll r tags, rfl⟩
  | remove file => exact h.removeFile (normalizePath file)
  | replace file tags =>
    exact ⟨h.replaceFile _ tags, h.entries_replaceFile _ tags, rfl⟩
  | clear => exact ⟨Records.indexed_empty, rfl, rfl⟩

/-- In a store that only notes its changes a commit cannot fail, and nothing is written. -/
theorem Store.commit_deferred {α : Type} (change : Records → α × Records) {s : Store}
    (t : FileTree) (h : s.deferred = true) :
    s.commit change t =
      ⟨.ok (change s.records).1, { s with records := (change s.records).2, dirty := true }, t⟩ := by
  simp [Store.commit, Store.persist, h]

/-- What comes of writing the records of a store at once: the outcome and the files. -/
def Store.write (s : Store) (t : FileTree) : Except StoreError Unit × FileTree :=
  match s.path with
  | none => (.ok (), t)
  | some path =>
    match s.status with
    | .unreadable cause => (.error (.refused path cause), t)
    | _ =>
      match writeAll t path (StoreDocument.ofRecords s.records).text with
      | (.error e, t) => (.error (.unwritable path e), t)
      | (.ok (), t) => (.ok (), t)

/-- Outside of an update the records are written at once, and the store stays as it is. -/
theorem Store.persist_direct {s : Store} (t : FileTree) (h : s.deferred = false) :
    s.persist t = ⟨(s.write t).1, s, (s.write t).2⟩ := by
  unfold Store.persist Store.write
  rw [if_neg (by rw [h]; exact Bool.false_ne_true)]
  cases s.path with
  | none => rfl
  | some path =>
    cases s.status with
    | unreadable cause => rfl
    | _ =>
      simp only
      rcases writeAll t path (StoreDocument.ofRecords s.records).text with ⟨_ | _, t'⟩ <;> rfl

/-- Outside of an update, a commit writes the changed records at once, and a change that
cannot be written leaves the store as it is. -/
theorem Store.commit_direct {α : Type} (change : Records → α × Records) {s : Store} (t : FileTree)
    (h : s.deferred = false) (hr : s.records.Indexed) :
    s.commit change t =
      match Store.write { s with records := (change s.records).2 } t with
      | (.ok (), t) => ⟨.ok (change s.records).1, { s with records := (change s.records).2 }, t⟩
      | (.error e, t) => ⟨.error e, s, t⟩ := by
  have hp := Store.persist_direct (s := { s with records := (change s.records).2 }) t h
  unfold Store.commit
  rw [hp]
  rcases Store.write { s with records := (change s.records).2 } t with ⟨e | _, t'⟩
  · simp only [Store.restore, hr.ofTags_tags]
  · rfl

/-! ## Programs -/

/-- A program on a store.  It may look at the store, and it sees the answer of each change. -/
inductive StoreProgram (α : Type)
  | finish (result : Except StoreError α)
  | look (next : StoreView → StoreProgram α)
  | change (c : StoreChange) (next : Except StoreError Nat → StoreProgram α)

namespace StoreProgram

variable {α : Type}

/-- Run a program call by call. -/
def run : StoreProgram α → Workspace → Except StoreError α × Workspace
  | finish result, w => (result, w)
  | look next, w => (next w.store.records.view).run w
  | change c next, w =>
    let (answer, w) := w.onStore c.call
    (next answer).run w

/-- What a program does to records when nothing fails: its result, the records, and how many
of its changes are made. -/
def plan : StoreProgram α → Records → Except StoreError α × Records × Nat
  | finish result, r => (result, r, 0)
  | look next, r => (next r.view).plan r
  | change c next, r =>
    let (result, r', made) := (next (.ok (c.apply r).1)).plan (c.apply r).2
    (result, r', made + if c.isMade r then 1 else 0)

/-- What a program does to the plain map. -/
def onMap : StoreProgram α → TagMap → Except StoreError α × TagMap
  | finish result, m => (result, m)
  | look next, m => (next m.view).onMap m
  | change c next, m => (next (.ok (c.onMap m).1)).onMap (c.onMap m).2

/-- On records in step with their indexes a plan is what happens to the plain map. -/
theorem plan_eq_onMap (p : StoreProgram α) {r : Records} (h : r.Indexed) :
    (p.plan r).2.1.Indexed ∧ (p.plan r).2.1.entries = (p.onMap r.entries).2 ∧
      (p.plan r).1 = (p.onMap r.entries).1 := by
  induction p generalizing r with
  | finish result => exact ⟨h, rfl, rfl⟩
  | look next ih =>
    rw [plan, onMap, h.view_eq]
    exact ih _ h
  | change c next ih =>
    obtain ⟨hi, he, ha⟩ := c.apply_eq_onMap h
    have := ih (.ok (c.apply r).1) hi
    rw [he, ha] at this
    rw [plan, onMap]
    rwa [ha]

/-- In a store that only notes its changes a program goes as planned; it touches the records
and the mark for changes, and nothing else. -/
theorem run_deferred (p : StoreProgram α) (w : Workspace) (h : w.store.deferred = true) :
    p.run w = ((p.plan w.store.records).1,
      { w with store := { w.store with
          records := (p.plan w.store.records).2.1
          dirty := w.store.dirty || decide (0 < (p.plan w.store.records).2.2) } }) := by
  induction p generalizing w with
  | finish result => simp [run, plan]
  | look next ih => exact ih _ w h
  | change c next ih =>
    rw [run, plan]
    cases hc : c.isMade w.store.records with
    | false =>
      have hcall : w.onStore c.call = (.ok 0, w) := by
        rw [Workspace.onStore, c.call_eq, hc]
        rfl
      rw [hcall, StoreChange.apply_of_not_isMade hc]
      simp only
      rw [ih _ w h]
      simp
    | true =>
      have hcall : w.onStore c.call = (.ok (c.apply w.store.records).1,
          { w with store := { w.store with
              records := (c.apply w.store.records).2, dirty := true } }) := by
        rw [Workspace.onStore, c.call_eq, hc, if_pos rfl, Store.commit_deferred _ _ h]
        rfl
      have hrest := ih (.ok (c.apply w.store.records).1) { w with store := { w.store with
        records := (c.apply w.store.records).2, dirty := true } } h
      rw [hcall]
      simp only
      rw [hrest]
      simp

end StoreProgram

end SpecLinkage
